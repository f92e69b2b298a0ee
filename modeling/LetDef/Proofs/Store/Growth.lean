import LetDef.Store.Basic
import Mathlib.Data.List.Infix

/-!
# How stores grow

Analysis and execution never take anything out of a store: they enter scopes, add symbols and put
objects into variables. `Store.Grows own s t` says so of a step from `s` to `t`, and that of the
frames that `s` has only `own` gets new variables. What a scope finds then stays what it is as
long as `own` is none of its frames.
-/

namespace LetDef

/-! ### Frames -/

/-- The variables of a frame without their values. -/
def Frame.outline (f : Frame) : List (String × Ty × Bool) :=
  f.vars.map fun v => (v.name, v.type, v.constant)

/-- The variable is the same as another but for the value. -/
def Variable.Like (v w : Variable) : Prop :=
  v.type = w.type ∧ v.constant = w.constant

lemma Frame.find?_outline (f : Frame) (name : String) :
    f.outline.find? (·.1 == name)
      = (f.getVariable? name).map fun v => (v.name, v.type, v.constant) := by
  unfold Frame.outline Frame.getVariable?
  rw [List.find?_map]
  rfl

/-- A variable stays defined in a frame whose outline continues that of another. -/
lemma Frame.getVariable?_of_prefix {f g : Frame} {name : String} {v : Variable}
    (h : f.outline <+: g.outline) (hv : f.getVariable? name = some v) :
    ∃ w, g.getVariable? name = some w ∧ w.Like v := by
  obtain ⟨rest, hrest⟩ := h
  have hf : f.outline.find? (·.1 == name) = some (v.name, v.type, v.constant) := by
    rw [Frame.find?_outline, hv]
    rfl
  have hg : g.outline.find? (·.1 == name) = some (v.name, v.type, v.constant) := by
    rw [← hrest, List.find?_append, hf]
    rfl
  rw [Frame.find?_outline, Option.map_eq_some_iff] at hg
  obtain ⟨w, hw, heq⟩ := hg
  simp only [Prod.mk.injEq] at heq
  exact ⟨w, hw, heq.2.1, heq.2.2⟩

/-- A function stays defined in a frame that has more of them behind. -/
lemma Frame.getFunction?_of_prefix {f g : Frame} {name : String} {arity : Nat} {h : Function}
    (hp : f.functions <+: g.functions) (hf : f.getFunction? name arity = some h) :
    g.getFunction? name arity = some h := by
  obtain ⟨rest, hrest⟩ := hp
  unfold Frame.getFunction? at hf ⊢
  rw [← hrest, List.find?_append, hf]
  rfl

namespace Store

variable {s t u : Store} {scope : Scope} {name : String} {ref : VariableRef} {v : Variable}
  {o : Object} {i : FrameId} {own : Option FrameId}

lemma frame_of_size_le (h : s.frames.size ≤ i) : s.frame i = {} := by
  unfold frame
  rw [Array.getElem?_eq_none h]
  rfl

@[simp] lemma frame_enter {parent : Option Scope} : (s.enter parent).2.frame i = s.frame i := by
  unfold frame enter
  rw [Array.getElem?_push]
  by_cases h : i = s.frames.size
  · rw [if_pos h, Array.getElem?_eq_none (Nat.le_of_eq h.symm)]
    rfl
  · rw [if_neg h]

@[simp] lemma size_enter {parent : Option Scope} :
    (s.enter parent).2.frames.size = s.frames.size + 1 := by
  unfold enter
  rw [Array.size_push]

@[simp] lemma size_modifyFrame {f : Frame → Frame} :
    (s.modifyFrame i f).frames.size = s.frames.size := by
  unfold modifyFrame
  rw [Array.size_modify]

lemma frame_modifyFrame_self {f : Frame → Frame} (h : i < s.frames.size) :
    (s.modifyFrame i f).frame i = f (s.frame i) := by
  unfold frame modifyFrame
  rw [Array.getElem?_modify, if_pos rfl, Array.getElem?_eq_getElem h]
  rfl

lemma frame_modifyFrame_of_ne {f : Frame → Frame} {j : FrameId} (h : j ≠ i) :
    (s.modifyFrame i f).frame j = s.frame j := by
  unfold frame modifyFrame
  rw [Array.getElem?_modify, if_neg h.symm]

lemma frame_modifyFrame_of_size_le {f : Frame → Frame} (h : s.frames.size ≤ i) :
    (s.modifyFrame i f).frame i = s.frame i := by
  rw [frame_of_size_le h, frame_of_size_le (by rwa [size_modifyFrame])]

/-- A change of the variables of a frame leaves all functions. -/
lemma functions_modifyVars {j : FrameId} (change : List Variable → List Variable) :
    ((s.modifyFrame j fun f => { f with vars := change f.vars }).frame i).functions
      = (s.frame i).functions := by
  by_cases hi : i = j
  · subst hi
    rcases Nat.lt_or_ge i s.frames.size with hsize | hsize
    · rw [frame_modifyFrame_self hsize]
    · rw [frame_modifyFrame_of_size_le hsize]
  · rw [frame_modifyFrame_of_ne hi]

/-! ### Growth -/

/-- From `s` to `t` scopes are entered, variables are added to new frames and to `own`, and objects
are put into variables. -/
structure Grows (own : Option FrameId) (s t : Store) : Prop where
  size : s.frames.size ≤ t.frames.size
  functions : ∀ i, (t.frame i).functions = (s.frame i).functions
  others : ∀ i < s.frames.size, own ≠ some i → (t.frame i).outline = (s.frame i).outline
  outline : ∀ i, (s.frame i).outline <+: (t.frame i).outline

namespace Grows

lemma refl (own : Option FrameId) (s : Store) : Grows own s s where
  size := Nat.le_refl _
  functions _ := rfl
  others _ _ _ := rfl
  outline _ := List.prefix_rfl

lemma trans (h : Grows own s t) (h' : Grows own t u) : Grows own s u where
  size := Nat.le_trans h.size h'.size
  functions i := (h'.functions i).trans (h.functions i)
  others i hi ho := (h'.others i (Nat.lt_of_lt_of_le hi h.size) ho).trans (h.others i hi ho)
  outline i := (h.outline i).trans (h'.outline i)

lemma weaken (h : Grows none s t) (own : Option FrameId) : Grows own s t where
  size := h.size
  functions := h.functions
  others i hi _ := h.others i hi (by simp)
  outline := h.outline

/-- What is added to a new frame adds nothing to the frames before. -/
lemma of_enter (parent : Option Scope) (h : Grows (some s.frames.size) (s.enter parent).2 t) :
    Grows none s t where
  size := by
    have hsize := h.size
    rw [size_enter] at hsize
    exact Nat.le_of_succ_le hsize
  functions i := by
    rw [h.functions i, frame_enter]
  others i hi _ := by
    have hne : some s.frames.size ≠ some i := by
      simpa using (Nat.ne_of_lt hi).symm
    rw [h.others i (by rw [size_enter]; exact Nat.lt_succ_of_lt hi) hne, frame_enter]
  outline i := by
    have ho := h.outline i
    rwa [frame_enter] at ho

end Grows

lemma grows_enter (parent : Option Scope) : Grows none s (s.enter parent).2 where
  size := by
    rw [size_enter]
    exact Nat.le_succ _
  functions i := by rw [frame_enter]
  others i _ _ := by rw [frame_enter]
  outline i := by rw [frame_enter]

/-! ### Adding variables -/

lemma frame_addVariable_of_ne (h : i ≠ scope.frame) : (s.addVariable scope v).frame i = s.frame i :=
  frame_modifyFrame_of_ne h

lemma frame_addVariable_self (h : scope.frame < s.frames.size) :
    (s.addVariable scope v).frame scope.frame
      = { s.frame scope.frame with vars := (s.frame scope.frame).vars ++ [v] } :=
  frame_modifyFrame_self h

lemma grows_addVariable (h : scope.frame < s.frames.size) :
    Grows (some scope.frame) s (s.addVariable scope v) where
  size := Nat.le_of_eq size_modifyFrame.symm
  functions i := by
    by_cases hi : i = scope.frame
    · rw [hi, frame_addVariable_self h]
    · rw [frame_addVariable_of_ne hi]
  others i _ ho := by
    have hi : i ≠ scope.frame := by
      rintro rfl
      exact ho rfl
    rw [frame_addVariable_of_ne hi]
  outline i := by
    by_cases hi : i = scope.frame
    · rw [hi, frame_addVariable_self h]
      unfold Frame.outline
      rw [List.map_append]
      exact List.prefix_append _ _
    · rw [frame_addVariable_of_ne hi]

/-- Where there is no frame nothing is added. -/
lemma addVariable_of_size_le (h : s.frames.size ≤ scope.frame) : s.addVariable scope v = s := by
  unfold addVariable modifyFrame Array.modify
  rw [Array.modifyM, dif_neg (Nat.not_lt_of_le h)]
  rfl

/-- A variable of another name is found as before. -/
lemma getVariable?_addVariable_of_ne (h : name ≠ v.name) :
    ((s.addVariable scope v).frame i).getVariable? name = (s.frame i).getVariable? name := by
  by_cases hi : i = scope.frame
  · by_cases hsize : scope.frame < s.frames.size
    · rw [hi, frame_addVariable_self hsize]
      unfold Frame.getVariable?
      have hlast : [v].find? (·.name == name) = none := by
        rw [List.find?_singleton, if_neg (by simpa using h.symm)]
      rw [List.find?_append, hlast, Option.or_none]
    · have hout : (s.addVariable scope v).frames.size ≤ i := by
        unfold addVariable
        rw [size_modifyFrame, hi]
        exact Nat.le_of_not_lt hsize
      rw [frame_of_size_le hout, hi, frame_of_size_le (Nat.le_of_not_lt hsize)]
  · rw [frame_addVariable_of_ne hi]

/-- A variable at another address is found as before. -/
lemma getVariable?_addVariable_of_ref_ne (h : ref ≠ ⟨scope.frame, v.name⟩) :
    (s.addVariable scope v).getVariable? ref = s.getVariable? ref := by
  by_cases hname : ref.name = v.name
  · have hframe : ref.frame ≠ scope.frame := by
      intro hframe
      exact h (by rw [← hframe, ← hname])
    rw [getVariable?, frame_addVariable_of_ne hframe]
    rfl
  · rw [getVariable?, getVariable?_addVariable_of_ne hname]
    rfl

/-- A variable that was not there before is found. -/
lemma getVariable?_addVariable_self (h : scope.frame < s.frames.size)
    (hnew : (s.frame scope.frame).getVariable? v.name = none) :
    ((s.addVariable scope v).frame scope.frame).getVariable? v.name = some v := by
  rw [frame_addVariable_self h]
  unfold Frame.getVariable? at hnew ⊢
  rw [List.find?_append, hnew]
  simp

/-! ### Setting variables -/

/-- A frame in which the variables of a name have a new value. -/
def setIn (name : String) (o : Object) (f : Frame) : Frame :=
  { f with vars := f.vars.map fun v => if v.name == name then { v with value := o } else v }

lemma outline_setIn (f : Frame) : (setIn name o f).outline = f.outline := by
  unfold Frame.outline setIn
  rw [List.map_map]
  apply List.map_congr_left
  intro v _
  simp only [Function.comp_apply]
  split <;> rfl

lemma getVariable?_setIn_self {f : Frame} (h : f.getVariable? name = some v) :
    (setIn name o f).getVariable? name = some { v with value := o } := by
  unfold Frame.getVariable? setIn at *
  have hname : v.name = name := by simpa using List.find?_some h
  rw [List.find?_map]
  have hkeep : ((fun v : Variable => v.name == name) ∘ fun v : Variable =>
      if v.name == name then { v with value := o } else v) = fun v => v.name == name := by
    funext v
    simp only [Function.comp_apply]
    split <;> rfl
  rw [hkeep, h, Option.map_some, if_pos (by simpa using hname)]

lemma getVariable?_setIn_of_ne {f : Frame} {other : String} (h : other ≠ name) :
    (setIn name o f).getVariable? other = f.getVariable? other := by
  unfold Frame.getVariable? setIn
  rw [List.find?_map]
  have hkeep : ((fun v : Variable => v.name == other) ∘ fun v : Variable =>
      if v.name == name then { v with value := o } else v) = fun v => v.name == other := by
    funext v
    simp only [Function.comp_apply]
    split <;> rfl
  rw [hkeep]
  cases hf : f.vars.find? fun v => v.name == other with
  | none => rfl
  | some v =>
    have hname : v.name = other := by simpa using List.find?_some hf
    rw [Option.map_some, if_neg (by simpa [hname] using h)]

lemma frame_setVariable_of_ne (h : i ≠ ref.frame) : (s.setVariable ref o).frame i = s.frame i :=
  frame_modifyFrame_of_ne h

lemma frame_setVariable_self (h : ref.frame < s.frames.size) :
    (s.setVariable ref o).frame ref.frame = setIn ref.name o (s.frame ref.frame) :=
  frame_modifyFrame_self h

lemma lt_size_of_getVariable? (h : s.getVariable? ref = some v) : ref.frame < s.frames.size := by
  by_contra hout
  unfold getVariable? at h
  rw [frame_of_size_le (Nat.le_of_not_lt hout)] at h
  cases h

lemma grows_setVariable (h : s.getVariable? ref = some v) : Grows none s (s.setVariable ref o) where
  size := Nat.le_of_eq size_modifyFrame.symm
  functions i := by
    by_cases hi : i = ref.frame
    · rw [hi, frame_setVariable_self (lt_size_of_getVariable? h)]
      rfl
    · rw [frame_setVariable_of_ne hi]
  others i _ _ := by
    by_cases hi : i = ref.frame
    · rw [hi, frame_setVariable_self (lt_size_of_getVariable? h), outline_setIn]
    · rw [frame_setVariable_of_ne hi]
  outline i := by
    by_cases hi : i = ref.frame
    · rw [hi, frame_setVariable_self (lt_size_of_getVariable? h), outline_setIn]
    · rw [frame_setVariable_of_ne hi]

lemma getVariable?_setVariable_self (h : s.getVariable? ref = some v) :
    (s.setVariable ref o).getVariable? ref = some { v with value := o } := by
  unfold getVariable?
  rw [frame_setVariable_self (lt_size_of_getVariable? h)]
  exact getVariable?_setIn_self h

lemma getVariable?_setVariable_of_ne {other : VariableRef} (h : s.getVariable? ref = some v)
    (hne : other ≠ ref) : (s.setVariable ref o).getVariable? other = s.getVariable? other := by
  unfold getVariable?
  by_cases hi : other.frame = ref.frame
  · have hname : other.name ≠ ref.name := by
      intro hname
      apply hne
      cases other
      cases ref
      simp_all
    rw [hi, frame_setVariable_self (lt_size_of_getVariable? h), getVariable?_setIn_of_ne hname]
  · rw [frame_setVariable_of_ne hi]

/-! ### Adding functions -/

@[simp] lemma size_addFunction {g : Function} :
    (s.addFunction scope g).frames.size = s.frames.size :=
  size_modifyFrame

lemma frame_addFunction_of_ne {g : Function} (h : i ≠ scope.frame) :
    (s.addFunction scope g).frame i = s.frame i :=
  frame_modifyFrame_of_ne h

lemma functions_addFunction_self {g : Function} (h : scope.frame < s.frames.size) :
    ((s.addFunction scope g).frame scope.frame).functions
      = (s.frame scope.frame).functions ++ [g] := by
  unfold addFunction
  rw [frame_modifyFrame_self h]

/-- A function that is new to its frame is at its address from then on. -/
lemma getFunction?_addFunction_self {g : Function} (h : scope.frame < s.frames.size)
    (hnew : (s.frame scope.frame).getFunction? g.name g.arity = none) :
    (s.addFunction scope g).getFunction? ⟨scope.frame, g.name, g.arity⟩ = some g := by
  unfold Frame.getFunction? at hnew
  rw [getFunction?, Frame.getFunction?, functions_addFunction_self h, List.find?_append, hnew]
  simp

lemma functions_addFunction_prefix {g : Function} (h : scope.frame < s.frames.size) :
    (s.frame i).functions <+: ((s.addFunction scope g).frame i).functions := by
  by_cases hi : i = scope.frame
  · rw [hi, functions_addFunction_self h]
    exact List.prefix_append _ _
  · rw [frame_addFunction_of_ne hi]

lemma vars_addFunction {g : Function} :
    ((s.addFunction scope g).frame i).vars = (s.frame i).vars := by
  by_cases hi : i = scope.frame
  · by_cases hsize : scope.frame < s.frames.size
    · unfold addFunction
      rw [hi, frame_modifyFrame_self hsize]
    · have hout : (s.addFunction scope g).frames.size ≤ i := by
        rw [size_addFunction, hi]
        exact Nat.le_of_not_lt hsize
      rw [frame_of_size_le hout, hi, frame_of_size_le (Nat.le_of_not_lt hsize)]
  · rw [frame_addFunction_of_ne hi]

lemma findVariable?_addFunction {inner : Scope} {g : Function} :
    (s.addFunction inner g).findVariable? scope name = s.findVariable? scope name := by
  unfold findVariable? Frame.getVariable?
  simp only [vars_addFunction]

/-! ### Looking up -/

lemma findVariable?_of_lookup (h : s.lookupVariable scope name = .ok (ref, v)) :
    s.findVariable? scope name = some (ref, v) := by
  unfold lookupVariable at h
  split at h
  · rename_i hf
    cases h
    exact hf
  · cases h

lemma lookupVariable_of_find (h : s.findVariable? scope name = some (ref, v)) :
    s.lookupVariable scope name = .ok (ref, v) := by
  unfold lookupVariable
  rw [h]

/-- What is found is at its address. -/
lemma getVariable?_of_findVariable? (h : s.findVariable? scope name = some (ref, v)) :
    s.getVariable? ref = some v ∧ ref.name = name := by
  unfold findVariable? at h
  obtain ⟨i, _, hi⟩ := List.exists_of_findSome?_eq_some h
  rw [Option.map_eq_some_iff] at hi
  obtain ⟨w, hw, heq⟩ := hi
  cases heq
  exact ⟨hw, rfl⟩

/-- What a scope finds depends only on the outlines of its frames. -/
lemma findVariable?_of_outline (h : ∀ i ∈ scope.chain, (t.frame i).outline = (s.frame i).outline)
    (hv : s.findVariable? scope name = some (ref, v)) :
    ∃ w, t.findVariable? scope name = some (ref, w) ∧ w.Like v := by
  unfold findVariable? at hv ⊢
  generalize scope.chain = is at h hv ⊢
  induction is with
  | nil => cases hv
  | cons i is ih =>
    have hi := h i (List.mem_cons_self ..)
    rw [List.findSome?_cons] at hv ⊢
    cases hs : (s.frame i).getVariable? name with
    | some w =>
      rw [hs] at hv
      cases hv
      have hprefix : (s.frame i).outline <+: (t.frame i).outline := by
        rw [hi]
      obtain ⟨w', hw', hlike⟩ := Frame.getVariable?_of_prefix hprefix hs
      exact ⟨w', by rw [hw']; rfl, hlike⟩
    | none =>
      have ht : (t.frame i).getVariable? name = none := by
        have hfind := Frame.find?_outline (t.frame i) name
        rw [hi, Frame.find?_outline, hs] at hfind
        exact Option.map_eq_none_iff.1 hfind.symm
      rw [hs] at hv
      rw [ht]
      exact ih (fun j hj => h j (List.mem_cons_of_mem _ hj)) hv

/-- A scope keeps finding what it finds while other frames grow. -/
lemma Grows.findVariable? (h : Grows own s t) (hsize : ∀ i ∈ scope.chain, i < s.frames.size)
    (hown : ∀ i ∈ scope.chain, own ≠ some i) (hv : s.findVariable? scope name = some (ref, v)) :
    ∃ w, t.findVariable? scope name = some (ref, w) ∧ w.Like v :=
  findVariable?_of_outline (fun i hi => h.others i (hsize i hi) (hown i hi)) hv

/-- A scope finds nothing new while other frames grow. -/
lemma Grows.of_findVariable? (h : Grows own s t) (hsize : ∀ i ∈ scope.chain, i < s.frames.size)
    (hown : ∀ i ∈ scope.chain, own ≠ some i) (hv : t.findVariable? scope name = some (ref, v)) :
    ∃ w, s.findVariable? scope name = some (ref, w) ∧ w.Like v :=
  findVariable?_of_outline (fun i hi => (h.others i (hsize i hi) (hown i hi)).symm) hv

/-- A new scope finds what the scope around it does. -/
lemma findVariable?_enter :
    (s.enter (some scope)).2.findVariable? (s.enter (some scope)).1 name
      = s.findVariable? scope name := by
  have hempty : ((s.enter (some scope)).2.frame s.frames.size).getVariable? name = none := by
    rw [frame_enter, frame_of_size_le (Nat.le_refl _)]
    rfl
  change List.findSome? _ (s.frames.size :: scope.chain) = _
  rw [List.findSome?_cons, hempty]
  simp only [frame_enter, Option.map_none]
  rfl

lemma findVariable?_addVariable_of_ne {inner : Scope} (h : name ≠ v.name) :
    (s.addVariable inner v).findVariable? scope name = s.findVariable? scope name := by
  unfold findVariable?
  simp only [getVariable?_addVariable_of_ne h]

lemma findVariable?_addVariable_self (h : scope.frame < s.frames.size)
    (hnew : (s.frame scope.frame).getVariable? v.name = none) :
    (s.addVariable scope v).findVariable? scope v.name = some (⟨scope.frame, v.name⟩, v) := by
  unfold findVariable? Scope.chain
  rw [List.findSome?_cons, getVariable?_addVariable_self h hnew]
  rfl

lemma findFunction?_of_lookup {arity : Nat} {fref : FunctionRef} {g : Function}
    (h : s.lookupFunction scope name arity = .ok (fref, g)) :
    s.findFunction? scope name arity = some (fref, g) := by
  unfold lookupFunction at h
  split at h
  · rename_i hf
    cases h
    exact hf
  · cases h

/-- A variable that is found among members is at its address. -/
lemma getVariable?_of_lookupField {members : Option Scope}
    (h : s.lookupField members name = .ok (ref, v)) : s.getVariable? ref = some v := by
  cases members with
  | none => cases h
  | some scope => exact (getVariable?_of_findVariable? (findVariable?_of_lookup h)).1

/-- A function that is found is at its address and has the arity. -/
lemma getFunction?_of_findFunction? {arity : Nat} {fref : FunctionRef} {g : Function}
    (h : s.findFunction? scope name arity = some (fref, g)) :
    s.getFunction? fref = some g ∧ g.arity = arity := by
  unfold findFunction? at h
  obtain ⟨i, _, hi⟩ := List.exists_of_findSome?_eq_some h
  rw [Option.map_eq_some_iff] at hi
  obtain ⟨g', hg, heq⟩ := hi
  cases heq
  refine ⟨hg, ?_⟩
  have hkey := List.find?_some hg
  simp only [Bool.and_eq_true, beq_iff_eq] at hkey
  exact hkey.2

/-- So is one that is found among members. -/
lemma getFunction?_of_lookupMethod {members : Option Scope} {arity : Nat} {fref : FunctionRef}
    {g : Function} (h : s.lookupMethod members name arity = .ok (fref, g)) :
    s.getFunction? fref = some g ∧ g.arity = arity := by
  cases members with
  | none => cases h
  | some scope => exact getFunction?_of_findFunction? (findFunction?_of_lookup h)

/-- Where only the outermost frame has functions, a scope finds what that frame has. -/
lemma findFunction?_eq (h : ∀ i, i ≠ 0 → (s.frame i).functions = []) (scope : Scope)
    (name : String) (arity : Nat) :
    (s.findFunction? scope name arity).map Prod.snd
      = if 0 ∈ scope.chain then (s.frame 0).getFunction? name arity else none := by
  unfold findFunction?
  induction scope.chain with
  | nil => rfl
  | cons i is ih =>
    rw [List.findSome?_cons]
    by_cases hi : i = 0
    · subst hi
      rw [if_pos (List.mem_cons_self ..)]
      cases hg : (s.frame 0).getFunction? name arity with
      | some g => rfl
      | none =>
        simp only [Option.map_none]
        rw [ih, hg, ite_self]
    · have hnone : (s.frame i).getFunction? name arity = none := by
        unfold Frame.getFunction?
        rw [h i hi]
        rfl
      rw [hnone]
      simp only [Option.map_none]
      rw [ih]
      simp only [List.mem_cons, Ne.symm hi, false_or]

end Store

end LetDef
