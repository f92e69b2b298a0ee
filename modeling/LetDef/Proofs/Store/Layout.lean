import LetDef.Proofs.Store.Growth
import LetDef.Proofs.Store.Keys
import Mathlib.Data.List.Forall2

/-!
# Stores that lie in one another

Two runs that do the same may enter different numbers of scopes, so their frames have different
addresses. A `Layout` says where the frames of one store lie in another, and which further frames of
that other one stay empty. Scopes correspond if their chains do but for empty frames: a name means
the same in both, and where it means nothing the same names are suggested. What one run finds or
changes the other finds or changes in the image, and the layout grows with the stores.
-/

namespace LetDef

/-! ### Addresses in range -/

/-- All frames of the scope are below the address. -/
def Scope.Within (base : Nat) (scope : Scope) : Prop :=
  ∀ i ∈ scope.chain, i < base

/-- The members of the object, if it has any, are below the address. -/
def Object.Within (base : Nat) (o : Object) : Prop :=
  ∀ scope ∈ o.members, scope.Within base

/-- The members of the type, if it has any, are below the address. -/
def Ty.Within (base : Nat) (t : Ty) : Prop :=
  ∀ scope ∈ t.members?, scope.Within base

/-- What the variable refers to is below the address. -/
structure Variable.Within (base : Nat) (v : Variable) : Prop where
  type : v.type.Within base
  value : v.value.Within base

/-- What the function refers to is below the address. -/
structure Function.Within (base : Nat) (g : Function) : Prop where
  parameters : ∀ t ∈ g.parameters, t.Within base
  returns : g.returns.Within base
  home {m : Method} {home : Scope} : g.body = .method m home → home.Within base

/-- All that the store refers to is below the address. -/
structure Store.Within (base : Nat) (s : Store) : Prop where
  vars (i : FrameId) : ∀ v ∈ (s.frame i).vars, v.Within base
  functions (i : FrameId) : ∀ g ∈ (s.frame i).functions, g.Within base

lemma Object.within_of {base : Nat} (v : Value) : (Object.of v).Within base :=
  nofun

/-- A type without members. -/
lemma Ty.within_of_plain {base : Nat} {t : Ty} (h : t.members? = none) : t.Within base := by
  intro scope hscope
  rw [h] at hscope
  cases hscope

lemma Function.within_of_native {base : Nat} {g : Function} {n : Native}
    (hbody : g.body = .native n) (hparameters : ∀ t ∈ g.parameters, t.Within base)
    (hreturns : g.returns.Within base) : g.Within base :=
  ⟨hparameters, hreturns, fun h => by simp [hbody] at h⟩

lemma Ty.within_any {base : Nat} : Ty.any.Within base :=
  within_of_plain rfl

/-! ### Layouts -/

/-- Where the frames of one store lie in another, and the frames of the other that stay empty. -/
structure Layout where
  images : List FrameId
  spare : List FrameId := []

namespace Layout

variable {φ ψ χ : Layout} {i i' j : FrameId} {c c' : List FrameId} {scope scope' : Scope}

/-- The second frame is the image of the first. -/
def Maps (φ : Layout) (i i' : FrameId) : Prop :=
  φ.images[i]? = some i'

/-- The second layout continues the first. -/
structure Le (φ ψ : Layout) : Prop where
  images : φ.images <+: ψ.images
  spare : φ.spare ⊆ ψ.spare

lemma Le.refl (φ : Layout) : φ.Le φ :=
  ⟨List.prefix_rfl, List.Subset.refl _⟩

lemma Le.trans (h : φ.Le ψ) (h' : ψ.Le χ) : φ.Le χ :=
  ⟨h.images.trans h'.images, List.Subset.trans h.spare h'.spare⟩

lemma Maps.mono (hm : φ.Maps i i') (h : φ.Le ψ) : ψ.Maps i i' := by
  obtain ⟨rest, hrest⟩ := h.images
  unfold Maps at hm ⊢
  rw [← hrest, List.getElem?_append_left (List.getElem?_eq_some_iff.1 hm).1, hm]

lemma Maps.mem (hm : φ.Maps i i') : i' ∈ φ.images :=
  List.mem_of_getElem? hm

/-- The second chain is the image of the first but for empty frames. -/
inductive Chains (φ : Layout) : List FrameId → List FrameId → Prop
  | nil : Chains φ [] []
  | cons {i i' : FrameId} {c c' : List FrameId} (hm : φ.Maps i i') (hc : Chains φ c c') :
      Chains φ (i :: c) (i' :: c')
  | skip {j : FrameId} {c c' : List FrameId} (hj : j ∈ φ.spare) (hc : Chains φ c c') :
      Chains φ c (j :: c')

lemma Chains.mono (hc : φ.Chains c c') (h : φ.Le ψ) : ψ.Chains c c' := by
  induction hc with
  | nil => exact .nil
  | cons hm _ ih => exact .cons (hm.mono h) ih
  | skip hj _ ih => exact .skip (h.spare hj) ih

/-- Names mean the same in both scopes. -/
def Sees (φ : Layout) (scope scope' : Scope) : Prop :=
  φ.Chains scope.chain scope'.chain

/-- The scopes correspond, and so do the frames in which they define names. -/
structure Owns (φ : Layout) (scope scope' : Scope) : Prop where
  frame : φ.Maps scope.frame scope'.frame
  outer : φ.Chains scope.outer scope'.outer

lemma Owns.sees (h : φ.Owns scope scope') : φ.Sees scope scope' :=
  .cons h.frame h.outer

lemma Sees.mono (hs : φ.Sees scope scope') (h : φ.Le ψ) : ψ.Sees scope scope' :=
  Chains.mono hs h

lemma Owns.mono (ho : φ.Owns scope scope') (h : φ.Le ψ) : ψ.Owns scope scope' :=
  ⟨ho.frame.mono h, ho.outer.mono h⟩

/-- The layout with one more image. -/
def push (φ : Layout) (i' : FrameId) : Layout :=
  { φ with images := φ.images ++ [i'] }

/-- The layout with one more frame that stays empty. -/
def pushSpare (φ : Layout) (j : FrameId) : Layout :=
  { φ with spare := j :: φ.spare }

lemma le_push (φ : Layout) (i' : FrameId) : φ.Le (φ.push i') :=
  ⟨List.prefix_append _ _, List.Subset.refl _⟩

lemma le_pushSpare (φ : Layout) (j : FrameId) : φ.Le (φ.pushSpare j) :=
  ⟨List.prefix_rfl, List.subset_cons_self _ _⟩

/-- Every frame lies where it is. -/
def identity (n : Nat) : Layout where
  images := List.range n

lemma maps_identity {n : Nat} (h : i < n) : (identity n).Maps i i := by
  unfold Maps identity
  rw [List.getElem?_range h]

lemma eq_of_maps_identity {n : Nat} (h : (identity n).Maps i i') : i' = i := by
  unfold Maps identity at h
  obtain ⟨hlt, heq⟩ := List.getElem?_eq_some_iff.1 h
  rw [List.getElem_range] at heq
  exact heq.symm

/-! ### Related stores -/

/-- The second store has the variables of the first in the images of its frames, and functions in
the relation `G`. Frames below `base` lie where they are. -/
structure Relates (G : Function → Function → Prop) (base : Nat) (φ : Layout) (s t : Store) :
    Prop where
  size : φ.images.length = s.frames.size
  nodup : φ.images.Nodup
  image_lt {i' : FrameId} : i' ∈ φ.images → i' < t.frames.size
  spare_lt {j : FrameId} : j ∈ φ.spare → j < t.frames.size
  apart {j : FrameId} : j ∈ φ.spare → j ∉ φ.images
  fixed {i : FrameId} : i < base → φ.Maps i i
  vars {i i' : FrameId} : φ.Maps i i' → (t.frame i').vars = (s.frame i).vars
  within {i : FrameId} {v : Variable} : v ∈ (s.frame i).vars → v.Within base
  functions {i i' : FrameId} : φ.Maps i i' →
    List.Forall₂ G (s.frame i).functions (t.frame i').functions
  empty {j : FrameId} : j ∈ φ.spare → t.frame j = {}

/-- A variable is found in corresponding frames. -/
structure Finds (base : Nat) (φ : Layout) (found found' : VariableRef × Variable) : Prop where
  frame : φ.Maps found.1.frame found'.1.frame
  name : found'.1.name = found.1.name
  eq : found'.2 = found.2
  within : found.2.Within base

lemma Finds.mono {base : Nat} {found found' : VariableRef × Variable}
    (h : Finds base φ found found') (hle : φ.Le ψ) : Finds base ψ found found' :=
  ⟨h.frame.mono hle, h.name, h.eq, h.within⟩

/-- Two look-ups of a variable find it in corresponding frames or fail alike. -/
inductive Variables (base : Nat) (φ : Layout) :
    Except NameError (VariableRef × Variable) → Except NameError (VariableRef × Variable) → Prop
  | found {found found' : VariableRef × Variable} (h : Finds base φ found found') :
      Variables base φ (.ok found) (.ok found')
  | missing (e : NameError) : Variables base φ (.error e) (.error e)

/-- Two look-ups of a function find related ones or fail alike. -/
inductive Functions (G : Function → Function → Prop) :
    Except NameError (FunctionRef × Function) → Except NameError (FunctionRef × Function) → Prop
  | found {ref ref' : FunctionRef} {g g' : Function} (hg : G g g') :
      Functions G (.ok (ref, g)) (.ok (ref', g'))
  | missing (e : NameError) : Functions G (.error e) (.error e)

namespace Relates

variable {G : Function → Function → Prop} {base : Nat} {s t : Store} {name : String} {arity : Nat}
  (h : Relates G base φ s t)

include h

lemma lt (hm : φ.Maps i i') : i < s.frames.size := by
  rw [← h.size]
  exact (List.getElem?_eq_some_iff.1 hm).1

/-- Frames below the base are the same in both stores. -/
lemma chains_of_within (hw : ∀ i ∈ c, i < base) : φ.Chains c c := by
  induction c with
  | nil => exact .nil
  | cons i c ih =>
    rw [List.forall_mem_cons] at hw
    exact .cons (h.fixed hw.1) (ih hw.2)

lemma owns_of_within (hw : scope.Within base) : φ.Owns scope scope where
  frame := h.fixed (hw _ (List.mem_cons_self ..))
  outer := h.chains_of_within fun i hi => hw i (List.mem_cons_of_mem _ hi)

/-- A scope below the base is the same in both stores. -/
lemma sees_of_within (hw : scope.Within base) : φ.Sees scope scope :=
  (h.owns_of_within hw).sees

/-! ### Looking up -/

lemma findVariable (hs : φ.Sees scope scope') (name : String) :
    (s.findVariable? scope name = none ∧ t.findVariable? scope' name = none) ∨
      ∃ i i' v, φ.Maps i i' ∧ v.Within base ∧
        s.findVariable? scope name = some (⟨i, name⟩, v) ∧
        t.findVariable? scope' name = some (⟨i', name⟩, v) := by
  unfold Sees at hs
  unfold Store.findVariable?
  generalize scope.chain = c at hs ⊢
  generalize scope'.chain = c' at hs ⊢
  induction hs with
  | nil => exact .inl ⟨rfl, rfl⟩
  | @cons i i' c c' hm _ ih =>
    rw [List.findSome?_cons, List.findSome?_cons, Frame.getVariable?, Frame.getVariable?,
      h.vars hm]
    cases hv : (s.frame i).vars.find? fun v => v.name == name with
    | none => exact ih
    | some v => exact .inr ⟨i, i', v, hm, h.within (List.mem_of_find?_eq_some hv), rfl, rfl⟩
  | skip hj _ ih =>
    rw [List.findSome?_cons, h.empty hj]
    exact ih

lemma variableNames (hs : φ.Sees scope scope') :
    t.variableNames scope' = s.variableNames scope := by
  unfold Sees at hs
  unfold Store.variableNames
  generalize scope.chain = c at hs ⊢
  generalize scope'.chain = c' at hs ⊢
  induction hs with
  | nil => rfl
  | cons hm _ ih => rw [List.flatMap_cons, List.flatMap_cons, h.vars hm, ih]
  | skip hj _ ih =>
    rw [List.flatMap_cons, h.empty hj, ih]
    rfl

/-- A variable is found in corresponding frames. -/
lemma lookupVariable (hs : φ.Sees scope scope') :
    Variables base φ (s.lookupVariable scope name) (t.lookupVariable scope' name) := by
  unfold Store.lookupVariable
  rcases h.findVariable hs name with ⟨hnone, hnone'⟩ | ⟨i, i', v, hm, hv, hsome, hsome'⟩
  · rw [hnone, hnone', h.variableNames hs]
    exact .missing _
  · rw [hsome, hsome']
    exact .found ⟨hm, rfl, rfl, hv⟩

lemma lookupField {members : Option Scope} (hw : ∀ scope ∈ members, scope.Within base) :
    Variables base φ (s.lookupField members name) (t.lookupField members name) := by
  cases members with
  | none => exact .missing _
  | some scope => exact h.lookupVariable (h.sees_of_within (hw scope rfl))

lemma variableConflict? (ho : φ.Owns scope scope') :
    t.variableConflict? scope' name = s.variableConflict? scope name := by
  unfold Store.variableConflict? Frame.getVariable?
  rw [h.vars ho.frame]

section

variable (hG : ∀ {g g'}, G g g' → g'.key = g.key)

include hG

omit h in
/-- Of two lists of related functions, the first ones of a key are related. -/
lemma find?_functions {gs gs' : List Function} (hgs : List.Forall₂ G gs gs') :
    Option.Rel G (gs.find? fun g => g.name == name && g.arity == arity)
      (gs'.find? fun g => g.name == name && g.arity == arity) := by
  induction hgs with
  | nil => exact .none
  | @cons g g' gs gs' hg _ ih =>
    have hkey := hG hg
    simp only [Function.key, Prod.mk.injEq] at hkey
    rw [List.find?_cons, List.find?_cons, hkey.1, hkey.2]
    cases g.name == name && g.arity == arity with
    | true => exact .some hg
    | false => exact ih

lemma getFunction (hm : φ.Maps i i') (name : String) (arity : Nat) :
    Option.Rel G ((s.frame i).getFunction? name arity) ((t.frame i').getFunction? name arity) :=
  find?_functions hG (h.functions hm)

lemma findFunction (hs : φ.Sees scope scope') (name : String) (arity : Nat) :
    Option.Rel (fun found found' => G found.2 found'.2) (s.findFunction? scope name arity)
      (t.findFunction? scope' name arity) := by
  unfold Sees at hs
  unfold Store.findFunction?
  generalize scope.chain = c at hs ⊢
  generalize scope'.chain = c' at hs ⊢
  induction hs with
  | nil => exact .none
  | @cons i i' c c' hm _ ih =>
    have hget := h.getFunction hG hm name arity
    rw [List.findSome?_cons, List.findSome?_cons]
    generalize (s.frame i).getFunction? name arity = r at hget ⊢
    generalize (t.frame i').getFunction? name arity = r' at hget ⊢
    cases hget with
    | none => exact ih
    | some hg => exact .some hg
  | skip hj _ ih =>
    rw [List.findSome?_cons, h.empty hj]
    exact ih

omit h in
lemma map_names {gs gs' : List Function} (hgs : List.Forall₂ G gs gs') :
    gs'.map (fun g => g.name ++ "/" ++ toString g.arity)
      = gs.map fun g => g.name ++ "/" ++ toString g.arity := by
  induction hgs with
  | nil => rfl
  | cons hg _ ih =>
    have hkey := hG hg
    simp only [Function.key, Prod.mk.injEq] at hkey
    rw [List.map_cons, List.map_cons, hkey.1, hkey.2, ih]

lemma functionNames (hs : φ.Sees scope scope') :
    t.functionNames scope' = s.functionNames scope := by
  unfold Sees at hs
  unfold Store.functionNames
  generalize scope.chain = c at hs ⊢
  generalize scope'.chain = c' at hs ⊢
  induction hs with
  | nil => rfl
  | cons hm _ ih => rw [List.flatMap_cons, List.flatMap_cons, map_names hG (h.functions hm), ih]
  | skip hj _ ih =>
    rw [List.flatMap_cons, h.empty hj, ih]
    rfl

/-- Related functions are found, by name and arity. -/
lemma lookupFunction (hs : φ.Sees scope scope') :
    Functions G (s.lookupFunction scope name arity) (t.lookupFunction scope' name arity) := by
  have hfind := h.findFunction hG hs name arity
  unfold Store.lookupFunction
  rw [h.functionNames hG hs]
  generalize s.findFunction? scope name arity = r at hfind ⊢
  generalize t.findFunction? scope' name arity = r' at hfind ⊢
  cases hfind with
  | none => exact .missing _
  | some hg => exact .found hg

lemma lookupMethod {members : Option Scope} (hw : ∀ scope ∈ members, scope.Within base) :
    Functions G (s.lookupMethod members name arity) (t.lookupMethod members name arity) := by
  cases members with
  | none => exact .missing _
  | some scope => exact h.lookupFunction hG (h.sees_of_within (hw scope rfl))

lemma functionConflict? (ho : φ.Owns scope scope') :
    t.functionConflict? scope' name arity = s.functionConflict? scope name arity := by
  have hget := h.getFunction hG ho.frame name arity
  unfold Store.functionConflict?
  generalize (s.frame scope.frame).getFunction? name arity = r at hget ⊢
  generalize (t.frame scope'.frame).getFunction? name arity = r' at hget ⊢
  cases hget <;> rfl

end

/-! ### Changing -/

/-- Images of different frames are different. -/
lemma eq_of_maps (hm : φ.Maps i i') (hm' : φ.Maps j i') : i = j :=
  (List.getElem?_inj (List.getElem?_eq_some_iff.1 hm).1 h.nodup).1 (hm.trans hm'.symm)

/-- A change of the frames of corresponding addresses. -/
lemma modify (hm : φ.Maps i i') {f f' : Frame → Frame}
    (hvars : (f' (t.frame i')).vars = (f (s.frame i)).vars)
    (hwithin : ∀ v ∈ (f (s.frame i)).vars, v.Within base)
    (hfunctions : List.Forall₂ G (f (s.frame i)).functions (f' (t.frame i')).functions) :
    Relates G base φ (s.modifyFrame i f) (t.modifyFrame i' f') := by
  have hself : (s.modifyFrame i f).frame i = f (s.frame i) :=
    Store.frame_modifyFrame_self (h.lt hm)
  have hself' : (t.modifyFrame i' f').frame i' = f' (t.frame i') :=
    Store.frame_modifyFrame_self (h.image_lt hm.mem)
  -- A frame is the changed one just if its image is.
  have hcases {k k' : FrameId} (hk : φ.Maps k k') : k = i ∧ k' = i' ∨ k ≠ i ∧ k' ≠ i' := by
    by_cases hki : k = i
    · subst hki
      exact .inl ⟨rfl, Option.some.inj (hk.symm.trans hm)⟩
    · refine .inr ⟨hki, ?_⟩
      rintro rfl
      exact hki (h.eq_of_maps hk hm)
  refine {
    size := by rw [Store.size_modifyFrame, h.size]
    nodup := h.nodup
    image_lt := fun hi => by
      rw [Store.size_modifyFrame]
      exact h.image_lt hi
    spare_lt := fun hj => by
      rw [Store.size_modifyFrame]
      exact h.spare_lt hj
    apart := h.apart
    fixed := h.fixed
    vars := fun {k k'} hk => ?_
    within := fun {k v} hv => ?_
    functions := fun {k k'} hk => ?_
    empty := fun {j} hj => ?_ }
  · rcases hcases hk with ⟨rfl, rfl⟩ | ⟨hne, hne'⟩
    · rw [hself, hself', hvars]
    · rw [Store.frame_modifyFrame_of_ne hne, Store.frame_modifyFrame_of_ne hne', h.vars hk]
  · by_cases hki : k = i
    · subst hki
      rw [hself] at hv
      exact hwithin v hv
    · rw [Store.frame_modifyFrame_of_ne hki] at hv
      exact h.within hv
  · rcases hcases hk with ⟨rfl, rfl⟩ | ⟨hne, hne'⟩
    · rw [hself, hself']
      exact hfunctions
    · rw [Store.frame_modifyFrame_of_ne hne, Store.frame_modifyFrame_of_ne hne']
      exact h.functions hk
  · have hne : j ≠ i' := by
      rintro rfl
      exact h.apart hj hm.mem
    rw [Store.frame_modifyFrame_of_ne hne, h.empty hj]

lemma addVariable (ho : φ.Owns scope scope') {v : Variable} (hv : v.Within base) :
    Relates G base φ (s.addVariable scope v) (t.addVariable scope' v) := by
  refine h.modify ho.frame (by rw [h.vars ho.frame]) (fun w hw => ?_) (h.functions ho.frame)
  rcases List.mem_append.1 hw with hw | hw
  · exact h.within hw
  · rw [List.mem_singleton.1 hw]
    exact hv

lemma setVariable {found found' : VariableRef × Variable} (hfound : Finds base φ found found')
    {o : Object} (ho : o.Within base) :
    Relates G base φ (s.setVariable found.1 o) (t.setVariable found'.1 o) := by
  refine h.modify hfound.frame (by rw [h.vars hfound.frame, hfound.name]) (fun w hw => ?_)
    (h.functions hfound.frame)
  obtain ⟨v, hv, rfl⟩ := List.mem_map.1 hw
  split
  · exact ⟨(h.within hv).type, ho⟩
  · exact h.within hv

lemma addFunction (ho : φ.Owns scope scope') {g g' : Function} (hg : G g g') :
    Relates G base φ (s.addFunction scope g) (t.addFunction scope' g') := by
  refine h.modify ho.frame (h.vars ho.frame) (fun v hv => h.within hv) ?_
  exact List.rel_append (h.functions ho.frame) (.cons hg .nil)

/-! ### Entering -/

/-- A frame is as before when both stores enter a scope, or it is the new one. -/
lemma maps_push (hm : (φ.push t.frames.size).Maps i i') :
    φ.Maps i i' ∨ i = s.frames.size ∧ i' = t.frames.size := by
  unfold Maps push at hm
  rcases Nat.lt_or_ge i φ.images.length with hlt | hge
  · rw [List.getElem?_append_left hlt] at hm
    exact .inl hm
  · rw [List.getElem?_append_right hge] at hm
    obtain ⟨hlt, heq⟩ := List.getElem?_eq_some_iff.1 hm
    have hzero : i - φ.images.length = 0 := Nat.lt_one_iff.1 hlt
    rw [← h.size]
    refine .inr ⟨Nat.le_antisymm (Nat.sub_eq_zero_iff_le.1 hzero) hge, ?_⟩
    simpa [hzero] using heq.symm

/-- Both stores enter a scope. -/
lemma enter (hs : φ.Sees scope scope') :
    Relates G base (φ.push t.frames.size) (s.enter (some scope)).2 (t.enter (some scope')).2 ∧
      (φ.push t.frames.size).Owns (s.enter (some scope)).1 (t.enter (some scope')).1 := by
  have hle := φ.le_push t.frames.size
  -- The new frames are the last of their stores, so they are paired with each other and with no
  -- other frame.
  have hfresh : t.frames.size ∉ φ.images := fun hmem => Nat.lt_irrefl _ (h.image_lt hmem)
  have hlast : (φ.push t.frames.size).Maps s.frames.size t.frames.size := by
    unfold Maps push
    rw [← h.size, List.getElem?_append_right (Nat.le_refl _), Nat.sub_self]
    rfl
  have hnew : s.frame s.frames.size = {} := Store.frame_of_size_le (Nat.le_refl _)
  have hnew' : t.frame t.frames.size = {} := Store.frame_of_size_le (Nat.le_refl _)
  refine ⟨{
    size := ?_
    nodup := h.nodup.append (List.nodup_singleton _) (List.disjoint_singleton.2 hfresh)
    image_lt := fun hi => ?_
    spare_lt := fun hj => ?_
    apart := fun hj hmem => ?_
    fixed := fun hi => (h.fixed hi).mono hle
    vars := fun {i i'} hm => ?_
    within := fun {i v} hv => ?_
    functions := fun {i i'} hm => ?_
    empty := fun hj => ?_ }, hlast, hs.mono hle⟩
  · rw [Store.size_enter, push, List.length_append, h.size]
    rfl
  · rw [Store.size_enter]
    rcases List.mem_append.1 hi with hi | hi
    · exact Nat.lt_succ_of_lt (h.image_lt hi)
    · rw [List.mem_singleton.1 hi]
      exact Nat.lt_succ_self _
  · rw [Store.size_enter]
    exact Nat.lt_succ_of_lt (h.spare_lt hj)
  · rcases List.mem_append.1 hmem with hmem | hmem
    · exact h.apart hj hmem
    · exact Nat.lt_irrefl _ (List.mem_singleton.1 hmem ▸ h.spare_lt hj)
  · rw [Store.frame_enter, Store.frame_enter]
    rcases h.maps_push hm with hm | ⟨rfl, rfl⟩
    · exact h.vars hm
    · rw [hnew, hnew']
  · rw [Store.frame_enter] at hv
    exact h.within hv
  · rw [Store.frame_enter, Store.frame_enter]
    rcases h.maps_push hm with hm | ⟨rfl, rfl⟩
    · exact h.functions hm
    · rw [hnew, hnew']
      exact .nil
  · rw [Store.frame_enter]
    exact h.empty hj

/-- Only the second store enters a scope, which stays empty. -/
lemma enterSpare (hs : φ.Sees scope scope') :
    Relates G base (φ.pushSpare t.frames.size) s (t.enter (some scope')).2 ∧
      (φ.pushSpare t.frames.size).Sees scope (t.enter (some scope')).1 := by
  have hle := φ.le_pushSpare t.frames.size
  -- The new frame belongs to no pair, and the second chain passes it by.
  refine ⟨{
    size := h.size
    nodup := h.nodup
    image_lt := fun hi => ?_
    spare_lt := fun hj => ?_
    apart := fun hj hmem => ?_
    fixed := h.fixed
    vars := fun {i i'} hm => ?_
    within := h.within
    functions := fun {i i'} hm => ?_
    empty := fun hj => ?_ }, .skip (List.mem_cons_self ..) (hs.mono hle)⟩
  · rw [Store.size_enter]
    exact Nat.lt_succ_of_lt (h.image_lt hi)
  · rw [Store.size_enter]
    rcases List.mem_cons.1 hj with rfl | hj
    · exact Nat.lt_succ_self _
    · exact Nat.lt_succ_of_lt (h.spare_lt hj)
  · rcases List.mem_cons.1 hj with rfl | hj
    · exact Nat.lt_irrefl _ (h.image_lt hmem)
    · exact h.apart hj hmem
  · rw [Store.frame_enter]
    exact h.vars hm
  · rw [Store.frame_enter]
    exact h.functions hm
  · rw [Store.frame_enter]
    rcases List.mem_cons.1 hj with rfl | hj
    · exact Store.frame_of_size_le (Nat.le_refl _)
    · exact h.empty hj

/-- The second store may get further frames that are nowhere in the layout. -/
lemma of_kept {u : Store} (hsize : t.frames.size ≤ u.frames.size)
    (hkept : ∀ i < t.frames.size, u.frame i = t.frame i) : Relates G base φ s u where
  size := h.size
  nodup := h.nodup
  image_lt hi := Nat.lt_of_lt_of_le (h.image_lt hi) hsize
  spare_lt hj := Nat.lt_of_lt_of_le (h.spare_lt hj) hsize
  apart := h.apart
  fixed := h.fixed
  vars hm := by
    rw [hkept _ (h.image_lt hm.mem)]
    exact h.vars hm
  within := h.within
  functions hm := by
    rw [hkept _ (h.image_lt hm.mem)]
    exact h.functions hm
  empty hj := by
    rw [hkept _ (h.spare_lt hj)]
    exact h.empty hj

end Relates

/-- A store is related to itself. -/
lemma relates_identity {G : Function → Function → Prop} {s : Store}
    (hs : s.Within s.frames.size)
    (hG : ∀ i, ∀ g ∈ (s.frame i).functions, G g g) :
    Relates G s.frames.size (identity s.frames.size) s s where
  size := List.length_range
  nodup := List.nodup_range
  image_lt hi := List.mem_range.1 hi
  spare_lt hj := by cases hj
  apart hj := by cases hj
  fixed hi := maps_identity hi
  vars hm := by rw [eq_of_maps_identity hm]
  within hv := hs.vars _ _ hv
  functions hm := by
    rw [eq_of_maps_identity hm]
    exact List.forall₂_same.2 (hG _)
  empty hj := by cases hj

end Layout

end LetDef
