import LetDef.Proofs.Analysis.Typing
import LetDef.Proofs.Store.Growth

/-!
# Names inside a host

A name is looked up through a chain of frames: those of the blocks around it, the home frame of the
program, and the frames of the host that the program is put into. `Finds` says what the chain leads
to. A name that is bound leads to a variable that stands for what it is bound to, every other name
to what it means to the host, and functions are found at home or in the host. Both analysis and
execution keep such chains, so what keeps `Finds` is said once here.
-/

namespace LetDef

open Execution (Origin)

namespace Store

/-- The address of the nearest variable of a name in a chain of frames. -/
def variableRef? (s : Store) (chain : List FrameId) (name : String) : Option VariableRef :=
  chain.findSome? fun i => ((s.frame i).getVariable? name).map fun _ => ⟨i, name⟩

/-- The nearest function of a name and arity in a chain of frames, with its address. -/
def functionIn? (s : Store) (chain : List FrameId) (name : String) (arity : Nat) :
    Option (FunctionRef × Function) :=
  chain.findSome? fun i =>
    ((s.frame i).getFunction? name arity).map fun g => (⟨i, name, arity⟩, g)

variable {s t : Store} {own : Option FrameId} {chain : List FrameId} {scope : Scope}
  {name : String} {arity : Nat} {i : FrameId} {v : Variable} {ref : VariableRef}

/-! ### Variables -/

lemma variableRef?_cons (i : FrameId) (chain : List FrameId) :
    s.variableRef? (i :: chain) name =
      ((((s.frame i).getVariable? name).map fun _ => ⟨i, name⟩).or
        (s.variableRef? chain name)) := by
  unfold variableRef?
  rw [List.findSome?_cons]
  cases (s.frame i).getVariable? name <;> rfl

lemma variableRef?_of_find (h : s.findVariable? scope name = some (ref, v)) :
    s.variableRef? scope.chain name = some ref := by
  unfold findVariable? at h
  unfold variableRef?
  generalize scope.chain = chain at h ⊢
  induction chain with
  | nil => cases h
  | cons i chain ih =>
    rw [List.findSome?_cons] at h ⊢
    cases hv : (s.frame i).getVariable? name with
    | none =>
      rw [hv] at h
      exact ih h
    | some w =>
      rw [hv] at h
      cases h
      rfl

lemma mem_of_variableRef? (h : s.variableRef? chain name = some ref) : ref.frame ∈ chain := by
  unfold variableRef? at h
  obtain ⟨i, hi, hv⟩ := List.exists_of_findSome?_eq_some h
  rw [Option.map_eq_some_iff] at hv
  obtain ⟨_, _, rfl⟩ := hv
  exact hi

/-- Which variables a frame has depends on its outline. -/
lemma getVariable?_isSome_of_outline {f g : Frame} (h : f.outline = g.outline) :
    (f.getVariable? name).isSome = (g.getVariable? name).isSome := by
  have hf := congrArg Option.isSome (f.find?_outline name)
  have hg := congrArg Option.isSome (g.find?_outline name)
  rw [Option.isSome_map] at hf hg
  rw [← hf, ← hg, h]

lemma map_eq_of_isSome {α β γ : Type} {a : Option α} {b : Option β} (h : a.isSome = b.isSome)
    (c : γ) : a.map (fun _ => c) = b.map (fun _ => c) := by
  cases a <;> cases b <;> simp at h ⊢

/-- What a chain leads to depends on which variables its frames have. -/
lemma variableRef?_congr
    (h : ∀ i ∈ chain, ((t.frame i).getVariable? name).isSome =
      ((s.frame i).getVariable? name).isSome) :
    t.variableRef? chain name = s.variableRef? chain name := by
  induction chain with
  | nil => rfl
  | cons i chain ih =>
    rw [List.forall_mem_cons] at h
    rw [variableRef?_cons, variableRef?_cons, ih h.2, map_eq_of_isSome h.1]

lemma Grows.variableRef? (h : Grows own s t) (hsize : ∀ i ∈ chain, i < s.frames.size)
    (hown : ∀ i ∈ chain, own ≠ some i) : t.variableRef? chain name = s.variableRef? chain name :=
  variableRef?_congr fun i hi =>
    getVariable?_isSome_of_outline (h.others i (hsize i hi) (hown i hi))

/-! ### Functions -/

lemma functionIn?_cons (i : FrameId) (chain : List FrameId) :
    s.functionIn? (i :: chain) name arity =
      ((((s.frame i).getFunction? name arity).map fun g => (⟨i, name, arity⟩, g)).or
        (s.functionIn? chain name arity)) := by
  unfold functionIn?
  rw [List.findSome?_cons]
  cases (s.frame i).getFunction? name arity <;> rfl

lemma functionIn?_congr (h : ∀ i ∈ chain, (t.frame i).functions = (s.frame i).functions) :
    t.functionIn? chain name arity = s.functionIn? chain name arity := by
  induction chain with
  | nil => rfl
  | cons i chain ih =>
    rw [List.forall_mem_cons] at h
    rw [functionIn?_cons, functionIn?_cons, ih h.2, Frame.getFunction?, h.1]
    rfl

lemma Grows.functionIn? (h : Grows own s t) :
    t.functionIn? chain name arity = s.functionIn? chain name arity :=
  functionIn?_congr fun i _ => h.functions i

lemma mem_of_functionIn? {fref : FunctionRef} {g : Function}
    (h : s.functionIn? chain name arity = some (fref, g)) :
    fref.frame ∈ chain ∧ s.getFunction? fref = some g ∧ fref.name = name ∧ fref.arity = arity := by
  unfold functionIn? at h
  obtain ⟨i, hi, hg⟩ := List.exists_of_findSome?_eq_some h
  rw [Option.map_eq_some_iff] at hg
  obtain ⟨g', hg', heq⟩ := hg
  cases heq
  exact ⟨hi, hg', rfl, rfl⟩

end Store

/-! ### What names lead to -/

/-- The host's frames as they were, the chain through which a program sees them, and the home frame
of the program. -/
structure Base where
  store : Store
  host : List FrameId
  home : FrameId

/-- In a chain of frames a bound name leads to a variable that stands for its origin, another name
to what it means to the host, and functions are at home or in the host. -/
structure Finds (B : Base) (stands : Origin → VariableRef → Prop) (bs : List Binding)
    (chain : List FrameId) (s : Store) : Prop where
  size : ∀ i ∈ chain, i < s.frames.size
  bound : ∀ name origin, bs.lookup name = some origin →
    ∃ ref, s.variableRef? chain name = some ref ∧ stands origin ref
  free : ∀ name, bs.lookup name = none →
    s.variableRef? chain name = B.store.variableRef? B.host name
  functions : ∀ name arity,
    s.functionIn? chain name arity = s.functionIn? (B.home :: B.host) name arity

namespace Finds

variable {B : Base} {stands stands' : Origin → VariableRef → Prop} {bs : List Binding}
  {chain : List FrameId} {s t : Store} {own : Option FrameId} {scope : Scope} {v : Variable}
  {origin : Origin}

lemma mono (h : Finds B stands bs chain s)
    (himp : ∀ origin ref, stands origin ref → stands' origin ref) : Finds B stands' bs chain s where
  size := h.size
  bound name origin ho := by
    obtain ⟨ref, href, hs⟩ := h.bound name origin ho
    exact ⟨ref, href, himp origin ref hs⟩
  free := h.free
  functions := h.functions

/-- A chain leads where it led while other frames grow. -/
lemma grows (h : Finds B stands bs chain s) (hg : s.Grows own t)
    (hown : ∀ i ∈ chain, own ≠ some i) : Finds B stands bs chain t where
  size i hi := Nat.lt_of_lt_of_le (h.size i hi) hg.size
  bound name origin ho := by
    rw [hg.variableRef? h.size hown]
    exact h.bound name origin ho
  free name hnone := by
    rw [hg.variableRef? h.size hown]
    exact h.free name hnone
  functions name arity := by
    rw [hg.functionIn?, hg.functionIn?]
    exact h.functions name arity

/-- A new frame at the head of a chain hides nothing. -/
lemma enter (h : Finds B stands bs chain s) (parent : Option Scope) :
    Finds B stands bs (s.frames.size :: chain) (s.enter parent).2 := by
  have hempty : (s.enter parent).2.frame s.frames.size = {} := by
    rw [Store.frame_enter, Store.frame_of_size_le (Nat.le_refl _)]
  have hsame : ∀ i, (s.enter parent).2.frame i = s.frame i := fun i => Store.frame_enter
  have hvariables : ∀ name, (s.enter parent).2.variableRef? (s.frames.size :: chain) name
      = s.variableRef? chain name := by
    intro name
    rw [Store.variableRef?_cons, hempty]
    exact Store.variableRef?_congr fun i _ => by rw [hsame]
  refine ⟨?_, ?_, ?_, ?_⟩
  · rw [List.forall_mem_cons, Store.size_enter]
    exact ⟨Nat.lt_succ_self _, fun i hi => Nat.lt_succ_of_lt (h.size i hi)⟩
  · intro name origin ho
    rw [hvariables]
    exact h.bound name origin ho
  · intro name hnone
    rw [hvariables]
    exact h.free name hnone
  · intro name arity
    have hkeep : ∀ frames, (s.enter parent).2.functionIn? frames name arity
        = s.functionIn? frames name arity :=
      fun frames => Store.functionIn?_congr fun i _ => by rw [hsame]
    rw [Store.functionIn?_cons, hempty, hkeep, hkeep]
    exact h.functions name arity

/-- A variable that is added to the first frame is bound by its name. -/
lemma add (h : Finds B stands bs scope.chain s)
    (hnew : (s.frame scope.frame).getVariable? v.name = none)
    (hs : stands origin ⟨scope.frame, v.name⟩) :
    Finds B stands ((v.name, origin) :: bs) scope.chain (s.addVariable scope v) := by
  have hsize := h.size scope.frame (List.mem_cons_self ..)
  have hself : (s.addVariable scope v).variableRef? scope.chain v.name
      = some ⟨scope.frame, v.name⟩ :=
    Store.variableRef?_of_find (Store.findVariable?_addVariable_self hsize hnew)
  have hothers : ∀ name, name ≠ v.name →
      (s.addVariable scope v).variableRef? scope.chain name = s.variableRef? scope.chain name :=
    fun name hne => Store.variableRef?_congr fun i _ => by
      rw [Store.getVariable?_addVariable_of_ne hne]
  refine ⟨?_, ?_, ?_, ?_⟩
  · intro i hi
    exact Nat.lt_of_lt_of_eq (h.size i hi) Store.size_modifyFrame.symm
  · intro name origin' ho
    by_cases hname : name = v.name
    · subst hname
      rw [List.lookup_cons_self] at ho
      cases ho
      exact ⟨_, hself, hs⟩
    · rw [List.lookup_cons, beq_false_of_ne hname] at ho
      rw [hothers name hname]
      exact h.bound name origin' ho
  · intro name hnone
    by_cases hname : name = v.name
    · subst hname
      rw [List.lookup_cons_self] at hnone
      cases hnone
    · rw [List.lookup_cons, beq_false_of_ne hname] at hnone
      rw [hothers name hname]
      exact h.free name hnone
  · intro name arity
    rw [(Store.grows_addVariable hsize).functionIn?, (Store.grows_addVariable hsize).functionIn?]
    exact h.functions name arity

/-- A function that is added at home leads no variable elsewhere. -/
lemma addFunction {g : Function} (h : Finds B stands bs (B.home :: B.host) s) :
    Finds B stands bs (B.home :: B.host) (s.addFunction scope g) := by
  have hvariables : ∀ name, (s.addFunction scope g).variableRef? (B.home :: B.host) name
      = s.variableRef? (B.home :: B.host) name := by
    intro name
    apply Store.variableRef?_congr
    intro i _
    rw [Frame.getVariable?, Store.vars_addFunction]
    rfl
  refine ⟨?_, ?_, ?_, fun _ _ => rfl⟩
  · intro i hi
    rw [Store.size_addFunction]
    exact h.size i hi
  · intro name origin ho
    rw [hvariables]
    exact h.bound name origin ho
  · intro name hnone
    rw [hvariables]
    exact h.free name hnone

/-- An empty frame inside the host binds nothing. -/
lemma globals (hsize : ∀ i ∈ B.home :: B.host, i < s.frames.size)
    (hvars : (s.frame B.home).vars = [])
    (hsame : ∀ i ∈ B.host, (s.frame i).outline = (B.store.frame i).outline) :
    Finds B stands [] (B.home :: B.host) s := by
  refine ⟨hsize, ?_, ?_, fun _ _ => rfl⟩
  · intro name origin ho
    cases ho
  · intro name _
    rw [Store.variableRef?_cons, Frame.getVariable?, hvars]
    apply Store.variableRef?_congr
    intro i hi
    exact Store.getVariable?_isSome_of_outline (hsame i hi)

end Finds

end LetDef
