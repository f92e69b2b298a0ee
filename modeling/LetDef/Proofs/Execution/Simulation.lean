import LetDef.Proofs.Execution.Congruence
import LetDef.Proofs.Execution.Native
import LetDef.Proofs.Store.Growth
import LetDef.Proofs.Store.Similar

/-!
# Worlds that evaluation cannot tell apart

Evaluation does not look into journals, and it does not notice in which order the functions of a
scope were defined. Worlds that differ in nothing else stay so, and what is evaluated in them ends
alike.
-/

namespace LetDef

/-- A relation between frames with the same variables, in which names stand for the same functions
and the same names are known. It does not matter what the variables are. -/
structure Frame.Likeness (F : Frame → Frame → Prop) : Prop where
  vars {f g : Frame} : F f g → f.vars = g.vars
  getFunction? {f g : Frame} : F f g →
    ∀ name arity, f.getFunction? name arity = g.getFunction? name arity
  mem_functions {f g : Frame} : F f g → ∀ h, h ∈ f.functions ↔ h ∈ g.functions
  update {f g : Frame} : F f g → ∀ vars, F { f with vars := vars } { g with vars := vars }

namespace Store

variable {F : Frame → Frame → Prop} {s t : Store} {scope : Scope} {name : String} {arity : Nat}

/-- The stores have as many frames, which are alike one by one. -/
structure Alike (F : Frame → Frame → Prop) (s t : Store) : Prop where
  size : s.frames.size = t.frames.size
  frame (i : FrameId) : F (s.frame i) (t.frame i)

namespace Alike

lemma enter (h : Alike F s t) (parent : Option Scope) :
    (s.enter parent).1 = (t.enter parent).1 ∧ Alike F (s.enter parent).2 (t.enter parent).2 := by
  constructor
  · unfold Store.enter
    rw [h.size]
  · constructor
    · rw [size_enter, size_enter, h.size]
    · intro i
      rw [frame_enter, frame_enter]
      exact h.frame i

variable (hF : Frame.Likeness F) (h : Alike F s t)

include hF h

/-- A change of the variables of one frame leaves the stores alike. -/
lemma modifyVars (i : FrameId) (change : List Variable → List Variable) :
    Alike F (s.modifyFrame i fun f => { f with vars := change f.vars })
      (t.modifyFrame i fun f => { f with vars := change f.vars }) := by
  constructor
  · rw [size_modifyFrame, size_modifyFrame, h.size]
  · intro j
    by_cases hj : j = i
    · subst hj
      rcases Nat.lt_or_ge j s.frames.size with hsize | hsize
      · rw [frame_modifyFrame_self hsize, frame_modifyFrame_self (h.size ▸ hsize),
          hF.vars (h.frame j)]
        exact hF.update (h.frame j) _
      · rw [frame_modifyFrame_of_size_le hsize, frame_modifyFrame_of_size_le (h.size ▸ hsize)]
        exact h.frame j
    · rw [frame_modifyFrame_of_ne hj, frame_modifyFrame_of_ne hj]
      exact h.frame j

lemma variableConflict? : s.variableConflict? scope name = t.variableConflict? scope name := by
  unfold Store.variableConflict? Frame.getVariable?
  rw [hF.vars (h.frame _)]

lemma lookupVariable : s.lookupVariable scope name = t.lookupVariable scope name := by
  have hvars (i) : (s.frame i).vars = (t.frame i).vars := hF.vars (h.frame i)
  unfold Store.lookupVariable findVariable? variableNames Frame.getVariable?
  simp only [hvars]

lemma lookupField {members : Option Scope} :
    s.lookupField members name = t.lookupField members name := by
  cases members with
  | none => rfl
  | some scope => exact h.lookupVariable hF

lemma mem_functionNames (candidate : String) :
    candidate ∈ s.functionNames scope ↔ candidate ∈ t.functionNames scope := by
  have hfunctions (i) (g : Function) : g ∈ (s.frame i).functions ↔ g ∈ (t.frame i).functions :=
    hF.mem_functions (h.frame i) g
  unfold functionNames
  simp only [List.mem_flatMap, List.mem_map, hfunctions]

/-- Functions are found alike, and where none is found the same names are suggested. -/
lemma lookupFunction : s.lookupFunction scope name arity = t.lookupFunction scope name arity := by
  have hfind (i) : (s.frame i).getFunction? name arity = (t.frame i).getFunction? name arity :=
    hF.getFunction? (h.frame i) name arity
  unfold Store.lookupFunction findFunction?
  simp only [hfind]
  rw [similar_congr (h.mem_functionNames hF)]

lemma lookupMethod {members : Option Scope} :
    s.lookupMethod members name arity = t.lookupMethod members name arity := by
  cases members with
  | none => rfl
  | some scope => exact h.lookupFunction hF

end Alike

end Store

namespace Execution

variable {F : Frame → Frame → Prop} {α β : Type} {x y : Run α} {w w' : World}

/-- The worlds differ in their journals and in frames that are alike. -/
structure World.Alike (F : Frame → Frame → Prop) (w w' : World) : Prop where
  output : w.output = w'.output
  store : Store.Alike F w.store w'.store

/-- In worlds that are alike the steps end alike, and leave such worlds. -/
def Matches (F : Frame → Frame → Prop) (x y : Run α) : Prop :=
  ∀ w w', World.Alike F w w' →
    (outcome x w).1 = (outcome y w').1 ∧ World.Alike F (outcome x w).2 (outcome y w').2

lemma Matches.bind {f g : α → Run β} (hx : Matches F x y) (hf : ∀ a, Matches F (f a) (g a)) :
    Matches F (x >>= f) (y >>= g) := by
  intro w w' h
  obtain ⟨hend, halike⟩ := hx w w' h
  rw [outcome_bind, outcome_bind]
  rcases hout : outcome x w with ⟨halt | a, w₁⟩ <;>
    rcases hout' : outcome y w' with ⟨halt' | a', w₁'⟩ <;> rw [hout, hout'] at hend halike
  · exact ⟨congrArg Except.error (Except.error.inj hend), halike⟩
  · cases hend
  · cases hend
  · cases hend
    exact hf a w₁ w₁' halike

/-- A change of how steps stop makes no difference. -/
lemma Matches.mapError {k : Halt → Halt} {x' y' : Run α} (hx : Matches F x y)
    (hx' : ∀ w, outcome x' w = ((outcome x w).1.mapError k, (outcome x w).2))
    (hy' : ∀ w, outcome y' w = ((outcome y w).1.mapError k, (outcome y w).2)) :
    Matches F x' y' := by
  intro w w' h
  obtain ⟨hend, halike⟩ := hx w w' h
  rw [hx', hy', hend]
  exact ⟨rfl, halike⟩

/-- What is found does not depend on which of the worlds it is looked for in. -/
lemma matches_consult {find : Store → Except NameError α}
    (hfind : ∀ s t, Store.Alike F s t → find s = find t) :
    Matches F (consult find) (consult find) := by
  intro w w' h
  rw [outcome_consult, outcome_consult, hfind _ _ h.store]
  exact ⟨rfl, h⟩

lemma matches_store {site : Site} {scope : Scope} {access : Node} {ref : VariableRef} {v : Variable}
    {o : Object} (hF : Frame.Likeness F) :
    Matches F (store site scope access ref v o) (store site scope access ref v o) := by
  intro w w' h
  unfold store
  split
  · exact ⟨rfl, h⟩
  · exact ⟨rfl, h.output, h.store.modifyVars hF ref.frame _⟩

lemma matches_newVariable {origin : Origin} {scope : Scope} {v : Variable}
    (hF : Frame.Likeness F) :
    Matches F (newVariable origin scope v) (newVariable origin scope v) := by
  intro w w' h
  rw [outcome_newVariable, outcome_newVariable, h.store.variableConflict? hF]
  cases w'.store.variableConflict? scope v.name with
  | none => exact ⟨rfl, h.output, h.store.modifyVars hF scope.frame fun vars => vars ++ [v]⟩
  | some e => exact ⟨rfl, h⟩

lemma matches_findMain {globals : Scope} {site : Site} (hF : Frame.Likeness F) :
    Matches F (findMain globals site) (findMain globals site) := by
  intro w w' h
  rw [outcome_findMain, outcome_findMain, h.store.lookupFunction hF]
  exact ⟨rfl, h⟩

/-- Functions of a host that work on their arguments cannot tell the worlds apart. -/
lemma related_matches {N : Natives} (hN : N.WorkOnArguments) : N.Related 0 fun _ => Matches F := by
  intro key objects depth w w' h
  obtain ⟨r, printed, hprints⟩ := hN key objects depth
  rw [Nat.zero_add, hprints w, hprints w']
  exact ⟨rfl, congrArg (· ++ printed) h.output, h.store⟩

/-- Evaluation cannot tell the worlds apart. -/
theorem indifferent_matches (hF : Frame.Likeness F) : Indifferent fun _ => Matches F where
  pure _ _ _ h := ⟨rfl, h⟩
  bind := Matches.bind
  throw _ _ _ h := ⟨rfl, h⟩
  resolving _ hx := hx.mapError (fun _ => outcome_resolving) fun _ => outcome_resolving
  note _ _ _ h := ⟨rfl, h.output, h.store⟩
  enter scope w w' h := by
    obtain ⟨hscope, hstore⟩ := h.store.enter (some scope)
    exact ⟨congrArg Except.ok hscope, h.output, hstore⟩
  printLine line _ _ h := ⟨rfl, congrArg (· ++ line ++ "\n") h.output, h.store⟩
  newVariable _ _ _ := matches_newVariable hF
  lookupField _ _ := matches_consult fun _ _ h => h.lookupField hF
  lookupMethod _ _ _ := matches_consult fun _ _ h => h.lookupMethod hF
  store _ _ _ _ _ _ _ := by
    refine Matches.bind ?_ fun _ => matches_store hF
    exact (matches_consult fun _ _ h => h.lookupField hF).mapError
      (fun _ => outcome_resolving) fun _ => outcome_resolving

end Execution

end LetDef
