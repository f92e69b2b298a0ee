import LetDef.Proofs.Execution.Order
import LetDef.Proofs.Execution.Simulation

/-!
# Journals do not matter

A run does the same whether or not it keeps a journal. Worlds that differ in their journals alone
are alike in the strictest sense, so evaluation cannot tell them apart, and a run that keeps none
at first never begins one.
-/

namespace LetDef.Execution

variable {N : Natives}

/-- The world without its journal. -/
def World.quiet (w : World) : World :=
  { w with journal := none }

/-- Without a journal the step ends as it does with one, and leaves the same behind. -/
def Silent {α : Type} (x : Run α) : Prop :=
  ∀ w, outcome x w.quiet = ((outcome x w).1, (outcome x w).2.quiet)

/-! ### Worlds with the same store -/

lemma likeness_eq : Frame.Likeness (· = ·) where
  vars h := congrArg Frame.vars h
  getFunction? h _ _ := by rw [h]
  mem_functions h _ := by rw [h]
  update h _ := by rw [h]

lemma store_eq_of_alike {s t : Store} (h : Store.Alike (· = ·) s t) : s = t := by
  have hframes : s.frames = t.frames := by
    refine Array.ext h.size fun i hs ht => ?_
    have hframe := h.frame i
    unfold Store.frame at hframe
    rw [Array.getElem?_eq_getElem hs, Array.getElem?_eq_getElem ht] at hframe
    exact hframe
  cases s
  cases t
  exact congrArg Store.mk hframes

lemma matches_newFunction {scope : Scope} {g : Function} :
    Matches (· = ·) (newFunction scope g) (newFunction scope g) := by
  intro w w' h
  rw [outcome_newFunction, outcome_newFunction, ← store_eq_of_alike h.store]
  cases w.store.functionConflict? scope g.name g.arity with
  | none => exact ⟨rfl, h.output, rfl, fun _ => rfl⟩
  | some e => exact ⟨rfl, h⟩

lemma matches_run (hN : N.WorkOnArguments) (fuel depth : Nat) (globals : Scope)
    (p : Program) :
    Matches (· = ·) (run N fuel depth globals p) (run N fuel depth globals p) := by
  have hR := indifferent_matches likeness_eq
  have hprograms := hR.programCongruence (related_matches hN) (fun _ _ => matches_newFunction)
    fun _ _ => matches_findMain likeness_eq
  exact (hprograms.program_self hR.limits fuel depth globals p).mapError (fun _ => outcome_run)
    fun _ => outcome_run

/-! ### Runs without a journal -/

/-- No journal is begun. -/
lemma programOrder_quiet : ProgramOrder fun w w' => w.journal = none → w'.journal = none where
  refl _ h := h
  trans h h' hw := h' (h hw)
  note _ _ h := congrArg (Option.map _) h
  print _ _ h := h
  enter _ _ _ h := congrArg (Option.map _) h
  addVariable _ _ _ _ _ h := congrArg (Option.map _) h
  setVariable _ _ _ _ _ _ _ h := congrArg (Option.map _) h
  addFunction _ _ _ _ _ h := congrArg (Option.map _) h

lemma World.eq_quiet {w w' : World} (h : World.Alike (· = ·) w w') (hnone : w.journal = none) :
    w = w'.quiet := by
  have hstore := store_eq_of_alike h.store
  have houtput := h.output
  cases w
  cases w'
  cases hstore
  cases houtput
  cases hnone
  rfl

/-- A run of a program does the same whether or not it keeps a journal, if the functions of the host
work on their arguments. -/
theorem silent_run (hN : N.WorkOnArguments) {fuel depth : Nat} {globals : Scope} {p : Program} :
    Silent (run N fuel depth globals p) := by
  intro w
  obtain ⟨hend, halike⟩ := matches_run hN fuel depth globals p w.quiet w ⟨rfl, rfl, fun _ => rfl⟩
  have hnone := programOrder_quiet.leads_run hN.onlyPrint fuel depth globals p w.quiet rfl
  exact Prod.ext hend (World.eq_quiet halike hnone)

end LetDef.Execution
