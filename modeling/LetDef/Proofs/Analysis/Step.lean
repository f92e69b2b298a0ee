import LetDef.Analysis.Program
import LetDef.Proofs.Outcome

/-!
# What the steps of analysis do

Looking a name up leaves the state as it is, and so does making a fault of a name that is not
resolved. What the steps end with is said here once.
-/

namespace LetDef.Analysis

/-- A name that is not resolved as a fault at the site. -/
def Halt.at (site : Site) : Halt → Halt
  | .naming e => .fault ⟨.naming e, site⟩
  | halt => halt

/-- Nesting that is too deep as a fault at the site. -/
def Halt.guarded (site : Site) : Halt → Halt
  | .tooDeep => .fault ⟨.tooDeep, site⟩
  | halt => halt

variable {α β : Type} {x : Analyze α} {find : Store → Except NameError α} {site : Site}
  {st st₁ : State} {scope : Scope} {a : α}

/-! ### Names -/

lemma outcome_resolving :
    outcome (resolving site x) st =
      ((outcome x st).1.mapError (Halt.at site), (outcome x st).2) := by
  unfold resolving
  rw [outcome_tryCatch]
  rcases outcome x st with ⟨halt | a, st₁⟩
  · cases halt <;> rfl
  · rfl

/-- Names are resolved at a site in each of two steps just as in both together. -/
lemma resolving_bind {f : α → Analyze β} :
    resolving site (x >>= f) = resolving site x >>= fun a => resolving site (f a) := by
  refine outcome_ext fun st => ?_
  rw [outcome_resolving, outcome_bind, outcome_bind, outcome_resolving]
  rcases outcome x st with ⟨halt | a, st₁⟩
  · rfl
  · exact outcome_resolving.symm

lemma gives_resolving : Gives (resolving site x) st a st₁ ↔ Gives x st a st₁ := by
  unfold Gives
  rw [outcome_resolving]
  rcases outcome x st with ⟨halt | b, st'⟩
  · simp [Except.mapError]
  · simp [Except.mapError]

lemma outcome_unwrap {result : Except NameError α} :
    outcome (unwrap result) st = (result.mapError Halt.naming, st) := by
  cases result <;> rfl

lemma outcome_consult :
    outcome (consult find) st = ((find st.store).mapError Halt.naming, st) := by
  unfold consult
  rw [outcome_bind, outcome_get]
  exact outcome_unwrap

lemma outcome_findMain {globals : Scope} : outcome (findMain globals site) st =
    (((st.store.lookupFunction globals "main" 0).map Prod.snd).mapError fun _ =>
      .fault ⟨.missingMain, site⟩, st) := by
  unfold findMain
  rw [outcome_tryCatch, outcome_bind, outcome_consult]
  cases st.store.lookupFunction globals "main" 0 <;> rfl

/-! ### Changes -/

lemma outcome_newVariable {v : Variable} :
    outcome (newVariable scope v) st =
      (st.store.variableConflict? scope v.name).elim
        (.ok (), { st with store := st.store.addVariable scope v })
        fun e => (.error (.naming e), st) := by
  unfold newVariable
  rw [outcome_bind, outcome_get]
  dsimp only
  cases st.store.variableConflict? scope v.name <;> rfl

lemma outcome_newFunction {g : Function} :
    outcome (newFunction scope g) st =
      (st.store.functionConflict? scope g.name g.arity).elim
        (.ok (), { st with store := st.store.addFunction scope g })
        fun e => (.error (.naming e), st) := by
  unfold newFunction
  rw [outcome_bind, outcome_get]
  dsimp only
  cases st.store.functionConflict? scope g.name g.arity <;> rfl

/-- With the guard against too deep nesting a step ends as it does without, but for that stop. -/
lemma outcome_guarding {x : Analyze Unit} :
    outcome (guarding site x) st =
      ((outcome x st).1.mapError (Halt.guarded site), (outcome x st).2) := by
  unfold guarding
  rw [outcome_tryCatch]
  rcases outcome x st with ⟨halt | u, st₁⟩
  · cases halt <;> rfl
  · rfl

/-- Where faults can be made at nodes only a step ends as it does elsewhere, but for faults at
strays. -/
lemma outcome_locating {strays : Site → Bool} {x : Analyze Unit} :
    outcome (locating strays x) st =
      ((outcome x st).1.mapError (Halt.located strays), (outcome x st).2) := by
  unfold locating
  rw [outcome_tryCatch]
  rcases outcome x st with ⟨halt | u, st₁⟩ <;> rfl

/-- Analysis ends as the rules do, but for the guard against too deep nesting. -/
lemma outcome_analyze {depth : Nat} {globals : Scope} {p : Program} :
    outcome (analyze depth globals p) st =
      ((outcome (program depth globals p.numbered) st).1.mapError (Halt.guarded p.site),
        (outcome (program depth globals p.numbered) st).2) :=
  outcome_guarding

end LetDef.Analysis
