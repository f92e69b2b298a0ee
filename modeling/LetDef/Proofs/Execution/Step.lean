import LetDef.Execution.Program
import LetDef.Proofs.Outcome
import LetDef.Proofs.Store.Keys

/-!
# What the steps of a run do

Looking a name up leaves the world as it is, and so does making a fault of a name that is not
resolved. A change of the store is recorded together with the store that it leaves. What the steps
end with is said here once.
-/

namespace LetDef.Execution

/-- The world after an event that changes the store to `s`. -/
def World.after (w : World) (e : Event) (s : Store) : World :=
  { w with store := s, journal := w.journal.map (⟨e, s⟩ :: ·) }

/-- The world in which a program begins that knows nothing but `print`. -/
def World.bare : World :=
  { store := (globalScope none {}).2 }

/-- A name that is not resolved as a fault at the site. -/
def Halt.at (site : Site) : Halt → Halt
  | .naming e => .fault ⟨.naming e, site⟩
  | halt => halt

/-- Nesting that is too deep as a fault at the site. -/
def Halt.guarded (site : Site) : Halt → Halt
  | .tooDeep => .fault ⟨.callDepth, site⟩
  | halt => halt

variable {α β : Type} {x : Run α} {find : Store → Except NameError α} {site : Site} {w : World}
  {e : Event} {scope : Scope} {v : Variable} {g : Function} {origin : Origin}

/-! ### Changes -/

lemma outcome_note : outcome (note e) w = (.ok (), w.after e w.store) :=
  rfl

lemma outcome_modifyStore {f : Store → Store} :
    outcome (modifyStore e f) w = (.ok (), w.after e (f w.store)) :=
  rfl

lemma outcome_enter :
    outcome (enter scope) w
      = (.ok (w.store.enter (some scope)).1, w.after (.entered (w.store.enter (some scope)).1)
          (w.store.enter (some scope)).2) :=
  rfl

lemma outcome_newVariable :
    outcome (newVariable origin scope v) w =
      (w.store.variableConflict? scope v.name).elim
        (.ok (), w.after (.created origin ⟨scope.frame, v.name⟩) (w.store.addVariable scope v))
        fun e => (.error (.naming e), w) := by
  unfold newVariable
  rw [outcome_bind, outcome_get]
  dsimp only
  cases w.store.variableConflict? scope v.name <;> rfl

lemma outcome_newFunction :
    outcome (newFunction scope g) w =
      (w.store.functionConflict? scope g.name g.arity).elim
        (.ok (), w.after (.defined ⟨scope.frame, g.name, g.arity⟩) (w.store.addFunction scope g))
        fun e => (.error (.naming e), w) := by
  unfold newFunction
  rw [outcome_bind, outcome_get]
  dsimp only
  cases w.store.functionConflict? scope g.name g.arity <;> rfl

lemma key_methodFunction (globals : Scope) (m : Method) :
    (methodFunction globals m).key = m.key := by
  simp [methodFunction, Function.key, Function.arity, Method.key]

/-! ### Names -/

lemma outcome_resolving :
    outcome (resolving site x) w = ((outcome x w).1.mapError (Halt.at site), (outcome x w).2) := by
  unfold resolving
  rw [outcome_tryCatch]
  rcases outcome x w with ⟨halt | a, w₁⟩
  · cases halt <;> rfl
  · rfl

/-- Names are resolved at a site in each of two steps just as in both together. -/
lemma resolving_bind {f : α → Run β} :
    resolving site (x >>= f) = resolving site x >>= fun a => resolving site (f a) := by
  refine outcome_ext fun w => ?_
  rw [outcome_resolving, outcome_bind, outcome_bind, outcome_resolving]
  rcases outcome x w with ⟨halt | a, w₁⟩
  · rfl
  · exact outcome_resolving.symm

lemma outcome_consult :
    outcome (consult find) w = ((find w.store).mapError Halt.naming, w) := by
  unfold consult
  rw [outcome_bind, outcome_get]
  dsimp only
  cases find w.store <;> rfl

lemma outcome_lookup : outcome (lookup site find) w =
    ((find w.store).mapError fun e => .fault ⟨.naming e, site⟩, w) := by
  unfold lookup
  rw [outcome_resolving, outcome_consult]
  cases find w.store <;> rfl

lemma outcome_addVariable (h : (w.store.frame scope.frame).getVariable? v.name = none) :
    outcome (addVariable site origin scope v) w
      = (.ok (), w.after (.created origin ⟨scope.frame, v.name⟩)
          (w.store.addVariable scope v)) := by
  unfold addVariable
  rw [outcome_resolving, outcome_newVariable, Store.variableConflict?, h]
  rfl

lemma outcome_addFunction (h : (w.store.frame scope.frame).getFunction? g.name g.arity = none) :
    outcome (addFunction site scope g) w
      = (.ok (), w.after (.defined ⟨scope.frame, g.name, g.arity⟩)
          (w.store.addFunction scope g)) := by
  unfold addFunction
  rw [outcome_resolving, outcome_newFunction, Store.functionConflict?, h]
  rfl

lemma outcome_findMain {globals : Scope} : outcome (findMain globals site) w =
    (((w.store.lookupFunction globals "main" 0).map Prod.snd).mapError fun _ =>
      .fault ⟨.missingMain, site⟩, w) := by
  unfold findMain
  rw [outcome_tryCatch, outcome_bind, outcome_consult]
  cases w.store.lookupFunction globals "main" 0 <;> rfl

/-- With the guard against too deep nesting a step ends as it does without, but for that stop. -/
lemma outcome_guarding {x : Run Object} :
    outcome (guarding site x) w =
      ((outcome x w).1.mapError (Halt.guarded site), (outcome x w).2) := by
  unfold guarding
  rw [outcome_tryCatch]
  rcases outcome x w with ⟨halt | o, w₁⟩
  · cases halt <;> rfl
  · rfl

/-- Where faults can be made at nodes only a step ends as it does elsewhere, but for faults at
strays. -/
lemma outcome_locating {strays : Site → Bool} {x : Run Object} :
    outcome (locating strays x) w =
      ((outcome x w).1.mapError (Halt.located strays), (outcome x w).2) := by
  unfold locating
  rw [outcome_tryCatch]
  rcases outcome x w with ⟨halt | o, w₁⟩ <;> rfl

/-- A run ends as its program does, but for the guard against too deep nesting. -/
lemma outcome_run {N : Natives} {fuel depth : Nat} {globals : Scope} {p : Program} :
    outcome (run N fuel depth globals p) w =
      ((outcome (program N fuel depth globals p) w).1.mapError (Halt.guarded p.site),
        (outcome (program N fuel depth globals p) w).2) :=
  outcome_guarding

end LetDef.Execution
