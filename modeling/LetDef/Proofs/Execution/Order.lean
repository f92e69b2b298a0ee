import LetDef.Proofs.Execution.Congruence
import LetDef.Proofs.Execution.Native
import LetDef.Proofs.Store.Growth

/-!
# What a run may do to its world

Evaluation records events, prints lines, enters scopes, defines variables and puts objects into
variables. A reflexive and transitive relation between worlds that holds across each of these
changes holds from the beginning of a run to its end, however the run ends.
-/

namespace LetDef.Execution

/-- Wherever the step begins, it leads to a world in the relation. -/
def Leads {α : Type} (S : World → World → Prop) (x : Run α) : Prop :=
  ∀ w, S w (outcome x w).2

/-- A reflexive and transitive relation that holds across each change that evaluation makes. -/
structure WorldOrder (S : World → World → Prop) : Prop where
  refl (w : World) : S w w
  trans {u v w : World} : S u v → S v w → S u w
  note (w : World) (e : Event) : S w (w.after e w.store)
  print (w : World) (text : String) : S w { w with output := w.output ++ text }
  enter (w : World) (e : Event) (scope : Scope) : S w (w.after e (w.store.enter (some scope)).2)
  addVariable (w : World) (e : Event) (scope : Scope) (v : Variable) :
    w.store.variableConflict? scope v.name = none → S w (w.after e (w.store.addVariable scope v))
  /-- Only a variable that is no constant or has not been set is given an object. -/
  setVariable (w : World) (e : Event) {ref : VariableRef} {v : Variable} (o : Object) :
    w.store.getVariable? ref = some v → (v.constant && v.value != .unset) = false →
    S w (w.after e (w.store.setVariable ref o))

variable {N : Natives} {S : World → World → Prop} {α β : Type} {x : Run α}

lemma Leads.resolving {site : Site} (hx : Leads S x) : Leads S (resolving site x) := by
  intro w
  rw [outcome_resolving]
  exact hx w

namespace WorldOrder

variable (h : WorldOrder S)

include h

lemma leads_bind {f : α → Run β} (hx : Leads S x) (hf : ∀ a, Leads S (f a)) :
    Leads S (x >>= f) := by
  intro w
  have hw := hx w
  rw [outcome_bind]
  rcases hout : outcome x w with ⟨halt | a, w₁⟩ <;> rw [hout] at hw
  · exact hw
  · exact h.trans hw (hf a w₁)

lemma leads_consult {find : Store → Except NameError α} : Leads S (consult find) := by
  intro w
  rw [outcome_consult]
  exact h.refl w

lemma leads_newVariable {origin : Origin} {scope : Scope} {v : Variable} :
    Leads S (newVariable origin scope v) := by
  intro w
  rw [outcome_newVariable]
  cases hconflict : w.store.variableConflict? scope v.name with
  | none => exact h.addVariable w _ scope v hconflict
  | some e => exact h.refl w

lemma leads_store {site site' : Site} {scope : Scope} {access : Node} {members : Option Scope}
    {name : String} {o : Object} :
    Leads S (lookup site (fun s => s.lookupField members name) >>= fun found =>
      store site' scope access found.1 found.2 o) := by
  intro w
  rw [outcome_bind, outcome_lookup]
  cases hfound : w.store.lookupField members name with
  | error e => exact h.refl w
  | ok found =>
    change S w (outcome (store site' scope access found.1 found.2 o) w).2
    unfold store
    split
    · exact h.refl w
    · rename_i hset
      rw [outcome_modifyStore]
      exact h.setVariable w _ o (Store.getVariable?_of_lookupField hfound) (by simpa using hset)

lemma leads_printLine {line : String} : Leads S (printLine line) := by
  intro w
  have hw := h.print w (line ++ "\n")
  rwa [← String.append_assoc] at hw

/-- Functions of a host that only print lead to worlds in the relation. -/
lemma related (hN : N.OnlyPrint) (extra : Nat) : N.Related extra fun _ x _ => Leads S x := by
  intro key objects depth w
  obtain ⟨printed, hw⟩ := hN key objects depth w
  rw [hw]
  exact h.print w printed

/-- Evaluation leads to worlds in the relation. -/
theorem indifferent : Indifferent fun _ x _ => Leads S x where
  pure _ w := h.refl w
  bind := h.leads_bind
  throw _ w := h.refl w
  resolving _ := Leads.resolving
  note e w := h.note w e
  enter scope w := h.enter w _ scope
  printLine _ := h.leads_printLine
  newVariable _ _ _ := h.leads_newVariable
  lookupField _ _ := h.leads_consult
  lookupMethod _ _ _ := h.leads_consult
  store _ _ _ _ _ _ _ := h.leads_store

end WorldOrder

/-- A relation that holds also across the definition of a function. -/
structure ProgramOrder (S : World → World → Prop) : Prop extends WorldOrder S where
  addFunction (w : World) (e : Event) (scope : Scope) (g : Function) :
    w.store.functionConflict? scope g.name g.arity = none →
    S w (w.after e (w.store.addFunction scope g))

namespace ProgramOrder

variable (h : ProgramOrder S)

include h

lemma leads_newFunction {scope : Scope} {g : Function} : Leads S (newFunction scope g) := by
  intro w
  rw [outcome_newFunction]
  cases hconflict : w.store.functionConflict? scope g.name g.arity with
  | none => exact h.addFunction w _ scope g hconflict
  | some e => exact h.refl w

lemma leads_findMain {globals : Scope} {site : Site} : Leads S (findMain globals site) := by
  intro w
  rw [outcome_findMain]
  exact h.refl w

theorem programCongruence (hN : N.OnlyPrint) :
    ProgramCongruence N 0 (fun _ x _ => Leads S x) fun _ _ => True :=
  h.indifferent.programCongruence (h.related hN 0) (fun _ _ => h.leads_newFunction)
    fun _ _ => h.leads_findMain

/-- A run leads to a world in the relation, whether it yields an object or stops. -/
theorem leads_run (hN : N.OnlyPrint) (fuel depth : Nat) (globals : Scope) (p : Program) :
    Leads S (run N fuel depth globals p) := by
  intro w
  rw [outcome_run]
  exact (h.programCongruence hN).program_self h.indifferent.limits fuel depth globals p w

/-- So does a call of a function. -/
theorem leads_invoke (hN : N.OnlyPrint) (fuel depth : Nat) (g : Function)
    (objects : List Object) : Leads S (invoke N fuel g objects depth) :=
  ((h.indifferent.congruence (h.related hN 0)).relatedAt_self h.indifferent.limits fuel
    depth).invoke trivial

end ProgramOrder

/-! ### Tables of functions -/

/-- Evaluation defines no functions. -/
lemma worldOrder_functions : WorldOrder fun w w' =>
    ∀ i, (w'.store.frame i).functions = (w.store.frame i).functions where
  refl _ _ := rfl
  trans h h' i := (h' i).trans (h i)
  note _ _ _ := rfl
  print _ _ _ := rfl
  enter _ _ _ _ := by rw [World.after, Store.frame_enter]
  addVariable _ _ _ v _ _ := Store.functions_modifyVars fun vars => vars ++ [v]
  setVariable _ _ _ _ _ _ _ _ := Store.functions_modifyVars _

end LetDef.Execution
