import LetDef.Proofs.Execution.Native
import LetDef.Proofs.Store.Growth
import LetDef.Script
import Mathlib.Logic.Relation

/-!
# Histories of scopes

Scopes form a forest, in which names are defined, looked up and assigned to in any order. The steps
of a script that do so are operations; `Does` says what each does to a desk if it succeeds. The
operations that have succeeded so far are a history, and it says all there is to say about names:
which scopes are around a scope, which of them define a name, and what was put into a variable last,
through whichever scope.
-/

namespace LetDef.Script

open Execution (Natives)

/-! ### Operations -/

/-- What can be done with scopes, which are given by number. -/
inductive Operation where
  | enter (parent : Option Nat)
  | defineVariable (scope : Nat) (v : Variable)
  | defineFunction (scope : Nat) (g : Function)
  | assign (scope : Nat) (name : String) (o : Object)
  | call (scope : Nat) (name : String) (arguments : List Object)

/-- Does an operation. -/
def Operation.work (N : Natives) : Operation → Work Unit
  | .enter parent => do
    let outer ← parent.mapM scopeAt
    let _ ← Script.enter outer
  | .defineVariable i v => do Script.defineVariable (← scopeAt i) v
  | .defineFunction i g => do Script.defineFunction (← scopeAt i) g
  | .assign i name o => do
    let _ ← Script.assign (← scopeAt i) name o
  | .call i name arguments => do
    let _ ← Script.call N (← scopeAt i) name arguments

/-- A desk, and the operations that have been done on it with success. -/
structure Past where
  desk : Desk := {}
  done : List Operation := []

/-- Tries one more operation. -/
def Past.next (N : Natives) (p : Past) (op : Operation) : Past where
  desk := (outcome (op.work N) p.desk).2
  done := if (outcome (op.work N) p.desk).1.isOk then p.done ++ [op] else p.done

/-- What operations lead to that are tried one after the other, beginning with nothing. -/
def after (N : Natives) (ops : List Operation) : Past :=
  ops.foldl (Past.next N) {}

/-! ### What operations do -/

/-- What an operation that succeeds does to a desk. -/
inductive Does (desk : Desk) : Operation → Desk → Prop
  | enter {parent : Option Nat} {outer : Option Scope}
      (hparent : Option.Rel (fun j around => desk.scopes[j]? = some around) parent outer) :
      Does desk (.enter parent)
        { desk with
          store := (desk.store.enter outer).2
          scopes := desk.scopes.push (desk.store.enter outer).1 }
  | defineVariable {i : Nat} {scope : Scope} {v : Variable} (hi : desk.scopes[i]? = some scope)
      (hnew : (desk.store.frame scope.frame).getVariable? v.name = none) :
      Does desk (.defineVariable i v) { desk with store := desk.store.addVariable scope v }
  | defineFunction {i : Nat} {scope : Scope} {g : Function} (hi : desk.scopes[i]? = some scope)
      (hnew : (desk.store.frame scope.frame).getFunction? g.name g.arity = none) :
      Does desk (.defineFunction i g) { desk with store := desk.store.addFunction scope g }
  | assign {i : Nat} {scope : Scope} {name : String} {o : Object} {ref : VariableRef}
      {v : Variable} (hi : desk.scopes[i]? = some scope)
      (hfound : desk.store.findVariable? scope name = some (ref, v)) :
      Does desk (.assign i name o) { desk with store := desk.store.setVariable ref o }
  | call {i : Nat} {name : String} {arguments : List Object} :
      Does desk (.call i name arguments) desk

variable {N : Natives} {desk desk' : Desk} {op : Operation} {i : Nat} {scope : Scope}
  {v : Variable} {g : Function} {name : String} {o : Object} {e : Trouble}

lemma outcome_scopeAt (i : Nat) :
    outcome (scopeAt i) desk = (desk.scopes[i]?.elim (.error .noSuchNumber) .ok, desk) := by
  unfold scopeAt numbered
  rw [outcome_bind, outcome_get]
  dsimp only
  cases desk.scopes[i]? <;> rfl

lemma outcome_resolve {α : Type} (result : Except NameError α) :
    outcome (resolve result) desk = (result.mapError Trouble.naming, desk) := by
  cases result <;> rfl

/-- A step on a scope that is given by number. -/
lemma outcome_scopeAt_bind {α : Type} {f : Scope → Work α} :
    outcome (scopeAt i >>= f) desk =
      desk.scopes[i]?.elim (.error .noSuchNumber, desk) fun scope => outcome (f scope) desk := by
  rw [outcome_bind, outcome_scopeAt]
  cases desk.scopes[i]? <;> rfl

lemma outcome_defineVariable :
    outcome (Script.defineVariable scope v) desk =
      ((desk.store.frame scope.frame).getVariable? v.name).elim
        (.ok (), { desk with store := desk.store.addVariable scope v })
        fun _ => (.error (.naming (.duplicateVariable v.name)), desk) := by
  unfold Script.defineVariable Store.defineVariable Store.variableConflict?
  rw [outcome_bind, outcome_get]
  dsimp only
  rw [outcome_bind, outcome_resolve]
  cases (desk.store.frame scope.frame).getVariable? v.name <;> rfl

lemma outcome_defineFunction :
    outcome (Script.defineFunction scope g) desk =
      ((desk.store.frame scope.frame).getFunction? g.name g.arity).elim
        (.ok (), { desk with store := desk.store.addFunction scope g })
        fun _ => (.error (.naming (.duplicateFunction g.name g.arity)), desk) := by
  unfold Script.defineFunction Store.defineFunction Store.functionConflict?
  rw [outcome_bind, outcome_get]
  dsimp only
  rw [outcome_bind, outcome_resolve]
  cases (desk.store.frame scope.frame).getFunction? g.name g.arity <;> rfl

lemma outcome_lookupVariable : outcome (Script.lookupVariable scope name) desk
    = ((desk.store.lookupVariable scope name).mapError .naming, desk) := by
  unfold Script.lookupVariable
  rw [outcome_bind, outcome_get]
  exact outcome_resolve _

lemma outcome_assign (desk : Desk) :
    (∃ e, outcome (Script.assign scope name o) desk = (.error e, desk)) ∨
      ∃ ref v, desk.store.findVariable? scope name = some (ref, v) ∧
        outcome (Script.assign scope name o) desk
          = (.ok { v with value := o }, { desk with store := desk.store.setVariable ref o }) := by
  unfold Script.assign
  rw [outcome_bind, outcome_lookupVariable]
  cases hfound : desk.store.lookupVariable scope name with
  | error e => exact .inl ⟨_, rfl⟩
  | ok found => exact .inr ⟨found.1, found.2, Store.findVariable?_of_lookup hfound, rfl⟩

/-- A native leaves the desk as it is if the functions of the host only print. -/
lemma desk_callNative (hN : N.OnlyPrint) {arguments : List Object} :
    (outcome (callNative N g arguments) desk).2 = desk := by
  unfold callNative
  cases g.body with
  | method m home => rfl
  | native n =>
    have hstore := hN.store_callNative n arguments Execution.maxCallDepth { store := desk.store }
    unfold outcome at hstore
    dsimp only
    rw [outcome_bind, outcome_get]
    dsimp only
    rw [hstore, outcome_bind, outcome_set]
    dsimp only
    split <;> rfl

/-- So does a call by name. -/
lemma desk_call (hN : N.OnlyPrint) {arguments : List Object} :
    (outcome (Script.call N scope name arguments) desk).2 = desk := by
  unfold Script.call
  rw [outcome_bind, outcome_get]
  dsimp only
  rw [outcome_bind, outcome_resolve]
  cases desk.store.lookupFunction scope name arguments.length with
  | error e => rfl
  | ok found =>
    exact desk_callNative hN

/-- An operation fails and leaves the desk as it is, or it does what it stands for. -/
theorem Operation.work_cases (hN : N.OnlyPrint) (op : Operation) (desk : Desk) :
    (∃ e, outcome (op.work N) desk = (.error e, desk)) ∨
      ∃ desk', outcome (op.work N) desk = (.ok (), desk') ∧ Does desk op desk' := by
  cases op with
  | enter parent =>
    cases parent with
    | none => exact .inr ⟨_, rfl, .enter .none⟩
    | some j =>
      unfold Operation.work
      dsimp only [Option.mapM]
      rw [map_eq_pure_bind, bind_assoc, outcome_scopeAt_bind]
      cases hj : desk.scopes[j]? with
      | none => exact .inl ⟨_, rfl⟩
      | some outer => exact .inr ⟨_, rfl, .enter (.some hj)⟩
  | defineVariable i v =>
    unfold Operation.work
    rw [outcome_scopeAt_bind]
    cases hi : desk.scopes[i]? with
    | none => exact .inl ⟨_, rfl⟩
    | some scope =>
      dsimp only [Option.elim]
      rw [outcome_defineVariable]
      cases hnew : (desk.store.frame scope.frame).getVariable? v.name with
      | none => exact .inr ⟨_, rfl, .defineVariable hi hnew⟩
      | some v' => exact .inl ⟨_, rfl⟩
  | defineFunction i g =>
    unfold Operation.work
    rw [outcome_scopeAt_bind]
    cases hi : desk.scopes[i]? with
    | none => exact .inl ⟨_, rfl⟩
    | some scope =>
      dsimp only [Option.elim]
      rw [outcome_defineFunction]
      cases hnew : (desk.store.frame scope.frame).getFunction? g.name g.arity with
      | none => exact .inr ⟨_, rfl, .defineFunction hi hnew⟩
      | some g' => exact .inl ⟨_, rfl⟩
  | assign i name o =>
    unfold Operation.work
    rw [outcome_scopeAt_bind]
    cases hi : desk.scopes[i]? with
    | none => exact .inl ⟨_, rfl⟩
    | some scope =>
      dsimp only [Option.elim]
      rw [outcome_bind]
      rcases outcome_assign desk with ⟨e, hfails⟩ | ⟨ref, v, hfound, hdoes⟩
      · exact .inl ⟨e, by rw [hfails]⟩
      · exact .inr ⟨_, by rw [hdoes]; rfl, .assign hi hfound⟩
  | call i name arguments =>
    unfold Operation.work
    rw [outcome_scopeAt_bind]
    cases hi : desk.scopes[i]? with
    | none => exact .inl ⟨_, rfl⟩
    | some scope =>
      dsimp only [Option.elim]
      rw [outcome_bind]
      -- Whatever a call does, the desk stays, as the functions of the host only print.
      have hsame : (outcome (Script.call N scope name arguments) desk).2 = desk := desk_call hN
      rcases hcall : outcome (Script.call N scope name arguments) desk with ⟨e | answer, desk₁⟩ <;>
        rw [hcall] at hsame <;> subst hsame
      · exact .inl ⟨e, rfl⟩
      · exact .inr ⟨_, rfl, .call⟩

/-- What is tried next changes nothing, or does what it stands for. -/
lemma Past.next_cases (hN : N.OnlyPrint) (p : Past) (op : Operation) :
    p.next N op = p ∨ ∃ desk', Does p.desk op desk' ∧ p.next N op = ⟨desk', p.done ++ [op]⟩ := by
  unfold Past.next
  rcases op.work_cases hN p.desk with ⟨e, hfails⟩ | ⟨desk', hdone, hdoes⟩
  · rw [hfails]
    exact .inl rfl
  · rw [hdone]
    exact .inr ⟨desk', hdoes, rfl⟩

/-- A scope is made inside any other. -/
lemma Operation.enter_ok {parent : Option Nat} (h : ∀ j ∈ parent, j < desk.scopes.size) :
    (outcome ((Operation.enter parent).work N) desk).1 = .ok () := by
  cases parent with
  | none => rfl
  | some j =>
    unfold Operation.work
    dsimp only [Option.mapM]
    rw [map_eq_pure_bind, bind_assoc, outcome_scopeAt_bind, Array.getElem?_eq_getElem (h j rfl)]
    rfl

/-- A variable is assigned to just if it is found. -/
lemma Operation.assign_ok_iff (hi : desk.scopes[i]? = some scope) :
    (outcome ((Operation.assign i name o).work N) desk).1 = .ok () ↔
      ∃ found, desk.store.lookupVariable scope name = .ok found := by
  rw [Operation.work, outcome_scopeAt_bind, hi]
  dsimp only [Option.elim]
  unfold Script.assign
  rw [outcome_bind, outcome_bind, outcome_lookupVariable]
  cases desk.store.lookupVariable scope name with
  | error e => simp [Except.mapError]
  | ok found => exact ⟨fun _ => ⟨found, rfl⟩, fun _ => rfl⟩

/-! ### Steps of scripts -/

/-- The operation that a step of a script is, if its types are known and its data are values. Other
steps look at scopes and objects only, or make an object. -/
def Step.operation? : Step → Option Operation
  | .enter parent => some (.enter parent)
  | .defineVariable i name jvmName typeName constant value => do
    let t ← (Ty.ofName typeName).toOption
    return .defineVariable i ⟨name, jvmName, t, constant, .of (← value.value?)⟩
  | .defineFunction i name jvmName parameters returns key => do
    let ts ← parameters.mapM fun name => (Ty.ofName name).toOption
    return .defineFunction i
      ⟨name, jvmName, ts, ← (Ty.ofName returns).toOption, .native (.host key)⟩
  | .setVariable i name value => do return .assign i name (.of (← value.value?))
  | .call i name arguments => do
    return .call i name (← arguments.mapM fun d => d.value?.map .of)
  | _ => none

/-- The part of a step reads something from the step itself. -/
def Reads {α : Type} (x : Work α) (a? : Option α) : Prop :=
  ∃ e, ∀ desk, outcome x desk = (a?.elim (.error e) .ok, desk)

lemma reads_valueOf (d : Datum) : Reads (valueOf d) d.value? := by
  refine ⟨.notAValue, fun desk => ?_⟩
  unfold valueOf
  cases d.value? <;> rfl

lemma reads_resolve {α : Type} (result : Except NameError α) :
    Reads (resolve result) result.toOption := by
  cases result with
  | error e => exact ⟨.naming e, fun _ => rfl⟩
  | ok a => exact ⟨.noSuchNumber, fun _ => rfl⟩

lemma Reads.bind {α β : Type} {x : Work α} {f : α → Work β} {a? : Option α} {f? : α → Option β}
    (hx : Reads x a?) (hf : ∀ a, Reads (f a) (f? a)) : Reads (x >>= f) (a? >>= f?) := by
  obtain ⟨e, hx⟩ := hx
  cases a? with
  | none => exact ⟨e, fun desk => by rw [outcome_bind, hx]; rfl⟩
  | some a =>
    obtain ⟨e', hf⟩ := hf a
    exact ⟨e', fun desk => by rw [outcome_bind, hx]; exact hf desk⟩

lemma Reads.pure {α : Type} (a : α) : Reads (Pure.pure a) (some a) :=
  ⟨.noSuchNumber, fun _ => rfl⟩

lemma Reads.mapM {α β : Type} {f : α → Work β} {f? : α → Option β} (hf : ∀ a, Reads (f a) (f? a))
    (as : List α) : Reads (as.mapM f) (as.mapM f?) := by
  induction as with
  | nil => exact .pure []
  | cons a as ih =>
    rw [List.mapM_cons, List.mapM_cons]
    exact (hf a).bind fun b => ih.bind fun bs => .pure (b :: bs)

lemma reads_objectsOf (ds : List Datum) :
    Reads (objectsOf ds) (ds.mapM fun d => d.value?.map .of) := by
  refine Reads.mapM (fun d => ?_) ds
  have h := (reads_valueOf d).bind fun v => Reads.pure (Object.of v)
  cases hv : d.value? with
  | none => rw [hv] at h; exact h
  | some v => rw [hv] at h; exact h

/-- What is read does not depend on the desk, and reading does not change it. -/
lemma Reads.outcome_bind {α β : Type} {x : Work α} {f : α → Work β} {a? : Option α} {a : α}
    (hx : Reads x a?) (ha : a? = some a) : outcome (x >>= f) desk = outcome (f a) desk := by
  obtain ⟨e, hx⟩ := hx
  rw [LetDef.outcome_bind, hx, ha]
  rfl

/-- The step leaves the desk as the operation does, and succeeds just if that does. -/
theorem Step.work_operation {step : Step} (h : step.operation? = some op) (desk : Desk) :
    outcome (op.work N) desk =
      ((outcome (step.work N) desk).1.map fun _ => (), (outcome (step.work N) desk).2) := by
  cases step with
  | enter parent =>
    cases h
    unfold Step.work Operation.work
    rw [outcome_bind, outcome_bind]
    rcases outcome (parent.mapM scopeAt) desk with ⟨_ | _, _⟩
    · rfl
    · rfl
  -- A step that stands for an operation reads its data first. They are read without fail, or there
  -- would be no operation.
  | defineVariable i name jvmName typeName constant value =>
    simp only [Step.operation?, Option.bind_eq_bind, Option.bind_eq_some_iff, Option.pure_def,
      Option.some.injEq] at h
    obtain ⟨t, ht, v, hv, rfl⟩ := h
    unfold Step.work Operation.work
    rw [outcome_scopeAt_bind, outcome_scopeAt_bind]
    cases desk.scopes[i]? with
    | none => rfl
    | some scope =>
      dsimp only [Option.elim]
      rw [(reads_resolve _).outcome_bind ht, (reads_valueOf _).outcome_bind hv, outcome_bind]
      rcases outcome (Script.defineVariable scope _) desk with ⟨_ | _, _⟩ <;> rfl
  | defineFunction i name jvmName parameters returns key =>
    simp only [Step.operation?, Option.bind_eq_bind, Option.bind_eq_some_iff, Option.pure_def,
      Option.some.injEq] at h
    obtain ⟨ts, hts, t, ht, rfl⟩ := h
    unfold Step.work Operation.work
    rw [outcome_scopeAt_bind, outcome_scopeAt_bind]
    cases desk.scopes[i]? with
    | none => rfl
    | some scope =>
      dsimp only [Option.elim]
      rw [(Reads.mapM (fun name => reads_resolve (Ty.ofName name)) parameters).outcome_bind hts,
        (reads_resolve _).outcome_bind ht, outcome_bind]
      rcases outcome (Script.defineFunction scope _) desk with ⟨_ | _, _⟩ <;> rfl
  | setVariable i name value =>
    simp only [Step.operation?, Option.bind_eq_bind, Option.bind_eq_some_iff, Option.pure_def,
      Option.some.injEq] at h
    obtain ⟨v, hv, rfl⟩ := h
    unfold Step.work Operation.work
    rw [outcome_scopeAt_bind, outcome_scopeAt_bind]
    cases desk.scopes[i]? with
    | none => rfl
    | some scope =>
      -- The step looks the variable up before it reads the datum, and the assignment does so again.
      dsimp only [Option.elim]
      rw [outcome_bind, outcome_bind, outcome_lookupVariable]
      cases hfound : desk.store.lookupVariable scope name with
      | error e =>
        have hassign : outcome (Script.assign scope name (.of v)) desk
            = (.error (.naming e), desk) := by
          unfold Script.assign
          rw [outcome_bind, outcome_lookupVariable, hfound]
          rfl
        rw [hassign]
        rfl
      | ok found =>
        dsimp only [Except.mapError]
        rw [(reads_valueOf _).outcome_bind hv, outcome_bind]
        rcases outcome (Script.assign scope name (.of v)) desk with ⟨_ | _, _⟩ <;> rfl
  | call i name arguments =>
    simp only [Step.operation?, Option.bind_eq_bind, Option.bind_eq_some_iff, Option.pure_def,
      Option.some.injEq] at h
    obtain ⟨objects, hobjects, rfl⟩ := h
    unfold Step.work Operation.work
    rw [(reads_objectsOf _).outcome_bind hobjects, outcome_scopeAt_bind, outcome_scopeAt_bind]
    cases desk.scopes[i]? with
    | none => rfl
    | some scope =>
      dsimp only [Option.elim]
      rw [outcome_bind, outcome_bind]
      rcases outcome (Script.call N scope name objects) desk with ⟨_ | _, _⟩ <;> rfl
  | _ => cases h

/-- Whatever the desk, the scopes and what is in them stay. -/
def Looks {α : Type} (x : Work α) : Prop :=
  ∀ desk, (outcome x desk).2.store = desk.store ∧ (outcome x desk).2.scopes = desk.scopes

lemma Looks.of_eq {α : Type} {x : Work α} (h : ∀ desk, (outcome x desk).2 = desk) : Looks x :=
  fun desk => by rw [h desk]; exact ⟨rfl, rfl⟩

lemma Looks.pure {α : Type} (a : α) : Looks (Pure.pure a) :=
  fun _ => ⟨rfl, rfl⟩

lemma Looks.bind {α β : Type} {x : Work α} {f : α → Work β} (hx : Looks x)
    (hf : ∀ a, Looks (f a)) : Looks (x >>= f) := by
  intro desk
  obtain ⟨hstore, hscopes⟩ := hx desk
  rw [outcome_bind]
  rcases hout : outcome x desk with ⟨e | a, desk₁⟩ <;> rw [hout] at hstore hscopes
  · exact ⟨hstore, hscopes⟩
  · exact ⟨(hf a desk₁).1.trans hstore, (hf a desk₁).2.trans hscopes⟩

lemma Reads.looks {α : Type} {x : Work α} {a? : Option α} (hx : Reads x a?) : Looks x := by
  obtain ⟨e, hx⟩ := hx
  exact .of_eq fun desk => by rw [hx]

/-- What follows is not done where nothing is read. -/
lemma Reads.looks_bind {α β : Type} {x : Work α} {f : α → Work β} {a? : Option α}
    (hx : Reads x a?) (ha : a? = none) : Looks (x >>= f) := by
  obtain ⟨e, hx⟩ := hx
  exact .of_eq fun desk => by rw [LetDef.outcome_bind, hx, ha]; rfl

lemma looks_get : Looks (get : Work Desk) :=
  fun _ => ⟨rfl, rfl⟩

lemma looks_scopeAt (i : Nat) : Looks (scopeAt i) :=
  .of_eq fun _ => by rw [outcome_scopeAt]

lemma looks_lookupVariable : Looks (Script.lookupVariable scope name) :=
  .of_eq fun _ => by rw [outcome_lookupVariable]

lemma looks_objectAt (i : Nat) : Looks (objectAt i) := by
  refine looks_get.bind fun desk => ?_
  unfold numbered
  cases desk.objects[i]? <;> exact fun _ => ⟨rfl, rfl⟩

/-- All other steps leave the scopes and what is in them, if the functions of the host only
print. -/
theorem Step.looks_work (hN : N.OnlyPrint) {step : Step} (h : step.operation? = none) :
    Looks (step.work N) := by
  cases step with
  | enter parent => cases h
  -- These four stand for no operation only if some data cannot be read, and fail there.
  | defineVariable i name jvmName typeName constant value =>
    refine (looks_scopeAt i).bind fun scope => ?_
    cases ht : (Ty.ofName typeName).toOption with
    | none => exact (reads_resolve _).looks_bind ht
    | some t =>
      refine (reads_resolve _).looks.bind fun _ => (reads_valueOf _).looks_bind ?_
      simpa [Step.operation?, ht, ← Option.eq_none_iff_forall_ne_some] using h
  | defineFunction i name jvmName parameters returns key =>
    refine (looks_scopeAt i).bind fun scope => ?_
    have hnames := Reads.mapM (fun name => reads_resolve (Ty.ofName name)) parameters
    cases hts : parameters.mapM fun name => (Ty.ofName name).toOption with
    | none => exact hnames.looks_bind hts
    | some ts =>
      refine hnames.looks.bind fun _ => (reads_resolve _).looks_bind ?_
      simpa [Step.operation?, hts, ← Option.eq_none_iff_forall_ne_some] using h
  | setVariable i name value =>
    refine (looks_scopeAt i).bind fun scope => (looks_lookupVariable).bind fun _ => ?_
    refine (reads_valueOf _).looks_bind ?_
    simpa [Step.operation?, ← Option.eq_none_iff_forall_ne_some] using h
  | call i name arguments =>
    refine (reads_objectsOf _).looks_bind ?_
    simpa [Step.operation?, ← Option.eq_none_iff_forall_ne_some] using h
  | getVariable i name =>
    exact (looks_scopeAt i).bind fun _ => looks_lookupVariable.bind fun _ => .pure _
  | getFunction i name arity =>
    refine looks_get.bind fun _ => (looks_scopeAt i).bind fun _ => ?_
    exact (reads_resolve _).looks.bind fun _ => .pure _
  | similarVariables i name limit | similarFunctions i name limit | describe i | dump i =>
    exact looks_get.bind fun _ => (looks_scopeAt i).bind fun _ => .pure _
  | makeObject i value =>
    refine (reads_valueOf _).looks.bind fun _ => (looks_scopeAt i).bind fun _ => ?_
    exact Looks.bind (fun _ => ⟨rfl, rfl⟩) fun _ => .pure _
  | getField i name =>
    refine looks_get.bind fun _ => (looks_objectAt i).bind fun _ => ?_
    exact (reads_resolve _).looks.bind fun _ => .pure _
  | callMethod i name arguments =>
    refine (reads_objectsOf _).looks.bind fun _ => (looks_objectAt i).bind fun _ => ?_
    refine looks_get.bind fun _ => (reads_resolve _).looks.bind fun _ => ?_
    exact (Looks.of_eq fun _ => desk_callNative hN).bind fun _ => .pure _

/-! ### Histories -/

/-- The scope, if any, in which an operation makes a scope. -/
def Operation.entered? : Operation → Option (Option Nat)
  | .enter parent => some parent
  | _ => none

/-- The scope around a scope. Scopes are numbered in the order in which they were made. -/
def parent? (done : List Operation) (i : Nat) : Option Nat :=
  (done.filterMap Operation.entered?)[i]?.join

/-- The second scope is the first or one of those around it. -/
def OnChain (done : List Operation) : Nat → Nat → Prop :=
  Relation.ReflTransGen fun i j => parent? done i = some j

/-- Going outward from a scope, the first that has the property. -/
inductive Nearest (done : List Operation) (P : Nat → Prop) : Nat → Nat → Prop
  | here {i : Nat} : P i → Nearest done P i i
  | outer {i j t : Nat} : ¬ P i → parent? done i = some j → Nearest done P j t → Nearest done P i t

/-- A variable of the name has been defined in the scope. -/
def DefinesVariable (done : List Operation) (name : String) (t : Nat) : Prop :=
  ∃ v, .defineVariable t v ∈ done ∧ v.name = name

/-- A function of the name and arity has been defined in the scope. -/
def DefinesFunction (done : List Operation) (name : String) (arity t : Nat) : Prop :=
  ∃ g, .defineFunction t g ∈ done ∧ g.name = name ∧ g.arity = arity

/-- After what has been done the operation puts an object into the variable of a scope: by defining
it, or by assigning through a scope from which the variable is the nearest. -/
def Writes (done : List Operation) (t : Nat) (name : String) (o : Object) : Operation → Prop
  | .defineVariable i v => i = t ∧ v.name = name ∧ v.value = o
  | .assign i name' o' => name' = name ∧ o' = o ∧ Nearest done (DefinesVariable done name) i t
  | _ => False

/-- The object is the last that was put into the variable of a scope. -/
def LastWritten (done : List Operation) (t : Nat) (name : String) (o : Object) : Prop :=
  ∃ before op later, done = before ++ op :: later ∧ Writes before t name o op ∧
    ∀ middle op' rest, later = middle ++ op' :: rest →
      ∀ o', ¬ Writes (before ++ op :: middle) t name o' op'

/-- The variable of a scope as it was defined, with the object that was put into it last. -/
def Holds (done : List Operation) (t : Nat) (name : String) (v : Variable) : Prop :=
  (∃ d, .defineVariable t d ∈ done ∧ d.name = name ∧ v = { d with value := v.value }) ∧
    LastWritten done t name v.value

variable {done : List Operation} {P Q : Nat → Prop} {j t u : Nat} {arity : Nat}

lemma Nearest.unique (h : Nearest done P i t) (h' : Nearest done P i u) : t = u := by
  induction h with
  | here hi =>
    cases h' with
    | here _ => rfl
    | outer hnot _ _ => exact absurd hi hnot
  | outer hnot hparent _ ih =>
    cases h' with
    | here hi => exact absurd hi hnot
    | outer _ hparent' hnear =>
      rw [hparent] at hparent'
      cases hparent'
      exact ih hnear

lemma Nearest.holds (h : Nearest done P i t) : P t := by
  induction h with
  | here hi => exact hi
  | outer _ _ _ ih => exact ih

/-- A scope on the chain with the property is not passed by. -/
lemma OnChain.exists_nearest (h : OnChain done i t) (ht : P t) : ∃ u, Nearest done P i u := by
  classical
  induction h using Relation.ReflTransGen.head_induction_on with
  | refl => exact ⟨t, .here ht⟩
  | @head a c hstep _ ih =>
    obtain ⟨u, hu⟩ := ih
    by_cases ha : P a
    · exact ⟨a, .here ha⟩
    · exact ⟨u, .outer ha hstep hu⟩

lemma Nearest.onChain (h : Nearest done P i t) : OnChain done i t := by
  induction h with
  | here _ => exact .refl
  | outer _ hparent _ ih => exact .head hparent ih

/-- Of two properties the nearest scope with either has one of them and none before it has. -/
lemma Nearest.of_or (h : Nearest done (fun u => P u ∨ Q u) i t) (ht : ¬ P t) :
    Nearest done Q i t := by
  induction h with
  | here hi => exact .here (hi.resolve_left ht)
  | outer hnot hparent _ ih => exact .outer (fun hq => hnot (.inr hq)) hparent (ih ht)

lemma parent?_append_of_lt (h : i < (done.filterMap Operation.entered?).length) :
    parent? (done ++ [op]) i = parent? done i := by
  unfold parent?
  rw [List.filterMap_append, List.getElem?_append_left h]

lemma parent?_append_enter (parent : Option Nat) :
    parent? (done ++ [.enter parent]) (done.filterMap Operation.entered?).length = parent := by
  unfold parent?
  rw [List.filterMap_append, List.getElem?_append_right (Nat.le_refl _), Nat.sub_self]
  rfl

lemma parent?_append (h : op.entered? = none) : parent? (done ++ [op]) = parent? done := by
  unfold parent?
  rw [List.filterMap_append, List.filterMap_cons_none h, List.filterMap_nil, List.append_nil]

/-- The nearest scope is looked for among scopes and not among what has been done. -/
lemma nearest_congr {done' : List Operation} (hparent : parent? done' = parent? done)
    (h : ∀ t, P t ↔ Q t) : Nearest done' P i t ↔ Nearest done Q i t := by
  rw [funext fun t => propext (h t)]
  constructor <;> intro hnear
  · induction hnear with
    | here hi => exact .here hi
    | outer hnot hj _ ih => exact .outer hnot (hparent ▸ hj) ih
  · induction hnear with
    | here hi => exact .here hi
    | outer hnot hj _ ih => exact .outer hnot (hparent ▸ hj) ih

lemma definesVariable_append :
    DefinesVariable (done ++ [op]) name t ↔
      DefinesVariable done name t ∨ ∃ v, op = .defineVariable t v ∧ v.name = name := by
  unfold DefinesVariable
  simp only [List.mem_append, List.mem_singleton, or_and_right, exists_or, @eq_comm _ op]

lemma definesVariable_append_of_ne (hop : ∀ v, op ≠ .defineVariable t v) :
    DefinesVariable (done ++ [op]) name t ↔ DefinesVariable done name t := by
  rw [definesVariable_append, or_iff_left]
  rintro ⟨v, rfl, _⟩
  exact hop v rfl

lemma definesFunction_append :
    DefinesFunction (done ++ [op]) name arity t ↔ DefinesFunction done name arity t ∨
      ∃ g, op = .defineFunction t g ∧ g.name = name ∧ g.arity = arity := by
  unfold DefinesFunction
  simp only [List.mem_append, List.mem_singleton, or_and_right, exists_or, @eq_comm _ op]

lemma LastWritten.of_writes (h : Writes done t name o op) : LastWritten (done ++ [op]) t name o :=
  ⟨done, op, [], rfl, h, fun _ _ _ heq => by simp at heq⟩

/-- An operation that writes elsewhere leaves what was written last. -/
lemma LastWritten.append (h : LastWritten done t name o) (hop : ∀ o', ¬ Writes done t name o' op) :
    LastWritten (done ++ [op]) t name o := by
  obtain ⟨before, first, later, rfl, hwrites, hlast⟩ := h
  refine ⟨before, first, later ++ [op], by simp, hwrites, ?_⟩
  intro middle op' rest heq o'
  rcases List.eq_nil_or_concat rest with rfl | ⟨rest', last, rfl⟩
  · obtain ⟨rfl, hsame⟩ := List.append_inj' heq rfl
    cases hsame
    exact hop o'
  · have hsplit : later ++ [op] = (middle ++ op' :: rest') ++ [last] := by simpa using heq
    obtain ⟨hlater, _⟩ := List.append_inj' hsplit rfl
    exact hlast middle op' rest' hlater o'

/-- So does it leave what the variable holds. -/
lemma Holds.append (h : Holds done t name v) (hop : ∀ o', ¬ Writes done t name o' op) :
    Holds (done ++ [op]) t name v := by
  obtain ⟨⟨d, hd, hname, hv⟩, hlast⟩ := h
  exact ⟨⟨d, List.mem_append_left _ hd, hname, hv⟩, hlast.append hop⟩

end LetDef.Script
