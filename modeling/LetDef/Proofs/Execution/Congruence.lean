import LetDef.Proofs.Execution.Step

/-!
# Relations between runs

Many facts compare two runs, or say something about one, and are kept by every way in which the
rules of a run put steps together. A `Congruence` is a relation between steps that is kept in this
sense. Evaluation is gone through once, here: whatever relation the steps are in, evaluation is in
it at every depth. The two runs may differ in fuel, and the second may have `extra` depth. What the
functions of the host do has to be in the relation too.

A fact about a single run is a relation that does not look at its second step.
-/

namespace LetDef.Execution

/-- The cause is not the wrong number of arguments. -/
def Cause.Plain (c : Cause) : Prop :=
  ∀ name expected received, c ≠ .wrongArity name expected received

/-- A relation between steps that is kept by all that the rules of a run are made of. `Met g n`
tells that a call with `n` arguments may come across the function `g`. -/
structure Congruence (N : Natives) (extra : Nat) (R : (α : Type) → Run α → Run α → Prop)
    (Met : Function → Nat → Prop) : Prop where
  pure {α : Type} (a : α) : R α (pure a) (pure a)
  bind {α β : Type} {x y : Run α} {f g : α → Run β} :
    R α x y → (∀ a, R β (f a) (g a)) → R β (x >>= f) (y >>= g)
  fail {α : Type} (site : Site) {c : Cause} : c.Plain → R α (fail site c) (fail site c)
  tooManyDigits {α : Type} : R α (throw .tooManyDigits) (throw .tooManyDigits)
  notAValue {α : Type} : R α (throw .notAValue) (throw .notAValue)
  overflow {α : Type} {operator : String} {left right v : Value} :
    operate operator left right = .ok v → v.confine? = none →
    R α (throw (.overflow operator)) (throw (.overflow operator))
  note (e : Event) : R Unit (note e) (note e)
  enter (scope : Scope) : R Scope (enter scope) (enter scope)
  addVariable (site : Site) (origin : Origin) (scope : Scope) (v : Variable) :
    R Unit (addVariable site origin scope v) (addVariable site origin scope v)
  /-- A variable is read. -/
  lookupField (site : Site) (members : Option Scope) (name : String) :
    R _ (lookup site fun s => s.lookupField members name)
      (lookup site fun s => s.lookupField members name)
  /-- A variable of an owner is found and put an object into, with nothing in between. -/
  store {x y : Run Object} (site site' : Site) (scope : Scope) (access : Node) (name : String)
    (o : Object) : R Object x y →
    R Unit
      (resolving site (x >>= fun owner => consult fun s => s.lookupField owner.members name) >>=
        fun found => store site' scope access found.1 found.2 o)
      (resolving site (y >>= fun owner => consult fun s => s.lookupField owner.members name) >>=
        fun found => store site' scope access found.1 found.2 o)
  /-- A function is looked up for a call by name. -/
  lookupFunction {α : Type} {f g : Function → Run α} (site : Site) (scope : Scope) (name : String)
    (arity : Nat) : (∀ h, Met h arity → R α (f h) (g h)) →
    R α (lookup site (fun s => s.lookupFunction scope name arity) >>= fun found => f found.2)
      (lookup site (fun s => s.lookupFunction scope name arity) >>= fun found => g found.2)
  /-- A method is looked up for a call on a receiver, which is part of what is resolved. -/
  lookupMethod {α : Type} {f g : Function → Run α} (site : Site) (members : Option Scope)
    (name : String) (arity : Nat) : (∀ h, Met h arity → R α (f h) (g h)) →
    R α
      (resolving site
        (consult (fun s => s.lookupMethod members name arity) >>= fun found => f found.2))
      (resolving site
        (consult (fun s => s.lookupMethod members name arity) >>= fun found => g found.2))
  callNative {h : Function} {n : Native} {objects : List Object} (depth : Nat) :
    Met h objects.length → h.body = .native n →
    R Object (callNative N n objects depth) (callNative N n objects (extra + depth))
  /-- A method is called with another number of arguments than it has parameters. -/
  wrongArity {α : Type} {h : Function} {m : Method} {home : Scope} {objects : List Object} :
    Met h objects.length → h.body = .method m home → objects.length ≠ m.parameters.length →
    R α (Execution.fail m.site (.wrongArity m.name m.parameters.length objects.length))
      (Execution.fail m.site (.wrongArity m.name m.parameters.length objects.length))

/-- A relation that is kept also by the steps that only a program as a whole takes. -/
structure ProgramCongruence (N : Natives) (extra : Nat) (R : (α : Type) → Run α → Run α → Prop)
    (Met : Function → Nat → Prop) : Prop extends Congruence N extra R Met where
  addFunction (globals : Scope) (m : Method) :
    R Unit (addFunction m.site globals (methodFunction globals m))
      (addFunction m.site globals (methodFunction globals m))
  findMain {α : Type} {f g : Function → Run α} (globals : Scope) (site : Site) :
    (∀ h, Met h 0 → R α (f h) (g h)) →
    R α (findMain globals site >>= f) (findMain globals site >>= g)

/-- The rules of two runs are related, nested to their depths. -/
structure RelatedAt (N : Natives) (R : (α : Type) → Run α → Run α → Prop)
    (Met : Function → Nat → Prop) (fuel depth fuel' depth' : Nat) : Prop where
  evaluate (scope : Scope) (n : Node) :
    R _ (evaluate N fuel scope n depth) (evaluate N fuel' scope n depth')
  operation (scope : Scope) (mark : Mark) (operator : String) (left right : Node) :
    R _ (operation N fuel scope mark operator left right depth)
      (operation N fuel' scope mark operator left right depth')
  condition (scope : Scope) (n : Node) :
    R _ (condition N fuel scope n depth) (condition N fuel' scope n depth')
  arguments (scope : Scope) (ns : List Node) :
    R _ (arguments N fuel scope ns depth) (arguments N fuel' scope ns depth')
  call (scope : Scope) (mark : Mark) (receiver : Node) (name : String) (ns : List Node) :
    R _ (call N fuel scope mark receiver name ns depth)
      (call N fuel' scope mark receiver name ns depth')
  invoke {g : Function} {objects : List Object} : Met g objects.length →
    R _ (invoke N fuel g objects depth) (invoke N fuel' g objects depth')
  block (scope : Scope) (body : List Node) :
    R _ (block N fuel scope body depth) (block N fuel' scope body depth')
  execute (scope : Scope) (n : Node) :
    R _ (execute N fuel scope n depth) (execute N fuel' scope n depth')
  assign (scope : Scope) (mark : Mark) (receiver value : Node) :
    R _ (assign N fuel scope mark receiver value depth)
      (assign N fuel' scope mark receiver value depth')
  forLoop (scope : Scope) (mark : Mark) (first c last : Node) (body : List Node) :
    R _ (forLoop N fuel scope mark first c last body depth)
      (forLoop N fuel' scope mark first c last body depth')

/-- The relation holds where two runs stop for want of fuel or depth. -/
structure RelatesLimits (R : (α : Type) → Run α → Run α → Prop) : Prop where
  fuel : R (Option Object) (throw .outOfFuel) (throw .outOfFuel)
  depth {α : Type} : R α tooDeep tooDeep

/-- Loops of related parts are related, with fuel as given. -/
def RelatesLoops (R : (α : Type) → Run α → Run α → Prop) (fuel fuel' : Nat) : Prop :=
  ∀ ⦃c c' : Run Bool⦄ ⦃b b' : Run (Option Object)⦄, R _ c c' → R _ b b' →
    R _ (repeatWhile c b fuel) (repeatWhile c' b' fuel')

lemma plain_of_integerOperation {operator : String} {a b : Int} {c : Cause}
    (h : integerOperation operator a b = .error (.cause c)) : c.Plain := by
  unfold integerOperation at h
  grind [Cause.Plain]

lemma plain_of_decimalOperation {operator : String} {a b : Decimal} {c : Cause}
    (h : decimalOperation operator a b = .error (.cause c)) : c.Plain := by
  unfold decimalOperation at h
  cases hdiv : a.div? b <;> grind [Cause.Plain]

lemma plain_of_operate {operator : String} {left right : Value} {c : Cause}
    (h : operate operator left right = .error (.cause c)) : c.Plain := by
  unfold operate at h
  grind [Cause.Plain, join, plain_of_integerOperation, plain_of_decimalOperation]

lemma related_ite {R : (α : Type) → Run α → Run α → Prop} {α : Type} {p : Prop} [Decidable p]
    {x y x' y' : Run α} (hx : R α x x') (hy : R α y y') :
    R α (if p then x else y) (if p then x' else y') := by
  split
  · exact hx
  · exact hy

namespace Congruence

variable {N : Natives} {extra : Nat} {R : (α : Type) → Run α → Run α → Prop}
  {Met : Function → Nat → Prop} {α β : Type} {fuel depth fuel' depth' : Nat} {scope : Scope}
  {mark : Mark} {name : String} {n : Node}

section

variable (h : Congruence N extra R Met)

include h

/-! ### Building steps -/

lemma recording {event : α → Event} {x y : Run α} (hx : R α x y) :
    R α (recording event x) (recording event y) :=
  h.bind hx fun a => h.bind (h.note _) fun _ => h.pure a

lemma mapM {f g : β → Run α} (hf : ∀ b, R α (f b) (g b)) (bs : List β) :
    R _ (bs.mapM f) (bs.mapM g) := by
  induction bs with
  | nil => exact h.pure []
  | cons b bs ih =>
    rw [List.mapM_cons, List.mapM_cons]
    exact h.bind (hf b) fun a => h.bind ih fun as => h.pure (a :: as)

lemma forM {f g : β → Run PUnit} (hf : ∀ b, R _ (f b) (g b)) (bs : List β) :
    R _ (bs.forM f) (bs.forM g) := by
  induction bs with
  | nil => exact h.pure PUnit.unit
  | cons b bs ih => exact h.bind (hf b) fun _ => ih

lemma executeAll {f g : Node → Run (Option Object)} (hf : ∀ n, R _ (f n) (g n)) (ns : List Node) :
    R _ (executeAll f ns) (executeAll g ns) := by
  induction ns with
  | nil => exact h.pure none
  | cons n ns ih =>
    refine h.bind (hf n) fun r => ?_
    cases r with
    | some o => exact h.pure _
    | none => exact ih

lemma bindParameters {m : Method} (position : Nat) (objects : List (String × Object)) :
    R _ (bindParameters m scope position objects) (bindParameters m scope position objects) := by
  induction objects generalizing position with
  | nil => exact h.pure ()
  | cons o rest ih => exact h.bind (h.addVariable _ _ _ _) fun _ => ih _

lemma operateAt {site : Site} {operator : String} {left right : Object} :
    R _ (operateAt site operator left right) (operateAt site operator left right) := by
  unfold Execution.operateAt
  split
  · rename_i hv
    split
    · exact h.pure _
    · rename_i hlarge
      exact h.overflow hv hlarge
  · rename_i hc
    exact h.fail site (plain_of_operate hc)
  · exact h.tooManyDigits

/-! ### Evaluation -/

lemma evaluate_succ (ih : RelatedAt N R Met fuel depth fuel' depth') :
    R _ (evaluate N fuel scope n (depth + 1)) (evaluate N fuel' scope n (depth' + 1)) := by
  rw [evaluate.eq_def, evaluate.eq_def N fuel']
  refine h.recording ?_
  cases n with
  | literal _ value _ =>
    dsimp only
    split
    · exact h.pure _
    · exact h.notAValue
  | group _ body => exact ih.evaluate scope body
  | binary mark operator left right => exact ih.operation scope mark operator left right
  | access mark receiver name =>
    dsimp only
    split
    · refine h.bind (h.lookupField _ (some scope) name) fun _ => ?_
      exact h.bind (h.note _) fun _ => h.pure _
    · refine h.bind (ih.evaluate scope receiver) fun o => ?_
      refine h.bind (h.lookupField _ o.members name) fun _ => ?_
      exact h.bind (h.note _) fun _ => h.pure _
  | call mark receiver name ns => exact ih.call scope mark receiver name ns
  | _ => exact h.fail _ (by simp [Cause.Plain])

lemma operation_succ (ih : RelatedAt N R Met fuel depth fuel' depth') {operator : String}
    {left right : Node} :
    R _ (operation N fuel scope mark operator left right (depth + 1))
      (operation N fuel' scope mark operator left right (depth' + 1)) := by
  rw [operation, operation]
  refine related_ite ?_ (related_ite ?_ ?_)
  · refine h.bind (ih.condition scope left) fun holds => related_ite ?_ (h.pure _)
    exact h.bind (ih.condition scope right) fun _ => h.pure _
  · refine h.bind (ih.condition scope left) fun holds => related_ite (h.pure _) ?_
    exact h.bind (ih.condition scope right) fun _ => h.pure _
  · refine h.bind (ih.evaluate scope left) fun l => ?_
    exact h.bind (ih.evaluate scope right) fun r => h.operateAt

lemma condition_succ (ih : RelatedAt N R Met fuel depth fuel' depth') :
    R _ (condition N fuel scope n (depth + 1)) (condition N fuel' scope n (depth' + 1)) := by
  rw [condition, condition]
  refine h.bind (ih.evaluate scope n) fun o => ?_
  split
  · exact h.pure _
  · exact h.fail _ (by simp [Cause.Plain])

lemma call_succ (ih : RelatedAt N R Met fuel depth fuel' depth') {receiver : Node}
    {ns : List Node} :
    R _ (call N fuel scope mark receiver name ns (depth + 1))
      (call N fuel' scope mark receiver name ns (depth' + 1)) := by
  rw [call.eq_def, call.eq_def N fuel']
  refine h.bind (ih.arguments scope ns) fun objects => ?_
  split
  · refine h.lookupFunction _ scope name objects.length
      (f := fun g => do
        Execution.note (.called scope (.call mark .absent name ns) g)
        invoke N fuel g objects depth)
      (g := fun g => do
        Execution.note (.called scope (.call mark .absent name ns) g)
        invoke N fuel' g objects depth') fun g hg => ?_
    exact h.bind (h.note _) fun _ => ih.invoke hg
  · refine h.bind (ih.evaluate scope receiver) fun o => ?_
    refine h.lookupMethod _ o.members name (objects.length + 1)
      (f := fun g => invoke N fuel g (o :: objects) depth)
      (g := fun g => invoke N fuel' g (o :: objects) depth') fun g hg => ?_
    exact ih.invoke hg

lemma invoke_succ (ih : RelatedAt N R Met fuel depth fuel' (extra + depth)) {g : Function}
    {objects : List Object} (hg : Met g objects.length) :
    R _ (invoke N fuel g objects (depth + 2)) (invoke N fuel' g objects (extra + depth + 2)) := by
  rw [invoke, invoke]
  split
  · rename_i hbody
    exact h.callNative depth hg hbody
  · rename_i m home hbody
    have hcall : ∀ scope, R Object
        (do
          Execution.bindParameters m scope 0 (m.parameters.zip objects)
          return (← block N fuel scope m.body depth).getD .unset)
        (do
          Execution.bindParameters m scope 0 (m.parameters.zip objects)
          return (← block N fuel' scope m.body (extra + depth)).getD .unset) := fun scope =>
      h.bind (h.bindParameters 0 _) fun _ => h.bind (ih.block scope m.body) fun _ => h.pure _
    refine h.recording ?_
    by_cases hlength : objects.length ≠ m.parameters.length
    · rw [if_pos hlength, if_pos hlength]
      exact h.bind (h.wrongArity hg hbody hlength) fun _ => h.bind (h.enter home) hcall
    · rw [if_neg hlength, if_neg hlength]
      exact h.bind (h.enter home) hcall

/-- A block in a scope of its own. -/
lemma inner (ih : RelatedAt N R Met fuel depth fuel' depth') (body : List Node) :
    R _ (do block N fuel (← Execution.enter scope) body depth)
      (do block N fuel' (← Execution.enter scope) body depth') :=
  h.bind (h.enter scope) fun scope => ih.block scope body

lemma execute_succ (ih : RelatedAt N R Met fuel depth fuel' depth')
    (hloops : RelatesLoops R fuel fuel') :
    R _ (execute N fuel scope n (depth + 1)) (execute N fuel' scope n (depth' + 1)) := by
  rw [execute.eq_def, execute.eq_def N fuel']
  cases n with
  | perform _ e => exact h.bind (ih.evaluate scope e) fun _ => h.pure _
  | declare mark name typeName value =>
    refine related_ite ?_ ?_
    · refine h.bind (ih.evaluate scope value) fun o => ?_
      exact h.bind (h.addVariable _ _ _ _) fun _ => h.pure _
    · refine h.bind (h.pure _) fun o => ?_
      exact h.bind (h.addVariable _ _ _ _) fun _ => h.pure _
  | assign mark receiver value =>
    exact h.bind (ih.assign scope mark receiver value) fun _ => h.pure _
  | branch _ c thenBody elseBody => exact h.bind (ih.condition scope c) fun _ => h.inner ih _
  | forLoop mark first c last body => exact ih.forLoop scope mark first c last body
  | whileLoop _ c body =>
    refine h.bind (h.enter scope) fun loop => ?_
    exact hloops (ih.condition loop c) (h.inner ih body)
  | giveBack _ value => exact h.bind (ih.evaluate scope value) fun _ => h.pure _
  | _ => exact h.fail _ (by simp [Cause.Plain])

lemma assign_succ (ih : RelatedAt N R Met fuel depth fuel' depth') {receiver value : Node} :
    R _ (assign N fuel scope mark receiver value (depth + 1))
      (assign N fuel' scope mark receiver value (depth' + 1)) := by
  rw [assign.eq_def, assign.eq_def N fuel']
  cases receiver with
  | access m owner name =>
    refine h.bind (ih.evaluate scope value) fun o => ?_
    dsimp only
    split
    · exact h.store _ _ scope _ name o (h.pure ⟨.nil, some scope⟩)
    · exact h.store _ _ scope _ name o (ih.evaluate scope owner)
  | _ => exact h.fail _ (by simp [Cause.Plain])

/-- A step that is refused under a condition. -/
lemma refused {p : Prop} [Decidable p] {site : Site} {c : Cause} {x y : Run α} (hc : c.Plain)
    (hx : R α x y) :
    R α
      (if p then (do
        Execution.fail site c
        x) else x)
      (if p then (do
        Execution.fail site c
        y) else y) :=
  related_ite (h.bind (h.fail site hc) fun _ => hx) hx

/-- A clause of a loop is executed if there is one, and then the rest. -/
lemma clause (ih : RelatedAt N R Met fuel depth fuel' depth') {x y : Run α} (hx : R α x y) :
    R α
      (if n.isPresent = true then (do
        let _ ← execute N fuel scope n depth
        x) else x)
      (if n.isPresent = true then (do
        let _ ← execute N fuel' scope n depth'
        y) else y) :=
  related_ite (h.bind (ih.execute scope n) fun _ => hx) hx

lemma forLoop_succ (ih : RelatedAt N R Met fuel depth fuel' depth')
    (hloops : RelatesLoops R fuel fuel') {first c last : Node} {body : List Node} :
    R _ (forLoop N fuel scope mark first c last body (depth + 1))
      (forLoop N fuel' scope mark first c last body (depth' + 1)) := by
  rw [forLoop, forLoop]
  refine h.bind (h.enter scope) fun loop => h.clause ih ?_
  refine h.refused (by simp [Cause.Plain]) (hloops (ih.condition loop c) ?_)
  refine h.bind (h.enter loop) fun inner => h.bind (ih.block inner body) fun r => ?_
  cases r with
  | some o => exact h.pure _
  | none => exact h.clause ih (h.pure _)

/-- Related at the depth below, the rules are related. An invocation takes two units, so it rests on
the rules two levels below. -/
lemma relatedAt_succ (hloops : RelatesLoops R fuel fuel')
    (ih : RelatedAt N R Met fuel depth fuel' depth')
    (hinvoke : ∀ {g objects}, Met g objects.length →
      R _ (invoke N fuel g objects (depth + 1)) (invoke N fuel' g objects (depth' + 1))) :
    RelatedAt N R Met fuel (depth + 1) fuel' (depth' + 1) where
  evaluate _ _ := h.evaluate_succ ih
  operation _ _ _ _ _ := h.operation_succ ih
  condition _ _ := h.condition_succ ih
  arguments scope ns := by
    rw [arguments, arguments]
    exact h.mapM (ih.evaluate scope) ns
  call _ _ _ _ _ := h.call_succ ih
  invoke := hinvoke
  block scope body := by
    rw [block, block]
    exact h.executeAll (ih.execute scope) body
  execute _ _ := h.execute_succ ih hloops
  assign _ _ _ _ := h.assign_succ ih
  forLoop _ _ _ _ _ _ := h.forLoop_succ ih hloops

/-- Evaluation is related at every depth, if it is where the first run has no depth left. -/
theorem relatedAt (hloops : RelatesLoops R fuel fuel')
    (hzero : RelatedAt N R Met fuel 0 fuel' extra)
    (hone : ∀ {g objects}, Met g objects.length →
      R _ (invoke N fuel g objects 1) (invoke N fuel' g objects (extra + 1))) (depth : Nat) :
    RelatedAt N R Met fuel depth fuel' (extra + depth) := by
  induction depth using Nat.strongRecOn with
  | ind depth ih =>
    cases depth with
    | zero => exact hzero
    | succ depth =>
      refine h.relatedAt_succ hloops (ih depth (by omega)) fun hg => ?_
      cases depth with
      | zero => exact hone hg
      | succ depth => exact h.invoke_succ (ih depth (by omega)) hg

/-! ### Runs that differ in nothing but their steps -/

lemma repeatWhile (hlimits : RelatesLimits R) (fuel : Nat) : RelatesLoops R fuel fuel := by
  intro c c' b b' hc hb
  induction fuel with
  | zero => exact hlimits.fuel
  | succ fuel ih =>
    refine h.bind hc fun holds => related_ite (h.bind hb fun r => ?_) (h.pure _)
    cases r with
    | some o => exact h.pure _
    | none => exact ih

lemma bindField_succ (hat : RelatedAt N R Met fuel depth fuel' depth') (globals : Scope)
    (f : Field) :
    R _ (bindField N fuel globals f (depth + 1)) (bindField N fuel' globals f (depth' + 1)) := by
  rw [bindField, bindField]
  refine related_ite ?_ ?_
  · exact h.bind (hat.evaluate globals f.value) fun _ => h.addVariable _ _ _ _
  · exact h.bind (h.pure _) fun _ => h.addVariable _ _ _ _

end

section

variable (h : Congruence N 0 R Met)

include h

/-- At the same depth and with the same fuel evaluation is related, if it is where it has to
stop. -/
theorem relatedAt_self (hlimits : RelatesLimits R) (fuel depth : Nat) :
    RelatedAt N R Met fuel depth fuel depth := by
  have hzero : RelatedAt N R Met fuel 0 fuel 0 := by
    constructor <;> intros <;> exact hlimits.depth
  have hat := h.relatedAt (h.repeatWhile hlimits fuel) hzero (fun _ => hlimits.depth) depth
  rwa [Nat.zero_add] at hat

lemma bindField_self (hlimits : RelatesLimits R) (fuel depth : Nat) (globals : Scope) (f : Field) :
    R _ (bindField N fuel globals f depth) (bindField N fuel globals f depth) := by
  cases depth with
  | zero => exact hlimits.depth
  | succ depth => exact h.bindField_succ (h.relatedAt_self hlimits fuel depth) globals f

end

end Congruence

/-! ### Programs -/

namespace ProgramCongruence

variable {N : Natives} {extra : Nat} {R : (α : Type) → Run α → Run α → Prop}
  {Met : Function → Nat → Prop} {fuel depth fuel' depth' : Nat}

lemma program (h : ProgramCongruence N extra R Met)
    (hat : RelatedAt N R Met fuel depth fuel' depth')
    (hfields : ∀ globals f,
      R _ (bindField N fuel globals f depth) (bindField N fuel' globals f depth'))
    (globals : Scope) (p : Program) :
    R _ (program N fuel depth globals p) (program N fuel' depth' globals p) := by
  unfold Execution.program
  refine h.bind (h.forM (hfields globals) p.fields) fun _ => ?_
  refine h.bind (h.forM (h.addFunction globals) p.methods) fun _ => ?_
  exact h.findMain globals p.site fun g hg => hat.invoke hg

/-- A program is related to itself if evaluation is where it has to stop. -/
theorem program_self (h : ProgramCongruence N 0 R Met) (hlimits : RelatesLimits R)
    (fuel depth : Nat) (globals : Scope) (p : Program) :
    R _ (Execution.program N fuel depth globals p) (Execution.program N fuel depth globals p) :=
  h.program (h.relatedAt_self hlimits fuel depth) (h.bindField_self hlimits fuel depth) globals p

end ProgramCongruence

/-! ### Relations that hold of every stop -/

/-- The functions of the host do what is in the relation, where the second run has extra depth. -/
def Natives.Related (N : Natives) (extra : Nat) (R : (α : Type) → Run α → Run α → Prop) : Prop :=
  ∀ key objects depth, R Object (N.call key objects depth) (N.call key objects (extra + depth))

/-- A relation that is kept by steps however they stop. To find a name and to make a fault of one
that is not found are then separate steps. -/
structure Indifferent (R : (α : Type) → Run α → Run α → Prop) : Prop where
  pure {α : Type} (a : α) : R α (pure a) (pure a)
  bind {α β : Type} {x y : Run α} {f g : α → Run β} :
    R α x y → (∀ a, R β (f a) (g a)) → R β (x >>= f) (y >>= g)
  throw {α : Type} (halt : Halt) : R α (throw halt) (throw halt)
  resolving {α : Type} {x y : Run α} (site : Site) :
    R α x y → R α (resolving site x) (resolving site y)
  note (e : Event) : R Unit (note e) (note e)
  enter (scope : Scope) : R Scope (enter scope) (enter scope)
  printLine (line : String) : R Unit (printLine line) (printLine line)
  newVariable (origin : Origin) (scope : Scope) (v : Variable) :
    R Unit (newVariable origin scope v) (newVariable origin scope v)
  lookupField (members : Option Scope) (name : String) :
    R _ (consult fun s => s.lookupField members name) (consult fun s => s.lookupField members name)
  lookupMethod (members : Option Scope) (name : String) (arity : Nat) :
    R _ (consult fun s => s.lookupMethod members name arity)
      (consult fun s => s.lookupMethod members name arity)
  /-- A variable is found and put an object into. -/
  store (site site' : Site) (scope : Scope) (access : Node) (members : Option Scope) (name : String)
    (o : Object) :
    R Unit
      (lookup site (fun s => s.lookupField members name) >>= fun found =>
        store site' scope access found.1 found.2 o)
      (lookup site (fun s => s.lookupField members name) >>= fun found =>
        store site' scope access found.1 found.2 o)

namespace Indifferent

variable {N : Natives} {extra : Nat} {R : (α : Type) → Run α → Run α → Prop} (h : Indifferent R)

include h

lemma render (v : Value) : R _ (render v) (render v) := by
  unfold Execution.render
  cases v.render? with
  | some s => exact h.pure s
  | none => exact h.throw _

lemma firstOf (objects : List Object) : R _ (firstOf objects) (firstOf objects) := by
  cases objects with
  | nil => exact h.throw _
  | cons o _ => exact h.pure o

/-- The natives are related if the functions of the host are. -/
lemma callNative (hN : N.Related extra R) (n : Native) (objects : List Object) (depth : Nat) :
    R _ (callNative N n objects depth) (callNative N n objects (extra + depth)) := by
  cases n with
  | nothing => exact h.pure _
  | print =>
    refine h.bind (h.firstOf objects) fun o => h.bind (h.render o.value) fun line => ?_
    exact h.bind (h.printLine line) fun _ => h.pure _
  | host key => exact hN key objects depth

/-- Such a relation is a congruence, whatever functions are met. -/
theorem congruence (hN : N.Related extra R) : Congruence N extra R fun _ _ => True where
  pure := h.pure
  bind := h.bind
  fail _ _ _ := h.throw _
  tooManyDigits := h.throw _
  notAValue := h.throw _
  overflow _ _ := h.throw _
  note := h.note
  enter := h.enter
  addVariable site origin scope v := h.resolving site (h.newVariable origin scope v)
  lookupField site members name := h.resolving site (h.lookupField members name)
  store {x y} site site' scope access name o hx := by
    rw [resolving_bind, resolving_bind, bind_assoc, bind_assoc]
    exact h.bind (h.resolving site hx) fun owner =>
      h.store site site' scope access owner.members name o
  lookupFunction site scope name arity hf :=
    h.bind (h.resolving site (h.lookupMethod (some scope) name arity)) fun _ => hf _ trivial
  lookupMethod site members name arity hf := by
    refine h.resolving site (h.bind (h.lookupMethod members name arity) fun _ => ?_)
    exact hf _ trivial
  callNative depth _ _ := h.callNative hN _ _ depth
  wrongArity _ _ _ := h.throw _

lemma limits : RelatesLimits R where
  fuel := h.throw _
  depth := h.throw _

/-- It is one for programs if defining functions and finding the main one keep it. -/
theorem programCongruence (hN : N.Related extra R)
    (hdefine : ∀ scope g, R Unit (newFunction scope g) (newFunction scope g))
    (hmain : ∀ globals site, R _ (findMain globals site) (findMain globals site)) :
    ProgramCongruence N extra R fun _ _ => True where
  toCongruence := h.congruence hN
  addFunction globals m := h.resolving m.site (hdefine globals (methodFunction globals m))
  findMain globals site hf := h.bind (hmain globals site) fun _ => hf _ trivial

end Indifferent

end LetDef.Execution
