import LetDef.Proofs.Execution.Native
import LetDef.Proofs.Store.Growth

/-!
# Where a run defines variables

Every block, loop and call has a scope of its own, and what it defines goes there. So an expression
adds nothing to the frames that were there before, and neither does a statement, unless it is a
declaration, which adds to the frame of its own scope.
-/

namespace LetDef.Execution

/-- However the step ends, the store has grown, and of the frames that it had only `own` may have
got new variables. -/
def Grown {α : Type} (own : Option FrameId) (x : Run α) : Prop :=
  ∀ w : World, w.store.Grows own (outcome x w).2.store

namespace Grown

variable {N : Natives} {α β : Type} {own : Option FrameId} {x : Run α} {f : α → Run β}
  {scope : Scope}

lemma weaken (h : Grown none x) (own : Option FrameId) : Grown own x :=
  fun w => (h w).weaken own

lemma still (h : ∀ w, (outcome x w).2.store = w.store) : Grown own x := by
  intro w
  rw [h w]
  exact .refl own w.store

lemma pure (a : α) : Grown own (Pure.pure a) :=
  still fun _ => rfl

lemma throw (halt : Halt) : Grown own (MonadExcept.throw halt : Run α) :=
  still fun _ => rfl

lemma bind (hx : Grown own x) (hf : ∀ a, Grown own (f a)) : Grown own (x >>= f) := by
  intro w
  have hw := hx w
  rw [outcome_bind]
  rcases hout : outcome x w with ⟨halt | a, w₁⟩ <;> rw [hout] at hw
  · exact hw
  · exact hw.trans (hf a w₁)

lemma ite {p : Prop} [Decidable p] {x y : Run α} (hx : Grown own x) (hy : Grown own y) :
    Grown own (if p then x else y) := by
  split
  · exact hx
  · exact hy

lemma resolving {site : Site} (hx : Grown own x) : Grown own (resolving site x) := by
  intro w
  rw [outcome_resolving]
  exact hx w

lemma recording {event : α → Event} (hx : Grown own x) : Grown own (recording event x) :=
  hx.bind fun _ => (still fun _ => rfl : Grown own (note _)).bind fun _ => pure _

lemma consult {find : Store → Except NameError α} : Grown own (consult find) :=
  still fun w => by rw [outcome_consult]

/-- What is done in a new scope adds nothing to the frames before. -/
lemma enter {f : Scope → Run α} (hf : ∀ inner, Grown (some inner.frame) (f inner)) :
    Grown none (enter scope >>= f) := by
  intro w
  rw [outcome_bind, outcome_enter]
  exact .of_enter (some scope) (hf (w.store.enter (some scope)).1 (w.after _ _))

lemma addVariable {site : Site} {origin : Origin} {v : Variable} :
    Grown (some scope.frame) (addVariable site origin scope v) := by
  refine resolving fun w => ?_
  rw [outcome_newVariable]
  cases w.store.variableConflict? scope v.name with
  | none =>
    change w.store.Grows _ (w.store.addVariable scope v)
    rcases Nat.lt_or_ge scope.frame w.store.frames.size with hsize | hsize
    · exact Store.grows_addVariable hsize
    · rw [Store.addVariable_of_size_le hsize]
      exact .refl _ _
  | some e => exact .refl _ _

/-- A variable of an owner is found and put an object into. -/
lemma store {x : Run Object} (hx : Grown none x) (site site' : Site) (scope : Scope)
    (access : Node) (name : String) (o : Object) :
    Grown none
      (Execution.resolving site
          (x >>= fun owner => Execution.consult fun s => s.lookupField owner.members name) >>=
        fun found => Execution.store site' scope access found.1 found.2 o) := by
  rw [resolving_bind, bind_assoc]
  refine hx.resolving.bind fun owner w => ?_
  rw [outcome_bind, ← lookup, outcome_lookup]
  cases hfound : w.store.lookupField owner.members name with
  | error e => exact .refl _ _
  | ok found =>
    change w.store.Grows none
      (outcome (Execution.store site' scope access found.1 found.2 o) w).2.store
    unfold Execution.store
    split
    · exact .refl _ _
    · exact Store.grows_setVariable (Store.getVariable?_of_lookupField hfound)

lemma mapM {f : β → Run α} (hf : ∀ b, Grown own (f b)) (bs : List β) : Grown own (bs.mapM f) := by
  induction bs with
  | nil => exact pure []
  | cons b bs ih =>
    rw [List.mapM_cons]
    exact (hf b).bind fun a => ih.bind fun as => pure (a :: as)

lemma executeAll {f : Node → Run (Option Object)} (hf : ∀ n, Grown own (f n)) (ns : List Node) :
    Grown own (executeAll f ns) := by
  induction ns with
  | nil => exact pure none
  | cons n ns ih =>
    refine (hf n).bind fun r => ?_
    cases r with
    | some o => exact pure _
    | none => exact ih

lemma repeatWhile {c : Run Bool} {b : Run (Option Object)} (hc : Grown own c) (hb : Grown own b)
    (fuel : Nat) : Grown own (repeatWhile c b fuel) := by
  induction fuel with
  | zero => exact throw _
  | succ fuel ih =>
    refine hc.bind fun holds => ite (hb.bind fun r => ?_) (pure _)
    cases r with
    | some o => exact pure _
    | none => exact ih

lemma callNative (hN : N.OnlyPrint) {n : Native} {objects : List Object} {depth : Nat} :
    Grown own (callNative N n objects depth) :=
  still fun w => hN.store_callNative n objects depth w

lemma bindParameters {m : Method} (position : Nat) (objects : List (String × Object)) :
    Grown (some scope.frame) (bindParameters m scope position objects) := by
  induction objects generalizing position with
  | nil => exact pure ()
  | cons o rest ih => exact addVariable.bind fun _ => ih _

lemma operateAt {site : Site} {operator : String} {left right : Object} :
    Grown own (operateAt site operator left right) := by
  unfold Execution.operateAt
  split
  · split
    · exact pure _
    · exact throw _
  · exact throw _
  · exact throw _

end Grown

/-! ### Evaluation -/

/-- Expressions add to no frame, and statements to the frame of their scope at most. -/
structure Confined (N : Natives) (fuel depth : Nat) : Prop where
  evaluate (scope : Scope) (n : Node) : Grown none (evaluate N fuel scope n depth)
  operation (scope : Scope) (mark : Mark) (operator : String) (left right : Node) :
    Grown none (operation N fuel scope mark operator left right depth)
  condition (scope : Scope) (n : Node) : Grown none (condition N fuel scope n depth)
  arguments (scope : Scope) (ns : List Node) : Grown none (arguments N fuel scope ns depth)
  call (scope : Scope) (mark : Mark) (receiver : Node) (name : String) (ns : List Node) :
    Grown none (call N fuel scope mark receiver name ns depth)
  invoke (g : Function) (objects : List Object) : Grown none (invoke N fuel g objects depth)
  block (scope : Scope) (body : List Node) :
    Grown (some scope.frame) (block N fuel scope body depth)
  execute (scope : Scope) (n : Node) : Grown (some scope.frame) (execute N fuel scope n depth)
  assign (scope : Scope) (mark : Mark) (receiver value : Node) :
    Grown none (assign N fuel scope mark receiver value depth)
  forLoop (scope : Scope) (mark : Mark) (first c last : Node) (body : List Node) :
    Grown none (forLoop N fuel scope mark first c last body depth)

/-- The step that finds the first object of a variable. -/
def initial (N : Natives) (fuel : Nat) (scope : Scope) (value : Node) (depth : Nat) : Run Object :=
  if value.isPresent then evaluate N fuel scope value depth else pure .unset

lemma execute_declare {N : Natives} {fuel depth : Nat} {scope : Scope} {mark : Mark} {name : String}
    {typeName : Option String} {value : Node} :
    execute N fuel scope (.declare mark name typeName value) (depth + 1)
      = initial N fuel scope value depth >>= fun o =>
        addVariable (Node.declare mark name typeName value).site (.declaration mark) scope
          ⟨name, name, .any, false, o⟩ >>= fun _ => pure none := by
  rw [execute.eq_def]
  unfold initial
  dsimp only
  split <;> rfl

lemma bindField_succ {N : Natives} {fuel depth : Nat} {globals : Scope} {f : Field} :
    bindField N fuel globals f (depth + 1)
      = initial N fuel globals f.value depth >>= fun o =>
        addVariable f.site (.declaration f.mark) globals ⟨f.name, f.name, .any, f.constant, o⟩ := by
  rw [bindField]
  unfold initial
  split <;> rfl

namespace Confined

variable {N : Natives} {fuel depth : Nat} {scope : Scope} {mark : Mark} {n : Node}
  (ih : Confined N fuel depth)

include ih

lemma evaluate_succ : Grown none (Execution.evaluate N fuel scope n (depth + 1)) := by
  rw [Execution.evaluate.eq_def]
  refine Grown.recording ?_
  have hread (site : Site) (members : Option Scope) (name : String) :
      Grown none (lookup site (fun s => s.lookupField members name) >>= fun found => do
        note (.read scope n found.1)
        return found.2.value) :=
    (Grown.resolving .consult).bind fun _ => (Grown.still fun _ => rfl).bind fun _ => .pure _
  cases n with
  | literal _ value _ =>
    dsimp only
    split
    · exact .pure _
    · exact .throw _
  | group _ body => exact ih.evaluate scope body
  | binary mark operator left right => exact ih.operation scope mark operator left right
  | access mark receiver name =>
    dsimp only
    split
    · exact hread _ (some scope) name
    · exact (ih.evaluate scope receiver).bind fun o => hread _ o.members name
  | call mark receiver name ns => exact ih.call scope mark receiver name ns
  | _ => exact .throw _

lemma operation_succ {operator : String} {left right : Node} :
    Grown none (Execution.operation N fuel scope mark operator left right (depth + 1)) := by
  rw [Execution.operation]
  refine .ite ?_ (.ite ?_ ?_)
  · refine (ih.condition scope left).bind fun holds => .ite ?_ (.pure _)
    exact (ih.condition scope right).bind fun _ => .pure _
  · refine (ih.condition scope left).bind fun holds => .ite (.pure _) ?_
    exact (ih.condition scope right).bind fun _ => .pure _
  · refine (ih.evaluate scope left).bind fun l => ?_
    exact (ih.evaluate scope right).bind fun r => .operateAt

lemma condition_succ : Grown none (Execution.condition N fuel scope n (depth + 1)) := by
  rw [Execution.condition]
  refine (ih.evaluate scope n).bind fun o => ?_
  split
  · exact .pure _
  · exact .throw _

lemma call_succ {receiver : Node} {name : String} {ns : List Node} :
    Grown none (Execution.call N fuel scope mark receiver name ns (depth + 1)) := by
  rw [Execution.call.eq_def]
  refine (ih.arguments scope ns).bind fun objects => ?_
  split
  · refine (Grown.resolving .consult).bind fun found => ?_
    exact (Grown.still fun _ => rfl).bind fun _ => ih.invoke _ objects
  · refine (ih.evaluate scope receiver).bind fun o => ?_
    exact Grown.resolving (Grown.consult.bind fun found => ih.invoke _ (o :: objects))

/-- A call binds the parameters and executes the body in a scope of its own. -/
lemma invoke_succ (hN : N.OnlyPrint) {g : Function} {objects : List Object} :
    Grown none (Execution.invoke N fuel g objects (depth + 2)) := by
  rw [Execution.invoke]
  split
  · exact .callNative hN
  · rename_i m home _
    have hcall : Grown none (do
        let scope ← enter home
        bindParameters m scope 0 (m.parameters.zip objects)
        return (← Execution.block N fuel scope m.body depth).getD .unset) := by
      refine .enter fun scope => (Grown.bindParameters 0 _).bind fun _ => ?_
      exact (ih.block scope m.body).bind fun _ => .pure _
    exact .recording (.ite ((Grown.throw _).bind fun _ => hcall) hcall)

/-- A block in a scope of its own. -/
lemma inner (scope : Scope) (body : List Node) :
    Grown none (do Execution.block N fuel (← enter scope) body depth) :=
  .enter fun scope => ih.block scope body

/-- A statement adds to no frame that was there before, unless it is a declaration. -/
lemma execute_succ_of_not_declare (scope : Scope)
    (hn : ∀ mark name typeName value, n ≠ .declare mark name typeName value) :
    Grown none (Execution.execute N fuel scope n (depth + 1)) := by
  rw [Execution.execute.eq_def]
  cases n with
  | perform _ e => exact (ih.evaluate scope e).bind fun _ => .pure _
  | declare mark name typeName value => exact absurd rfl (hn mark name typeName value)
  | assign mark receiver value => exact (ih.assign scope mark receiver value).bind fun _ => .pure _
  | branch _ c thenBody elseBody => exact (ih.condition scope c).bind fun _ => ih.inner scope _
  | forLoop mark first c last body => exact ih.forLoop scope mark first c last body
  | whileLoop _ c body =>
    refine .enter fun loop => .repeatWhile ?_ ?_ fuel
    · exact (ih.condition loop c).weaken _
    · exact (ih.inner loop body).weaken _
  | giveBack _ value => exact (ih.evaluate scope value).bind fun _ => .pure _
  | _ => exact .throw _

lemma initial (scope : Scope) (value : Node) : Grown none (initial N fuel scope value depth) :=
  .ite (ih.evaluate scope value) (.pure _)

lemma execute_succ : Grown (some scope.frame) (Execution.execute N fuel scope n (depth + 1)) := by
  by_cases hn : ∃ mark name typeName value, n = .declare mark name typeName value
  · obtain ⟨mark, name, typeName, value, rfl⟩ := hn
    rw [execute_declare]
    refine ((ih.initial scope value).weaken _).bind fun o => ?_
    exact Grown.addVariable.bind fun _ => .pure _
  · refine (ih.execute_succ_of_not_declare scope ?_).weaken _
    intro mark name typeName value heq
    exact hn ⟨mark, name, typeName, value, heq⟩

lemma assign_succ {receiver value : Node} :
    Grown none (Execution.assign N fuel scope mark receiver value (depth + 1)) := by
  rw [Execution.assign.eq_def]
  cases receiver with
  | access m owner name =>
    refine (ih.evaluate scope value).bind fun o => ?_
    dsimp only
    split
    · have hself : Grown none (pure ⟨.nil, some scope⟩ : Run Object) := .pure _
      exact hself.store _ _ scope _ name o
    · exact (ih.evaluate scope owner).store _ _ scope _ name o
  | _ => exact .throw _

/-- A clause of a loop is executed if there is one, and then the rest. -/
lemma clause {α : Type} {x : Run α} (hx : Grown (some scope.frame) x) :
    Grown (some scope.frame) (if n.isPresent = true then (do
      let _ ← Execution.execute N fuel scope n depth
      x) else x) :=
  .ite ((ih.execute scope n).bind fun _ => hx) hx

/-- The clauses of a loop are executed in its scope, and the body in one of its own inside. -/
lemma forLoop_succ {first c last : Node} {body : List Node} :
    Grown none (Execution.forLoop N fuel scope mark first c last body (depth + 1)) := by
  rw [Execution.forLoop]
  refine .enter fun loop => ih.clause ?_
  have hloop {round : Run (Option Object)} (hround : Grown (some loop.frame) round) :=
    Grown.repeatWhile ((ih.condition loop c).weaken (some loop.frame)) hround fuel
  refine .ite ((Grown.throw _).bind fun _ => hloop ?_) (hloop ?_)
  all_goals
    rw [← bind_assoc]
    refine ((ih.inner loop body).weaken _).bind fun r => ?_
    cases r with
    | some o => exact .pure _
    | none => exact ih.clause (.pure _)

end Confined

lemma confined {N : Natives} (hN : N.OnlyPrint) (fuel depth : Nat) : Confined N fuel depth := by
  induction depth using Nat.strongRecOn with
  | ind depth ih =>
    cases depth with
    | zero => constructor <;> intros <;> exact .throw _
    | succ depth =>
      have hat := ih depth (Nat.lt_succ_self _)
      refine {
        evaluate := fun _ _ => hat.evaluate_succ
        operation := fun _ _ _ _ _ => hat.operation_succ
        condition := fun _ _ => hat.condition_succ
        arguments := fun scope ns => ?_
        call := fun _ _ _ _ _ => hat.call_succ
        invoke := fun g objects => ?_
        block := fun scope body => ?_
        execute := fun _ _ => hat.execute_succ
        assign := fun _ _ _ _ => hat.assign_succ
        forLoop := fun _ _ _ _ _ _ => hat.forLoop_succ }
      · rw [arguments]
        exact .mapM (hat.evaluate scope) ns
      · -- An invocation takes two units of depth.
        cases depth with
        | zero => exact .throw _
        | succ depth => exact (ih depth (by omega)).invoke_succ hN
      · rw [block]
        exact .executeAll (hat.execute scope) body

end LetDef.Execution
