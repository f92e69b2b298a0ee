import LetDef.Execution.Program
import LetDef.Proofs.Commuting
import LetDef.Proofs.Position.Move

/-!
# Execution commutes with moving

The trees that a run keeps are the bodies of the methods it defines. Moving them moves the store,
and a run of a moved program from a moved store does the same: it prints the same and yields the
same object, or stops at the moved fault. The journal, which only tells what happened, is left out.
There is no host, whose functions might look at positions.
-/

namespace LetDef

variable {φ : Position → Position}

/-! ### Stores -/

/-- The function with the positions of its body moved. -/
def Function.move (φ : Position → Position) (g : Function) : Function :=
  { g with
    body := match g.body with
      | .native n => .native n
      | .method m scope => .method (m.move φ) scope }

/-- The frame with the positions of its functions moved. -/
def Frame.move (φ : Position → Position) (f : Frame) : Frame :=
  { f with functions := f.functions.map (Function.move φ) }

namespace Store

/-- The store with the positions of its functions moved. -/
def move (φ : Position → Position) (s : Store) : Store :=
  ⟨s.frames.map (Frame.move φ)⟩

variable (s : Store) (scope : Scope) (name : String) (arity : Nat)

lemma frame_move (i : FrameId) : (s.move φ).frame i = (s.frame i).move φ := by
  rw [frame, frame, move, Array.getElem?_map]
  cases s.frames[i]? <;> rfl

lemma findVariable?_move : (s.move φ).findVariable? scope name = s.findVariable? scope name := by
  simp only [findVariable?, frame_move]
  rfl

lemma variableNames_move : (s.move φ).variableNames scope = s.variableNames scope := by
  simp only [variableNames, frame_move]
  rfl

lemma lookupVariable_move :
    (s.move φ).lookupVariable scope name = s.lookupVariable scope name := by
  rw [lookupVariable, lookupVariable, findVariable?_move, variableNames_move]

lemma lookupField_move (members : Option Scope) :
    (s.move φ).lookupField members name = s.lookupField members name := by
  cases members with
  | none => rfl
  | some scope => exact s.lookupVariable_move scope name

lemma variableConflict?_move :
    (s.move φ).variableConflict? scope name = s.variableConflict? scope name := by
  rw [variableConflict?, frame_move]
  rfl

lemma getFunction?_frame_move (f : Frame) :
    (f.move φ).getFunction? name arity = (f.getFunction? name arity).map (Function.move φ) := by
  rw [Frame.getFunction?, Frame.move, List.find?_map]
  rfl

lemma findFunction?_move : (s.move φ).findFunction? scope name arity =
    (s.findFunction? scope name arity).map (Prod.map id (Function.move φ)) := by
  unfold findFunction?
  induction scope.chain with
  | nil => rfl
  | cons i chain ih =>
    rw [List.findSome?_cons, List.findSome?_cons, frame_move, getFunction?_frame_move]
    cases (s.frame i).getFunction? name arity with
    | none => exact ih
    | some g => rfl

lemma functionNames_move : (s.move φ).functionNames scope = s.functionNames scope := by
  simp only [functionNames, frame_move, Frame.move, List.map_map]
  rfl

lemma lookupFunction_move : (s.move φ).lookupFunction scope name arity =
    (s.lookupFunction scope name arity).map (Prod.map id (Function.move φ)) := by
  rw [lookupFunction, lookupFunction, findFunction?_move, functionNames_move]
  cases s.findFunction? scope name arity <;> rfl

lemma lookupMethod_move (members : Option Scope) : (s.move φ).lookupMethod members name arity =
    (s.lookupMethod members name arity).map (Prod.map id (Function.move φ)) := by
  cases members with
  | none => rfl
  | some scope => exact s.lookupFunction_move scope name arity

lemma functionConflict?_move :
    (s.move φ).functionConflict? scope name arity = s.functionConflict? scope name arity := by
  rw [functionConflict?, functionConflict?, frame_move, getFunction?_frame_move, Option.map_map]
  rfl

lemma enter_move (parent : Option Scope) :
    (s.move φ).enter parent = ((s.enter parent).1, (s.enter parent).2.move φ) := by
  simp only [enter, move, Array.size_map, Array.map_push]
  rfl

lemma modifyFrame_move {f g : Frame → Frame} (h : ∀ frame, g (frame.move φ) = (f frame).move φ)
    (i : FrameId) : (s.move φ).modifyFrame i g = (s.modifyFrame i f).move φ := by
  simp only [modifyFrame, move]
  congr 1
  apply Array.ext_getElem?
  intro j
  rw [Array.getElem?_modify, Array.getElem?_map, Array.getElem?_map, Array.getElem?_modify]
  split
  · rw [Option.map_map, Option.map_map]
    exact congrArg (Option.map · _) (funext h)
  · rfl

lemma addVariable_move (v : Variable) :
    (s.move φ).addVariable scope v = (s.addVariable scope v).move φ := by
  refine s.modifyFrame_move (fun frame => ?_) _
  rfl

lemma setVariable_move (ref : VariableRef) (o : Object) :
    (s.move φ).setVariable ref o = (s.setVariable ref o).move φ := by
  refine s.modifyFrame_move (fun frame => ?_) _
  rfl

lemma addFunction_move (g : Function) :
    (s.move φ).addFunction scope (g.move φ) = (s.addFunction scope g).move φ := by
  refine s.modifyFrame_move (fun frame => ?_) _
  simp only [Frame.move, List.map_append, List.map_cons, List.map_nil]

end Store

namespace Execution

/-- What stops a run, with its position moved. -/
def Halt.move (φ : Position → Position) : Halt → Halt
  | .fault f => .fault ⟨f.cause, f.site.move φ⟩
  | halt => halt

/-- The world with its store moved and without its journal. -/
def World.move (φ : Position → Position) (w : World) : World :=
  { store := w.store.move φ, output := w.output }

/-- Faults and worlds are moved. -/
def moving (φ : Position → Position) : Change Halt World where
  error := Halt.move φ
  state := World.move φ

variable {α β : Type} {site : Site} {scope : Scope} {fuel depth : Nat} {e e' : Event}

/-! ### Steps -/

lemma commutes_fail (f : α → β) (site : Site) (cause : Cause) :
    Commutes (moving φ) f (fail site cause) (fail (site.move φ) cause) :=
  commutes_throw f _

lemma commutes_tooDeep (f : α → β) : Commutes (moving φ) f tooDeep tooDeep :=
  commutes_throw f _

lemma commutes_note : Commutes (moving φ) id (note e) (note e') :=
  fun _ => rfl

lemma commutes_recording {f : α → β} {x : Run α} {y : Run β} {event : α → Event}
    {event' : β → Event} (h : Commutes (moving φ) f x y) :
    Commutes (moving φ) f (recording event x) (recording event' y) :=
  h.bind fun a => commutes_note.bind fun _ => commutes_pure f a

lemma commutes_modifyStore {f g : Store → Store} (h : ∀ s, g (s.move φ) = (f s).move φ) :
    Commutes (moving φ) id (modifyStore e f) (modifyStore e' g) := by
  refine Commutes.bind (commutes_modify fun w => ?_) fun _ => commutes_note
  simp only [moving, World.move, h]

lemma commutes_resolving {f : α → β} {x : Run α} {y : Run β} (h : Commutes (moving φ) f x y) :
    Commutes (moving φ) f (resolving site x) (resolving (site.move φ) y) := by
  refine h.tryCatch fun halt => ?_
  cases halt with
  | naming e => exact commutes_fail f site _
  | _ => exact commutes_throw f _

lemma commutes_consult {f : α → β} {find : Store → Except NameError α}
    {find' : Store → Except NameError β} (h : ∀ s, find' (s.move φ) = (find s).map f) :
    Commutes (moving φ) f (consult find) (consult find') := by
  refine commutes_get fun w => ?_
  have hfind : find' ((moving φ).state w).store = (find w.store).map f := h w.store
  rw [hfind]
  cases find w.store with
  | error e => exact commutes_throw f _
  | ok a => exact commutes_pure f a

lemma commutes_lookupField (members : Option Scope) (name : String) :
    Commutes (moving φ) id (consult fun s => s.lookupField members name)
      (consult fun s => s.lookupField members name) := by
  refine commutes_consult fun s => ?_
  rw [s.lookupField_move, Except.map_id]
  rfl

lemma commutes_enter : Commutes (moving φ) id (enter scope) (enter scope) := by
  refine commutes_recording (commutes_modifyGet fun w => ?_)
  simp only [moving, World.move, Store.enter_move]
  rfl

lemma commutes_addVariable {origin origin' : Origin} (v : Variable) :
    Commutes (moving φ) id (addVariable site origin scope v)
      (addVariable (site.move φ) origin' scope v) := by
  refine commutes_resolving (commutes_get fun w => ?_)
  have hconflict : ((moving φ).state w).store.variableConflict? scope v.name =
      w.store.variableConflict? scope v.name := w.store.variableConflict?_move scope v.name
  rw [hconflict]
  split
  · exact commutes_throw id _
  · exact commutes_modifyStore fun s => s.addVariable_move scope v

lemma commutes_addFunction (g : Function) :
    Commutes (moving φ) id (addFunction site scope g)
      (addFunction (site.move φ) scope (g.move φ)) := by
  refine commutes_resolving (commutes_get fun w => ?_)
  have hconflict : ((moving φ).state w).store.functionConflict? scope (g.move φ).name
      (g.move φ).arity = w.store.functionConflict? scope g.name g.arity :=
    w.store.functionConflict?_move scope g.name g.arity
  rw [hconflict]
  split
  · exact commutes_throw id _
  · exact commutes_modifyStore fun s => s.addFunction_move scope g

lemma commutes_render (v : Value) : Commutes (moving φ) id (render v) (render v) := by
  unfold render
  split
  · exact commutes_pure id _
  · exact commutes_throw id _

lemma commutes_printLine (line : String) :
    Commutes (moving φ) id (printLine line) (printLine line) :=
  fun _ => rfl

lemma commutes_firstOf (objects : List Object) :
    Commutes (moving φ) id (firstOf objects) (firstOf objects) := by
  cases objects with
  | nil => exact commutes_throw id _
  | cons o _ => exact commutes_pure id o

lemma commutes_callNative (n : Native) (objects : List Object) (depth : Nat) :
    Commutes (moving φ) id (callNative .none n objects depth)
      (callNative .none n objects depth) := by
  cases n with
  | nothing => exact commutes_pure id _
  | host key => exact commutes_throw id _
  | print =>
    refine (commutes_firstOf _).bind fun o => (commutes_render _).bind fun line => ?_
    exact (commutes_printLine line).bind fun _ => commutes_pure id _

lemma commutes_executeAll {k l : Node → Run (Option Object)}
    (h : ∀ n, Commutes (moving φ) id (k n) (l (n.move φ))) (ns : List Node) :
    Commutes (moving φ) id (executeAll k ns) (executeAll l (ns.map (Node.move φ))) := by
  induction ns with
  | nil => exact commutes_pure id none
  | cons n ns ih =>
    refine (h n).bind fun r => ?_
    cases r with
    | some o => exact commutes_pure id (some o)
    | none => exact ih

lemma commutes_repeatWhile {x x' : Run Bool} {y y' : Run (Option Object)}
    (hx : Commutes (moving φ) id x x') (hy : Commutes (moving φ) id y y') (fuel : Nat) :
    Commutes (moving φ) id (repeatWhile x y fuel) (repeatWhile x' y' fuel) := by
  induction fuel with
  | zero => exact commutes_throw id _
  | succ fuel ih =>
    refine hx.bind fun holds => Commutes.ite (hy.bind fun r => ?_) (commutes_pure id none)
    cases r with
    | some o => exact commutes_pure id (some o)
    | none => exact ih

lemma commutes_bindParameters (m : Method) (position : Nat) (objects : List (String × Object)) :
    Commutes (moving φ) id (bindParameters m scope position objects)
      (bindParameters (m.move φ) scope position objects) := by
  induction objects generalizing position with
  | nil => exact commutes_pure id _
  | cons o rest ih => exact (commutes_addVariable _).bind fun _ => ih _

lemma commutes_operateAt (operator : String) (left right : Object) :
    Commutes (moving φ) id (operateAt site operator left right)
      (operateAt (site.move φ) operator left right) := by
  unfold operateAt
  split
  · split
    · exact commutes_pure id _
    · exact commutes_throw id _
  · exact commutes_fail id site _
  · exact commutes_throw id _

lemma commutes_store {access access' : Node} (ref : VariableRef) (v : Variable) (o : Object) :
    Commutes (moving φ) id (store site scope access ref v o)
      (store (site.move φ) scope access' ref v o) :=
  Commutes.ite (commutes_fail id site _) (commutes_modifyStore fun s => s.setVariable_move ref o)

/-! ### Evaluation -/

/-- The rules of a run that are nested to the depth commute with moving. -/
structure CommutesAt (φ : Position → Position) (fuel depth : Nat) : Prop where
  evaluate : ∀ scope n, Commutes (moving φ) id (evaluate .none fuel scope n depth)
    (evaluate .none fuel scope (n.move φ) depth)
  operation : ∀ scope mark operator left right,
    Commutes (moving φ) id (operation .none fuel scope mark operator left right depth)
      (operation .none fuel scope (mark.move φ) operator (left.move φ) (right.move φ) depth)
  condition : ∀ scope n, Commutes (moving φ) id (condition .none fuel scope n depth)
    (condition .none fuel scope (n.move φ) depth)
  arguments : ∀ scope ns, Commutes (moving φ) id (arguments .none fuel scope ns depth)
    (arguments .none fuel scope (ns.map (Node.move φ)) depth)
  call : ∀ scope mark receiver name ns,
    Commutes (moving φ) id (call .none fuel scope mark receiver name ns depth)
      (call .none fuel scope (mark.move φ) (receiver.move φ) name (ns.map (Node.move φ)) depth)
  invoke : ∀ g objects, Commutes (moving φ) id (invoke .none fuel g objects depth)
    (invoke .none fuel (g.move φ) objects depth)
  block : ∀ scope body, Commutes (moving φ) id (block .none fuel scope body depth)
    (block .none fuel scope (body.map (Node.move φ)) depth)
  execute : ∀ scope n, Commutes (moving φ) id (execute .none fuel scope n depth)
    (execute .none fuel scope (n.move φ) depth)
  assign : ∀ scope mark receiver value,
    Commutes (moving φ) id (assign .none fuel scope mark receiver value depth)
      (assign .none fuel scope (mark.move φ) (receiver.move φ) (value.move φ) depth)
  forLoop : ∀ scope mark first c last body,
    Commutes (moving φ) id (forLoop .none fuel scope mark first c last body depth)
      (forLoop .none fuel scope (mark.move φ) (first.move φ) (c.move φ) (last.move φ)
        (body.map (Node.move φ)) depth)

section

variable (ih : CommutesAt φ fuel depth)

include ih

lemma commutes_evaluate (n : Node) :
    Commutes (moving φ) id (evaluate .none fuel scope n (depth + 1))
      (evaluate .none fuel scope (n.move φ) (depth + 1)) := by
  rw [evaluate.eq_def, evaluate.eq_def .none fuel scope (n.move φ)]
  refine commutes_recording ?_
  cases n with
  | literal _ value _ =>
    dsimp only [Node.move]
    split
    · exact commutes_pure id _
    · exact commutes_throw id _
  | group _ body => exact ih.evaluate _ body
  | binary mark operator left right => exact ih.operation _ mark operator left right
  | access mark receiver name =>
    have hend : ∀ found : VariableRef × Variable, Commutes (moving φ) id
        (do note (.read scope (.access mark receiver name) found.1); return found.2.value)
        (do
          note (.read scope (.access (mark.move φ) (receiver.move φ) name) found.1)
          return found.2.value) :=
      fun found => commutes_note.bind fun _ => commutes_pure id _
    cases receiver with
    | absent => exact (commutes_resolving (commutes_lookupField (some scope) name)).bind hend
    | _ =>
      exact (ih.evaluate _ _).bind fun o =>
        (commutes_resolving (commutes_lookupField _ name)).bind hend
  | call mark receiver name ns =>
    dsimp only [Node.move]
    rw [Node.move_all]
    exact ih.call _ mark receiver name ns
  | _ => exact commutes_fail id _ _

lemma commutes_operation (mark : Mark) (operator : String) (left right : Node) :
    Commutes (moving φ) id (operation .none fuel scope mark operator left right (depth + 1))
      (operation .none fuel scope (mark.move φ) operator (left.move φ) (right.move φ)
        (depth + 1)) := by
  rw [operation, operation]
  refine Commutes.ite ?_ (Commutes.ite ?_ ?_)
  · refine (ih.condition _ left).bind fun holds => Commutes.ite ?_ (commutes_pure id _)
    exact (ih.condition _ right).bind fun _ => commutes_pure id _
  · refine (ih.condition _ left).bind fun holds => Commutes.ite (commutes_pure id _) ?_
    exact (ih.condition _ right).bind fun _ => commutes_pure id _
  · refine (ih.evaluate _ left).bind fun l => (ih.evaluate _ right).bind fun r => ?_
    exact commutes_operateAt operator l r

lemma commutes_condition (n : Node) :
    Commutes (moving φ) id (condition .none fuel scope n (depth + 1))
      (condition .none fuel scope (n.move φ) (depth + 1)) := by
  rw [condition, condition]
  refine (ih.evaluate _ n).bind fun o => ?_
  rw [id, Node.site_move]
  split
  · exact commutes_pure id _
  · exact commutes_fail id _ _

lemma commutes_arguments (ns : List Node) :
    Commutes (moving φ) id (arguments .none fuel scope ns (depth + 1))
      (arguments .none fuel scope (ns.map (Node.move φ)) (depth + 1)) := by
  rw [arguments, arguments, ← List.map_id_fun]
  exact Commutes.mapM fun n => ih.evaluate scope n

lemma commutes_call (mark : Mark) (receiver : Node) (name : String) (ns : List Node) :
    Commutes (moving φ) id (call .none fuel scope mark receiver name ns (depth + 1))
      (call .none fuel scope (mark.move φ) (receiver.move φ) name (ns.map (Node.move φ))
        (depth + 1)) := by
  rw [call.eq_def, call.eq_def .none fuel scope (mark.move φ)]
  refine (ih.arguments _ ns).bind fun objects => ?_
  cases receiver with
  | absent =>
    refine (commutes_resolving (commutes_consult fun s => s.lookupFunction_move _ _ _)).bind
      fun found => ?_
    exact commutes_note.bind fun _ => ih.invoke found.2 objects
  | _ =>
    refine (ih.evaluate _ _).bind fun o => commutes_resolving ?_
    refine (commutes_consult fun s => s.lookupMethod_move _ _ _).bind fun found => ?_
    exact ih.invoke found.2 (o :: objects)

lemma commutes_invoke (g : Function) (objects : List Object) :
    Commutes (moving φ) id (invoke .none fuel g objects (depth + 2))
      (invoke .none fuel (g.move φ) objects (depth + 2)) := by
  rw [invoke, invoke]
  obtain ⟨name, jvmName, parameters, returns, body⟩ := g
  cases body with
  | native n => exact commutes_callNative n objects _
  | method m home =>
    refine commutes_recording (Commutes.whenBind (commutes_fail id m.site _) ?_)
    refine commutes_enter.bind fun scope => (commutes_bindParameters m 0 _).bind fun _ => ?_
    exact (ih.block scope m.body).bind fun r => commutes_pure id _

/-- A block in a scope of its own. -/
lemma commutes_inner (body : List Node) :
    Commutes (moving φ) id (do block .none fuel (← enter scope) body depth)
      (do block .none fuel (← enter scope) (body.map (Node.move φ)) depth) :=
  commutes_enter.bind fun inner => ih.block inner body

lemma commutes_execute (n : Node) :
    Commutes (moving φ) id (execute .none fuel scope n (depth + 1))
      (execute .none fuel scope (n.move φ) (depth + 1)) := by
  rw [execute.eq_def, execute.eq_def .none fuel scope (n.move φ)]
  cases n with
  | perform _ e => exact (ih.evaluate _ e).bind fun _ => commutes_pure id _
  | declare mark name typeName value =>
    dsimp only [Node.move]
    rw [Node.isPresent_move]
    refine Commutes.iteBind (ih.evaluate _ value) (commutes_pure id _) fun o => ?_
    exact (commutes_addVariable _).bind fun _ => commutes_pure id _
  | assign mark receiver value =>
    exact (ih.assign _ mark receiver value).bind fun _ => commutes_pure id _
  | branch _ c thenBody elseBody =>
    dsimp only [Node.move]
    refine (ih.condition _ c).bind fun holds => ?_
    rw [Node.move_all, Node.move_all, id, ← apply_ite (List.map (Node.move φ))]
    exact commutes_inner ih _
  | forLoop mark first c last body =>
    dsimp only [Node.move]
    rw [Node.move_all]
    exact ih.forLoop _ mark first c last body
  | whileLoop _ c body =>
    dsimp only [Node.move]
    rw [Node.move_all]
    refine commutes_enter.bind fun loop => ?_
    exact commutes_repeatWhile (ih.condition loop c) (commutes_inner ih body) fuel
  | giveBack _ value => exact (ih.evaluate _ value).bind fun o => commutes_pure id (some o)
  | _ => exact commutes_fail id _ _

lemma commutes_assign (mark : Mark) (receiver value : Node) :
    Commutes (moving φ) id (assign .none fuel scope mark receiver value (depth + 1))
      (assign .none fuel scope (mark.move φ) (receiver.move φ) (value.move φ) (depth + 1)) := by
  rw [assign.eq_def, assign.eq_def .none fuel scope (mark.move φ)]
  cases receiver with
  | access _ owner name =>
    refine (ih.evaluate _ value).bind fun o => ?_
    cases owner with
    | absent =>
      exact (commutes_resolving (commutes_lookupField (some scope) name)).bind fun found =>
        commutes_store _ _ o
    | _ =>
      refine Commutes.bind (commutes_resolving ?_) fun found => commutes_store _ _ o
      exact (ih.evaluate _ _).bind fun object => commutes_lookupField _ name
  | _ => exact commutes_fail id ⟨_, _⟩ _

lemma commutes_forLoop (mark : Mark) (first c last : Node) (body : List Node) :
    Commutes (moving φ) id (forLoop .none fuel scope mark first c last body (depth + 1))
      (forLoop .none fuel scope (mark.move φ) (first.move φ) (c.move φ) (last.move φ)
        (body.map (Node.move φ)) (depth + 1)) := by
  rw [forLoop, forLoop]
  simp only [Node.isPresent_move]
  refine commutes_enter.bind fun loop => Commutes.whenBind (ih.execute loop first) ?_
  refine Commutes.whenBind (commutes_fail id ⟨_, _⟩ _) ?_
  refine commutes_repeatWhile (ih.condition loop c) ?_ fuel
  refine commutes_enter.bind fun inner => (ih.block inner body).bind fun r => ?_
  cases r with
  | some o => exact commutes_pure id (some o)
  | none => exact Commutes.whenBind (ih.execute loop last) (commutes_pure id none)

end

/-- The rules of a run commute with moving at every depth. -/
lemma commutesAt (φ : Position → Position) (fuel depth : Nat) : CommutesAt φ fuel depth := by
  induction depth using Nat.strongRecOn with
  | ind depth ih =>
    cases depth with
    | zero => constructor <;> intros <;> exact commutes_tooDeep id
    | succ depth =>
      have ih₁ := ih depth (Nat.lt_succ_self _)
      refine
        { evaluate := fun _ => commutes_evaluate ih₁
          operation := fun _ => commutes_operation ih₁
          condition := fun _ => commutes_condition ih₁
          arguments := fun _ => commutes_arguments ih₁
          call := fun _ => commutes_call ih₁
          invoke := ?_
          block := fun scope body => by
            rw [block, block]
            exact commutes_executeAll (ih₁.execute scope) body
          execute := fun _ => commutes_execute ih₁
          assign := fun _ => commutes_assign ih₁
          forLoop := fun _ => commutes_forLoop ih₁ }
      -- An invocation takes two units, so it rests on the rules two levels below.
      cases depth with
      | zero => exact fun _ _ => commutes_tooDeep id
      | succ depth => exact commutes_invoke (ih depth (by omega))

/-! ### Programs -/

variable {globals : Scope}

lemma commutes_bindField (f : Field) :
    Commutes (moving φ) id (bindField .none fuel globals f depth)
      (bindField .none fuel globals (f.move φ) depth) := by
  cases depth with
  | zero => exact commutes_tooDeep id
  | succ depth =>
    rw [bindField, bindField]
    simp only [Field.move, Node.isPresent_move]
    refine Commutes.iteBind ((commutesAt φ fuel depth).evaluate _ f.value) (commutes_pure id _)
      fun o => ?_
    exact commutes_addVariable _

lemma commutes_findMain :
    Commutes (moving φ) (Function.move φ) (findMain globals site)
      (findMain globals (site.move φ)) := by
  refine Commutes.tryCatch ?_ fun halt => ?_
  · refine (commutes_consult fun s => s.lookupFunction_move _ _ _).bind fun found => ?_
    exact commutes_pure (Function.move φ) found.2
  · cases halt with
    | naming e => exact commutes_fail _ site _
    | _ => exact commutes_throw _ _

lemma commutes_program (p : Program) :
    Commutes (moving φ) id (program .none fuel depth globals p)
      (program .none fuel depth globals (p.move φ)) := by
  have hfields : Commutes (moving φ) id
      (p.fields.forM fun f => bindField .none fuel globals f depth)
      ((p.fields.map (Field.move φ)).forM fun f => bindField .none fuel globals f depth) :=
    Commutes.forM commutes_bindField
  have hmethods : Commutes (moving φ) id
      (p.methods.forM fun m => addFunction m.site globals (methodFunction globals m))
      ((p.methods.map (Method.move φ)).forM fun m =>
        addFunction m.site globals (methodFunction globals m)) :=
    Commutes.forM fun m => commutes_addFunction (methodFunction globals m)
  refine hfields.bind fun _ => hmethods.bind fun _ => commutes_findMain.bind fun main => ?_
  exact (commutesAt φ fuel depth).invoke main []

/-- Before a run no method is defined, so nothing moves. -/
lemma World.move_start :
    World.move φ { store := (globalScope none {}).2 } = { store := (globalScope none {}).2 } := by
  have hempty : Store.move φ ((Store.enter {} none).2) = (Store.enter {} none).2 := by
    simp [Store.enter, Store.move, Frame.move]
  unfold World.move globalScope
  dsimp only
  rw [← Store.addFunction_move, hempty]
  rfl

/-- A run of a moved program does the same, or stops at the moved fault. -/
theorem commutes_run (p : Program) :
    Commutes (moving φ) id (run .none fuel depth globals p)
      (run .none fuel depth globals (p.move φ)) := by
  refine Commutes.tryCatch (commutes_program p) fun halt => ?_
  cases halt with
  | tooDeep => exact commutes_fail id p.site _
  | _ => exact commutes_throw id _

end Execution

end LetDef
