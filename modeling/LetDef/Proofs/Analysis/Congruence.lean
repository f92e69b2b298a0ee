import LetDef.Proofs.Analysis.Step
import LetDef.Proofs.Syntax.Slots

/-!
# Relations between analyses

What is said of analysis as a whole is often kept by every way in which its rules put steps
together. A `Congruence` is a relation between steps that is kept in this sense; it may speak of the
numbers of the nodes that the steps decorate. Analysis is gone through once, here: whatever relation
its steps are in, the rules are in it at every depth. The two analyses may differ in depth.

A fact about a single analysis is a relation that does not look at its second step.
-/

namespace LetDef.Analysis

/-- A relation between steps that decorate the nodes of the numbers, kept by all that the rules of
analysis are made of. A step that stops may have been about to decorate any nodes, and where the
first analysis has no depth left the second may go on. -/
structure Congruence (R : List Nat → (α : Type) → Analyze α → Analyze α → Prop) : Prop where
  pure {α : Type} (a : α) : R [] α (pure a) (pure a)
  bind {α β : Type} {ks ls : List Nat} {x y : Analyze α} {f g : α → Analyze β} :
    R ks α x y → (∀ a, R ls β (f a) (g a)) → R (ks ++ ls) β (x >>= f) (y >>= g)
  fail {α : Type} {ks : List Nat} (site : Site) (cause : Cause) :
    R ks α (fail site cause) (fail site cause)
  tooDeep {α : Type} {ks : List Nat} (y : Analyze α) : R ks α tooDeep y
  resolving {α : Type} {ks : List Nat} {x y : Analyze α} (site : Site) :
    R ks α x y → R ks α (resolving site x) (resolving site y)
  decorate (m : Mark) (kind : Node.Kind) (d : Decoration) :
    R [m.number] Unit (decorate m kind d) (decorate m kind d)
  resolve {α : Type} (site : Site) (result : Except NameError α) :
    R [] α (resolve site result) (resolve site result)
  lookupField (site : Site) (members : Option Scope) (name : String) :
    R [] _ (lookup site fun s => s.lookupField members name)
      (lookup site fun s => s.lookupField members name)
  /-- A function is looked up, which has the arity. -/
  lookupMethod {α : Type} {ks : List Nat} {f : FunctionRef → Function → Analyze α} (site : Site)
    (members : Option Scope) (name : String) (arity : Nat) :
    (∀ ref g, g.arity = arity → R ks α (f ref g) (f ref g)) →
    R ks α (lookup site (fun s => s.lookupMethod members name arity) >>= fun found =>
        f found.1 found.2)
      (lookup site (fun s => s.lookupMethod members name arity) >>= fun found =>
        f found.1 found.2)
  addVariable (site : Site) (scope : Scope) (v : Variable) :
    R [] Unit (addVariable site scope v) (addVariable site scope v)
  addFunction (site : Site) (scope : Scope) (g : Function) :
    R [] Unit (addFunction site scope g) (addFunction site scope g)
  enter (scope : Scope) : R [] Scope (enter scope) (enter scope)
  accessed (n : Node) : R [] _ (accessed? n) (accessed? n)
  findMain (globals : Scope) (site : Site) :
    R [] _ (findMain globals site) (findMain globals site)

/-- The rules for expressions are related, nested to their depths. -/
structure RelatedAt (R : List Nat → (α : Type) → Analyze α → Analyze α → Prop)
    (depth depth' : Nat) : Prop where
  expression (scope : Scope) (n : Node) :
    R n.slots _ (expression scope n depth) (expression scope n depth')
  operation (scope : Scope) (mark : Mark) (operator : String) (left right : Node) :
    R (Node.binary mark operator left right).slots _
      (operation scope mark operator left right depth)
      (operation scope mark operator left right depth')
  access (scope : Scope) (mark : Mark) (receiver : Node) (name : String) :
    R (Node.access mark receiver name).slots _ (access scope mark receiver name depth)
      (access scope mark receiver name depth')
  call (scope : Scope) (mark : Mark) (receiver : Node) (name : String) (arguments : List Node) :
    R (Node.call mark receiver name arguments).slots _
      (call scope mark receiver name arguments depth)
      (call scope mark receiver name arguments depth')

/-- The rules for statements are related, nested to their depths. -/
structure StatementsRelatedAt (R : List Nat → (α : Type) → Analyze α → Analyze α → Prop)
    (depth depth' : Nat) : Prop where
  condition (scope : Scope) (n : Node) :
    R n.slots _ (condition scope n depth) (condition scope n depth')
  perform (scope : Scope) (mark : Mark) (n : Node) :
    R n.slots _ (perform scope mark n depth) (perform scope mark n depth')
  declare (scope : Scope) (mark : Mark) (name : String) (typeName : Option String) (value : Node) :
    R (Node.declare mark name typeName value).slots _
      (declare scope mark name typeName value depth)
      (declare scope mark name typeName value depth')
  assign (scope : Scope) (mark : Mark) (receiver value : Node) :
    R (Node.assign mark receiver value).slots _ (assign scope mark receiver value depth)
      (assign scope mark receiver value depth')
  block (scope : Scope) (returns : Ty) (body : List Node) :
    R (body.flatMap Node.slots) _ (block scope returns body depth) (block scope returns body depth')
  statement (scope : Scope) (returns : Ty) (n : Node) :
    R n.slots _ (statement scope returns n depth) (statement scope returns n depth')
  branch (scope : Scope) (returns : Ty) (mark : Mark) (c : Node) (thenBody elseBody : List Node) :
    R (Node.branch mark c thenBody elseBody).slots _
      (branch scope returns mark c thenBody elseBody depth)
      (branch scope returns mark c thenBody elseBody depth')
  forLoop (scope : Scope) (returns : Ty) (mark : Mark) (first c last : Node) (body : List Node) :
    R (Node.forLoop mark first c last body).slots _
      (forLoop scope returns mark first c last body depth)
      (forLoop scope returns mark first c last body depth')
  whileLoop (scope : Scope) (returns : Ty) (mark : Mark) (c : Node) (body : List Node) :
    R (Node.whileLoop mark c body).slots _ (whileLoop scope returns mark c body depth)
      (whileLoop scope returns mark c body depth')

namespace Congruence

variable {R : List Nat → (α : Type) → Analyze α → Analyze α → Prop} {α β : Type}
  {ks ls : List Nat} {x y : Analyze α} {depth depth' : Nat} {scope : Scope} {mark : Mark}
  {site : Site} {name : String} (h : Congruence R)

include h

/-! ### Building steps -/

/-- What follows a step that decorates nothing. -/
lemma nilBind {f g : α → Analyze β} (hx : R [] α x y) (hf : ∀ a, R ks β (f a) (g a)) :
    R ks β (x >>= f) (y >>= g) :=
  h.bind hx hf

/-- A step that is followed by one that decorates nothing. -/
lemma bindNil {f g : α → Analyze β} (hx : R ks α x y) (hf : ∀ a, R [] β (f a) (g a)) :
    R ks β (x >>= f) (y >>= g) := by
  have hxf := h.bind hx hf
  rwa [List.append_nil] at hxf

/-- A node is given its decoration last. -/
lemma decorated {kind : Node.Kind} {d : Decoration} (a : α) :
    R [mark.number] α
      (do
        Analysis.decorate mark kind d
        return a)
      (do
        Analysis.decorate mark kind d
        return a) :=
  h.bindNil (h.decorate mark kind d) fun _ => h.pure a

lemma require {target source : Ty} :
    R [] _ (require site target source) (require site target source) := by
  unfold Analysis.require
  split
  · exact h.pure ()
  · exact h.fail _ _

lemma mapM {slots : β → List Nat} {f g : β → Analyze α} (hf : ∀ b, R (slots b) α (f b) (g b))
    (bs : List β) : R (bs.flatMap slots) _ (bs.mapM f) (bs.mapM g) := by
  induction bs with
  | nil => exact h.pure []
  | cons b bs ih =>
    rw [List.mapM_cons, List.mapM_cons]
    exact h.bind (hf b) fun a => h.bindNil ih fun as => h.pure (a :: as)

lemma forM {slots : β → List Nat} {f g : β → Analyze PUnit} (hf : ∀ b, R (slots b) _ (f b) (g b))
    (bs : List β) : R (bs.flatMap slots) _ (bs.forM f) (bs.forM g) := by
  induction bs with
  | nil => exact h.pure PUnit.unit
  | cons b bs ih => exact h.bind (hf b) fun _ => ih

/-! ### Expressions -/

lemma requireArguments (parameters : List Ty) (arguments : List (Node × Ty)) :
    R [] _ (requireArguments parameters arguments) (requireArguments parameters arguments) := by
  induction parameters generalizing arguments with
  | nil => exact h.pure ()
  | cons parameter parameters ih =>
    cases arguments with
    | nil => exact h.pure ()
    | cons argument rest => exact h.nilBind h.require fun _ => ih rest

/-- A method that is called on a receiver has a parameter for it. -/
lemma requireReceiver {receiver : Node} {t : Ty} {g : Function} {arity : Nat}
    (hg : g.arity = arity + 1) :
    R [] _ (requireReceiver receiver t g.parameters) (requireReceiver receiver t g.parameters) := by
  unfold Function.arity at hg
  cases hparameters : g.parameters with
  | nil =>
    rw [hparameters] at hg
    cases hg
  | cons parameter parameters => exact h.require

lemma expression_succ (ih : RelatedAt R depth depth') (n : Node) :
    R n.slots _ (expression scope n (depth + 1)) (expression scope n (depth' + 1)) := by
  rw [expression.eq_def, expression.eq_def scope n (depth' + 1)]
  cases n with
  | literal mark value sort =>
    dsimp only
    split
    · exact h.fail _ _
    · exact h.decorated _
  | group mark body => exact h.bind (ih.expression scope body) fun t => h.decorated t
  | binary mark operator left right => exact ih.operation scope mark operator left right
  | access mark receiver name => exact ih.access scope mark receiver name
  | call mark receiver name arguments => exact ih.call scope mark receiver name arguments
  | _ => exact h.fail _ _

lemma operation_succ (ih : RelatedAt R depth depth') (operator : String) (left right : Node) :
    R (Node.binary mark operator left right).slots _
      (operation scope mark operator left right (depth + 1))
      (operation scope mark operator left right (depth' + 1)) := by
  rw [operation, operation, Node.slots, List.append_assoc]
  refine h.bind (ih.expression scope left) fun l => h.bind (ih.expression scope right) fun r => ?_
  split
  · exact h.fail _ _
  · exact h.decorated _

lemma access_succ (ih : RelatedAt R depth depth') (receiver : Node) (name : String) :
    R (Node.access mark receiver name).slots _ (access scope mark receiver name (depth + 1))
      (access scope mark receiver name (depth' + 1)) := by
  rw [access.eq_def, access.eq_def scope mark receiver name (depth' + 1)]
  refine h.bind ?_ fun found => h.decorated _
  split
  · exact h.lookupField _ (some scope) name
  · rw [resolving_bind, resolving_bind]
    exact h.bindNil (h.resolving _ (ih.expression scope receiver)) fun t =>
      h.lookupField _ t.members? name

lemma call_succ (ih : RelatedAt R depth depth') (receiver : Node) (name : String)
    (arguments : List Node) :
    R (Node.call mark receiver name arguments).slots _
      (call scope mark receiver name arguments (depth + 1))
      (call scope mark receiver name arguments (depth' + 1)) := by
  rw [call.eq_def, call.eq_def scope mark receiver name arguments (depth' + 1), Node.slots,
    Node.slots_all, List.append_assoc]
  refine h.bind (h.mapM (ih.expression scope) arguments) fun types => ?_
  split
  · refine h.lookupMethod _ (some scope) name arguments.length
      (f := fun ref g => do
        Analysis.decorate mark .call (.function ref)
        Analysis.requireArguments g.parameters (arguments.zip types)
        return g.returns) fun ref g _ => ?_
    refine h.bindNil (h.decorate mark _ _) fun _ => ?_
    exact h.nilBind (h.requireArguments _ _) fun _ => h.pure _
  · refine h.bind (ih.expression scope receiver) fun t => ?_
    refine h.lookupMethod _ t.members? name (arguments.length + 1)
      (f := fun ref g => do
        Analysis.decorate mark .call (.function ref)
        Analysis.requireReceiver receiver t g.parameters
        Analysis.requireArguments (g.parameters.drop 1) (arguments.zip types)
        return g.returns) fun ref g hg => ?_
    refine h.bindNil (h.decorate mark _ _) fun _ => h.nilBind (h.requireReceiver hg) fun _ => ?_
    exact h.nilBind (h.requireArguments _ _) fun _ => h.pure _

/-- The rules for expressions are related at every depth. -/
theorem relatedAt (extra depth : Nat) : RelatedAt R depth (extra + depth) := by
  induction depth with
  | zero => constructor <;> intros <;> exact h.tooDeep _
  | succ depth ih =>
    exact
      { expression := fun _ => h.expression_succ ih
        operation := fun _ _ => h.operation_succ ih
        access := fun _ _ => h.access_succ ih
        call := fun _ _ => h.call_succ ih }

/-! ### Statements -/

lemma declaredType (typeName : Option String) (value : Option (Site × Ty)) :
    R [] _ (declaredType site name typeName value) (declaredType site name typeName value) := by
  unfold Analysis.declaredType
  cases typeName with
  | some typeName =>
    refine h.nilBind (h.resolve site _) fun declared => ?_
    cases value with
    | some value => exact h.nilBind h.require fun _ => h.pure declared
    | none => exact h.nilBind (h.pure ()) fun _ => h.pure declared
  | none =>
    cases value with
    | some value => exact h.nilBind (h.pure _) fun declared => h.nilBind h.require fun _ => h.pure _
    | none => exact h.nilBind (h.fail _ _) fun declared => h.nilBind (h.pure ()) fun _ => h.pure _

lemma optionalValue (hat : RelatedAt R depth depth') (value : Node) :
    R value.slots _ (optionalValue scope value depth) (optionalValue scope value depth') := by
  unfold Analysis.optionalValue
  cases value with
  | absent => exact h.pure none
  | _ => exact h.bindNil (hat.expression scope _) fun t => h.pure _

lemma requireBody {construct : String} {body : List Node} :
    R [] _ (requireBody site construct body) (requireBody site construct body) := by
  unfold Analysis.requireBody
  split
  · exact h.fail _ _
  · exact h.pure ()

lemma condition_succ (hat : RelatedAt R depth depth') (n : Node) :
    R n.slots _ (condition scope n (depth + 1)) (condition scope n (depth' + 1)) := by
  rw [condition, condition]
  refine h.bindNil (hat.expression scope n) fun t => ?_
  split
  · exact h.pure ()
  · exact h.fail _ _

lemma perform_succ (hat : RelatedAt R depth depth') (n : Node) :
    R n.slots _ (perform scope mark n (depth + 1)) (perform scope mark n (depth' + 1)) := by
  rw [perform.eq_def, perform.eq_def scope mark n (depth' + 1)]
  refine h.bindNil (hat.expression scope n) fun t => ?_
  cases n with
  | call => exact h.pure ()
  | _ => exact h.fail _ _

lemma declare_succ (hat : RelatedAt R depth depth') (name : String) (typeName : Option String)
    (value : Node) :
    R (Node.declare mark name typeName value).slots _
      (declare scope mark name typeName value (depth + 1))
      (declare scope mark name typeName value (depth' + 1)) := by
  rw [declare, declare]
  refine h.bind (h.optionalValue hat value) fun valueType => ?_
  refine h.nilBind (h.declaredType typeName valueType) fun t => ?_
  exact h.nilBind (h.addVariable _ _ _) fun _ => h.decorate mark _ _

lemma assign_succ (hat : RelatedAt R depth depth') (receiver value : Node) :
    R (Node.assign mark receiver value).slots _ (assign scope mark receiver value (depth + 1))
      (assign scope mark receiver value (depth' + 1)) := by
  rw [assign, assign]
  refine h.bind (hat.expression scope receiver) fun _ => ?_
  refine h.bindNil (hat.expression scope value) fun t => ?_
  refine h.nilBind (h.accessed receiver) fun v => ?_
  cases v with
  | none => exact h.fail _ _
  | some v =>
    dsimp only
    split
    · exact h.nilBind (h.fail _ _) fun _ => h.require
    · exact h.require

/-- A block in a scope of its own. -/
lemma inner (ih : StatementsRelatedAt R depth depth') (returns : Ty) (body : List Node) :
    R (body.flatMap Node.slots) _ (do block (← Analysis.enter scope) returns body depth)
      (do block (← Analysis.enter scope) returns body depth') :=
  h.nilBind (h.enter scope) fun inner => ih.block inner returns body

/-- A part of a loop is analysed if there is one, and then the rest. -/
lemma clause (ih : StatementsRelatedAt R depth depth') (returns : Ty) (n : Node)
    (hx : R ks α x y) :
    R (n.slots ++ ks) α
      (if n.isPresent = true then (do
        statement scope returns n depth
        x) else x)
      (if n.isPresent = true then (do
        statement scope returns n depth'
        y) else y) := by
  cases n with
  | absent => exact hx
  | _ => exact h.bind (ih.statement scope returns _) fun _ => hx

lemma block_succ (ih : StatementsRelatedAt R depth depth') (returns : Ty) (body : List Node) :
    R (body.flatMap Node.slots) _ (block scope returns body (depth + 1))
      (block scope returns body (depth' + 1)) := by
  rw [block, block]
  exact h.forM (ih.statement scope returns) body

lemma statement_succ (hat : RelatedAt R depth depth') (ih : StatementsRelatedAt R depth depth')
    (returns : Ty) (n : Node) :
    R n.slots _ (statement scope returns n (depth + 1))
      (statement scope returns n (depth' + 1)) := by
  rw [statement.eq_def, statement.eq_def scope returns n (depth' + 1)]
  cases n with
  | perform mark e => exact ih.perform scope mark e
  | declare mark name typeName value => exact ih.declare scope mark name typeName value
  | assign mark receiver value => exact ih.assign scope mark receiver value
  | branch mark c thenBody elseBody => exact ih.branch scope returns mark c thenBody elseBody
  | forLoop mark first c last body => exact ih.forLoop scope returns mark first c last body
  | whileLoop mark c body => exact ih.whileLoop scope returns mark c body
  | giveBack mark value => exact h.bindNil (hat.expression scope value) fun t => h.require
  | _ => exact h.fail _ _

lemma branch_succ (ih : StatementsRelatedAt R depth depth') (returns : Ty) (c : Node)
    (thenBody elseBody : List Node) :
    R (Node.branch mark c thenBody elseBody).slots _
      (branch scope returns mark c thenBody elseBody (depth + 1))
      (branch scope returns mark c thenBody elseBody (depth' + 1)) := by
  rw [branch, branch, Node.slots, Node.slots_all, Node.slots_all, List.append_assoc]
  refine h.bind (ih.condition scope c) fun _ => h.nilBind h.requireBody fun _ => ?_
  refine h.nilBind (h.enter scope) fun inner => h.bind (ih.block inner returns thenBody) fun _ => ?_
  cases elseBody with
  | nil => exact h.pure ()
  | cons n ns => exact h.inner ih returns (n :: ns)

lemma forLoop_succ (ih : StatementsRelatedAt R depth depth') (returns : Ty) (first c last : Node)
    (body : List Node) :
    R (Node.forLoop mark first c last body).slots _
      (forLoop scope returns mark first c last body (depth + 1))
      (forLoop scope returns mark first c last body (depth' + 1)) := by
  rw [forLoop, forLoop, Node.slots, Node.slots_all, List.append_assoc, List.append_assoc]
  refine h.nilBind (h.enter scope) fun loop => h.clause ih returns first ?_
  have hrest : R (c.slots ++ (last.slots ++ body.flatMap Node.slots)) _
      (do
        condition loop c depth
        if last.isPresent = true then
          statement loop returns last depth
        Analysis.requireBody ⟨some .forLoop, mark.position⟩ "FOR" body
        block (← Analysis.enter loop) returns body depth)
      (do
        condition loop c depth'
        if last.isPresent = true then
          statement loop returns last depth'
        Analysis.requireBody ⟨some .forLoop, mark.position⟩ "FOR" body
        block (← Analysis.enter loop) returns body depth') := by
    refine h.bind (ih.condition loop c) fun _ => h.clause ih returns last ?_
    exact h.nilBind h.requireBody fun _ => h.inner ih returns body
  cases c with
  | absent => exact h.nilBind (h.fail _ _) fun _ => hrest
  | _ => exact hrest

lemma whileLoop_succ (ih : StatementsRelatedAt R depth depth') (returns : Ty) (c : Node)
    (body : List Node) :
    R (Node.whileLoop mark c body).slots _ (whileLoop scope returns mark c body (depth + 1))
      (whileLoop scope returns mark c body (depth' + 1)) := by
  rw [whileLoop, whileLoop, Node.slots, Node.slots_all]
  refine h.bind (ih.condition scope c) fun _ => h.nilBind h.requireBody fun _ => ?_
  exact h.inner ih returns body

/-- The rules for statements are related at every depth. -/
theorem statementsRelatedAt (extra depth : Nat) : StatementsRelatedAt R depth (extra + depth) := by
  induction depth with
  | zero => constructor <;> intros <;> exact h.tooDeep _
  | succ depth ih =>
    have hat := h.relatedAt extra depth
    exact
      { condition := fun _ => h.condition_succ hat
        perform := fun _ _ => h.perform_succ hat
        declare := fun _ _ => h.declare_succ hat
        assign := fun _ _ => h.assign_succ hat
        block := fun _ => h.block_succ ih
        statement := fun _ => h.statement_succ hat ih
        branch := fun _ returns _ => h.branch_succ ih returns
        forLoop := fun _ returns _ => h.forLoop_succ ih returns
        whileLoop := fun _ returns _ => h.whileLoop_succ ih returns }

/-! ### Programs -/

lemma field_succ (hat : RelatedAt R depth depth') (globals : Scope) (f : Field) :
    R f.slots _ (field globals f (depth + 1)) (field globals f (depth' + 1)) := by
  rw [field, field]
  refine h.bind (h.optionalValue hat f.value) fun valueType => ?_
  have hrest : R [f.mark.number] _
      (do
        let t ← Analysis.declaredType f.site f.name f.typeName valueType
        defineVariable f.site globals f.name t f.constant
        Analysis.decorate f.mark .field (.variable ⟨globals.frame, f.name⟩))
      (do
        let t ← Analysis.declaredType f.site f.name f.typeName valueType
        defineVariable f.site globals f.name t f.constant
        Analysis.decorate f.mark .field (.variable ⟨globals.frame, f.name⟩)) := by
    refine h.nilBind (h.declaredType f.typeName valueType) fun t => ?_
    exact h.nilBind (h.addVariable _ _ _) fun _ => h.decorate f.mark _ _
  dsimp only
  split
  · exact h.nilBind (h.fail _ _) fun _ => hrest
  · exact hrest

lemma defineParameters (parameters : List (String × Ty)) :
    R [] _ (defineParameters site scope parameters) (defineParameters site scope parameters) := by
  induction parameters with
  | nil => exact h.pure ()
  | cons parameter rest ih => exact h.nilBind (h.addVariable _ _ _) fun _ => ih

lemma returnType (m : Method) : R [] _ (returnType m) (returnType m) := by
  unfold Analysis.returnType
  split
  · exact h.resolve _ _
  · exact h.pure _

lemma method_succ (ih : StatementsRelatedAt R depth depth') (globals : Scope) (m : Method) :
    R m.slots _ (method globals m (depth + 1)) (method globals m (depth' + 1)) := by
  rw [method, method]
  have htypes := h.mapM (fun name => h.resolve m.site (Ty.ofName name)) m.parameterTypes
  rw [List.flatMap_eq_nil_iff.2 fun _ _ => rfl] at htypes
  refine h.nilBind htypes fun parameters => h.nilBind (h.returnType m) fun returns => ?_
  refine h.nilBind (h.addFunction _ _ _) fun _ => h.bind (h.decorate m.mark _ _) fun _ => ?_
  refine h.nilBind (h.enter globals) fun scope => h.nilBind (h.defineParameters _) fun _ => ?_
  exact h.forM (ih.statement scope returns) m.body

lemma requireMain (globals : Scope) (site : Site) :
    R [] _ (requireMain globals site) (requireMain globals site) := by
  refine h.nilBind (h.findMain globals site) fun main => ?_
  split
  · exact h.pure ()
  · exact h.fail _ _

lemma field (extra depth : Nat) (globals : Scope) (f : Field) :
    R f.slots _ (field globals f depth) (field globals f (extra + depth)) := by
  cases depth with
  | zero => exact h.tooDeep _
  | succ depth => exact h.field_succ (h.relatedAt extra depth) globals f

lemma method (extra depth : Nat) (globals : Scope) (m : Method) :
    R m.slots _ (method globals m depth) (method globals m (extra + depth)) := by
  cases depth with
  | zero => exact h.tooDeep _
  | succ depth => exact h.method_succ (h.statementsRelatedAt extra depth) globals m

/-- A program is related to itself when it is analysed with more depth. -/
theorem program (hdepth : depth ≤ depth') (globals : Scope) (p : Program) :
    R p.slots _ (program depth globals p) (program depth' globals p) := by
  obtain ⟨extra, rfl⟩ := Nat.exists_eq_add_of_le' hdepth
  refine h.bind (h.forM (h.field extra depth globals) p.fields) fun _ => ?_
  refine h.bindNil (h.forM (h.method extra depth globals) p.methods) fun _ => ?_
  exact h.requireMain globals p.site

end Congruence

end LetDef.Analysis
