import LetDef.Analysis.Program
import LetDef.Proofs.Commuting
import LetDef.Proofs.Position.Move

/-!
# Analysis commutes with moving

Analysis knows a node by its number, and the functions that it defines have no bodies. So it leaves
the very same state behind when the tree is moved, and only what a fault points at moves along.
-/

namespace LetDef.Analysis

/-- What stops analysis, with its position moved. -/
def Halt.move (φ : Position → Position) : Halt → Halt
  | .fault f => .fault ⟨f.cause, f.site.move φ⟩
  | halt => halt

/-- Faults are moved, and the state stays as it is. -/
def moving (φ : Position → Position) : Change Halt State where
  error := Halt.move φ
  state := id

lemma moving_state {φ : Position → Position} (s : State) : (moving φ).state s = s :=
  rfl

variable {α β : Type} {φ : Position → Position} {site : Site} {scope : Scope} {t : Ty}

/-! ### Steps -/

lemma commutes_fail (f : α → β) (site : Site) (cause : Cause) :
    Commutes (moving φ) f (fail site cause) (fail (site.move φ) cause) :=
  commutes_throw f _

lemma commutes_tooDeep (f : α → β) : Commutes (moving φ) f tooDeep tooDeep :=
  commutes_throw f _

lemma commutes_decorate (m : Mark) (kind : Node.Kind) (d : Decoration) :
    Commutes (moving φ) id (decorate m kind d) (decorate (m.move φ) kind d) := by
  have hmark : decorate (m.move φ) kind d = decorate m kind d := rfl
  rw [hmark]
  refine commutes_get fun s => ?_
  rw [moving_state]
  split
  · exact commutes_throw id _
  · exact fun _ => rfl

lemma commutes_resolving {f : α → β} {x : Analyze α} {y : Analyze β}
    (h : Commutes (moving φ) f x y) :
    Commutes (moving φ) f (resolving site x) (resolving (site.move φ) y) := by
  refine h.tryCatch fun halt => ?_
  cases halt with
  | naming e => exact commutes_fail f site _
  | _ => exact commutes_throw f _

lemma commutes_unwrap (result : Except NameError α) :
    Commutes (moving φ) id (unwrap result) (unwrap result) := by
  cases result with
  | ok a => exact commutes_pure id a
  | error e => exact commutes_throw id _

lemma commutes_resolve (result : Except NameError α) :
    Commutes (moving φ) id (resolve site result) (resolve (site.move φ) result) :=
  commutes_resolving (commutes_unwrap result)

lemma commutes_consult (find : Store → Except NameError α) :
    Commutes (moving φ) id (consult find) (consult find) :=
  commutes_get fun s => commutes_unwrap (find s.store)

lemma commutes_lookup (find : Store → Except NameError α) :
    Commutes (moving φ) id (lookup site find) (lookup (site.move φ) find) :=
  commutes_resolving (commutes_consult find)

lemma commutes_modifyStore (f : Store → Store) :
    Commutes (moving φ) id (modifyStore f) (modifyStore f) :=
  commutes_modify fun _ => rfl

lemma commutes_addVariable (v : Variable) :
    Commutes (moving φ) id (addVariable site scope v) (addVariable (site.move φ) scope v) := by
  refine commutes_resolving (commutes_get fun s => ?_)
  rw [moving_state]
  split
  · exact commutes_throw id _
  · exact commutes_modifyStore _

lemma commutes_addFunction (g : Function) :
    Commutes (moving φ) id (addFunction site scope g) (addFunction (site.move φ) scope g) := by
  refine commutes_resolving (commutes_get fun s => ?_)
  rw [moving_state]
  split
  · exact commutes_throw id _
  · exact commutes_modifyStore _

lemma commutes_enter : Commutes (moving φ) id (enter scope) (enter scope) :=
  commutes_modifyGet fun _ => rfl

lemma commutes_require (target source : Ty) :
    Commutes (moving φ) id (require site target source) (require (site.move φ) target source) :=
  Commutes.ite (commutes_pure id _) (commutes_fail id site _)

/-! ### Expressions -/

lemma commutes_requireArguments (parameters : List Ty) (arguments : List (Node × Ty)) :
    Commutes (moving φ) id (requireArguments parameters arguments)
      (requireArguments parameters (arguments.map (Prod.map (Node.move φ) id))) := by
  induction parameters generalizing arguments with
  | nil => exact commutes_pure id _
  | cons parameter parameters ih =>
    cases arguments with
    | nil => exact commutes_pure id _
    | cons argument rest =>
      obtain ⟨n, t⟩ := argument
      rw [List.map_cons, Prod.map, requireArguments, requireArguments, Node.site_move]
      exact (commutes_require parameter t).bind fun _ => ih rest

lemma commutes_requireReceiver (receiver : Node) (t : Ty) (parameters : List Ty) :
    Commutes (moving φ) id (requireReceiver receiver t parameters)
      (requireReceiver (receiver.move φ) t parameters) := by
  cases parameters with
  | nil => exact commutes_throw id _
  | cons parameter parameters =>
    rw [requireReceiver, requireReceiver, Node.site_move]
    exact commutes_require parameter t

/-- The rules of expressions that are nested to the depth commute with moving. -/
structure CommutesAt (φ : Position → Position) (depth : Nat) : Prop where
  expression : ∀ scope n, Commutes (moving φ) id (expression scope n depth)
    (expression scope (n.move φ) depth)
  operation : ∀ scope mark operator left right,
    Commutes (moving φ) id (operation scope mark operator left right depth)
      (operation scope (mark.move φ) operator (left.move φ) (right.move φ) depth)
  access : ∀ scope mark receiver name,
    Commutes (moving φ) id (access scope mark receiver name depth)
      (access scope (mark.move φ) (receiver.move φ) name depth)
  call : ∀ scope mark receiver name arguments,
    Commutes (moving φ) id (call scope mark receiver name arguments depth)
      (call scope (mark.move φ) (receiver.move φ) name (arguments.map (Node.move φ)) depth)

section

variable {depth : Nat} (ih : CommutesAt φ depth)

include ih

lemma commutes_expression (n : Node) :
    Commutes (moving φ) id (expression scope n (depth + 1))
      (expression scope (n.move φ) (depth + 1)) := by
  rw [expression.eq_def, expression.eq_def scope (n.move φ)]
  cases n with
  | literal mark value sort =>
    dsimp only [Node.move]
    split
    · exact commutes_fail id _ _
    · exact (commutes_decorate mark _ _).bind fun _ => commutes_pure id _
  | group mark body =>
    exact (ih.expression _ body).bind fun t =>
      (commutes_decorate mark _ _).bind fun _ => commutes_pure id t
  | binary mark operator left right => exact ih.operation _ _ _ _ _
  | access mark receiver name => exact ih.access _ _ _ _
  | call mark receiver name arguments =>
    dsimp only [Node.move]
    rw [Node.move_all]
    exact ih.call _ _ _ _ _
  | _ => exact commutes_fail id _ _

lemma commutes_operation (mark : Mark) (operator : String) (left right : Node) :
    Commutes (moving φ) id (operation scope mark operator left right (depth + 1))
      (operation scope (mark.move φ) operator (left.move φ) (right.move φ) (depth + 1)) := by
  rw [operation, operation]
  refine (ih.expression _ left).bind fun l => (ih.expression _ right).bind fun r => ?_
  rw [id, id]
  split
  · exact commutes_fail id ⟨_, _⟩ _
  · exact (commutes_decorate mark _ _).bind fun _ => commutes_pure id _

lemma commutes_access (mark : Mark) (receiver : Node) (name : String) :
    Commutes (moving φ) id (access scope mark receiver name (depth + 1))
      (access scope (mark.move φ) (receiver.move φ) name (depth + 1)) := by
  rw [access.eq_def, access.eq_def scope (mark.move φ)]
  have hend : ∀ found : VariableRef × Variable, Commutes (moving φ) id
      (do decorate mark .access (.variable found.1); return found.2.type)
      (do decorate (mark.move φ) .access (.variable found.1); return found.2.type) :=
    fun found => (commutes_decorate mark _ _).bind fun _ => commutes_pure id _
  cases receiver with
  | absent => exact (commutes_resolving (commutes_consult _)).bind hend
  | _ =>
    refine Commutes.bind (commutes_resolving ?_) hend
    exact (ih.expression _ _).bind fun t => commutes_consult _

lemma commutes_call (mark : Mark) (receiver : Node) (name : String) (arguments : List Node) :
    Commutes (moving φ) id (call scope mark receiver name arguments (depth + 1))
      (call scope (mark.move φ) (receiver.move φ) name (arguments.map (Node.move φ))
        (depth + 1)) := by
  rw [call.eq_def, call.eq_def scope (mark.move φ)]
  have htypes : Commutes (moving φ) (List.map id)
      (arguments.mapM fun argument => expression scope argument depth)
      ((arguments.map (Node.move φ)).mapM fun argument => expression scope argument depth) :=
    Commutes.mapM fun n => ih.expression scope n
  refine htypes.bind fun types => ?_
  rw [List.map_id, List.length_map, List.zip_map_left]
  cases receiver with
  | absent =>
    refine (commutes_lookup _).bind fun found => (commutes_decorate mark _ _).bind fun _ => ?_
    exact (commutes_requireArguments _ _).bind fun _ => commutes_pure id _
  | _ =>
    refine (ih.expression _ _).bind fun t => (commutes_lookup _).bind fun found => ?_
    refine (commutes_decorate mark _ _).bind fun _ => ?_
    refine (commutes_requireReceiver _ t _).bind fun _ => ?_
    exact (commutes_requireArguments _ _).bind fun _ => commutes_pure id _

end

/-- The rules of expressions commute with moving at every depth. -/
lemma commutesAt (φ : Position → Position) (depth : Nat) : CommutesAt φ depth := by
  induction depth with
  | zero => constructor <;> intros <;> exact commutes_tooDeep id
  | succ depth ih =>
    exact
      { expression := fun _ => commutes_expression ih
        operation := fun _ => commutes_operation ih
        access := fun _ => commutes_access ih
        call := fun _ => commutes_call ih }

/-! ### Statements -/

section

variable {depth : Nat}

lemma commutes_optionalValue (value : Node) :
    Commutes (moving φ) (Option.map (Prod.map (Site.move φ) id)) (optionalValue scope value depth)
      (optionalValue scope (value.move φ) depth) := by
  unfold optionalValue
  rw [Node.isPresent_move, Node.site_move]
  refine Commutes.ite ?_ (commutes_pure _ none)
  exact ((commutesAt φ depth).expression _ _).bind fun t => commutes_pure _ (some (value.site, t))

lemma commutes_declaredType (name : String) (typeName : Option String)
    (value : Option (Site × Ty)) :
    Commutes (moving φ) id (declaredType site name typeName value)
      (declaredType (site.move φ) name typeName
        (value.map (Prod.map (Site.move φ) id))) := by
  have hfits : ∀ (found : Site × Ty) (declared : Ty), Commutes (moving φ) id
      (do require found.1 declared found.2; return declared)
      (do require (found.1.move φ) declared found.2; return declared) :=
    fun found declared => (commutes_require _ _).bind fun _ => commutes_pure id declared
  cases typeName with
  | some typeName =>
    cases value with
    | some found => exact (commutes_resolve _).bind (hfits found)
    | none => exact (commutes_resolve _).bind fun declared => commutes_pure id declared
  | none =>
    cases value with
    | some found => exact (commutes_pure id found.2).bind (hfits found)
    | none => exact (commutes_fail id site _).bind fun declared => commutes_pure id declared

lemma commutes_defineVariable (name : String) (t : Ty) (constant : Bool) :
    Commutes (moving φ) id (defineVariable site scope name t constant)
      (defineVariable (site.move φ) scope name t constant) :=
  commutes_addVariable _

lemma commutes_condition (n : Node) :
    Commutes (moving φ) id (condition scope n depth) (condition scope (n.move φ) depth) := by
  cases depth with
  | zero => exact commutes_tooDeep id
  | succ depth =>
    rw [condition, condition, Node.site_move]
    refine ((commutesAt φ depth).expression _ n).bind fun t => ?_
    exact Commutes.ite (commutes_pure id _) (commutes_fail id _ _)

lemma commutes_perform (mark : Mark) (n : Node) :
    Commutes (moving φ) id (perform scope mark n depth)
      (perform scope (mark.move φ) (n.move φ) depth) := by
  cases depth with
  | zero => exact commutes_tooDeep id
  | succ depth =>
    refine ((commutesAt φ depth).expression _ n).bind fun t => ?_
    cases n with
    | call => exact commutes_pure id _
    | _ => exact commutes_fail id ⟨_, _⟩ _

lemma commutes_declare (mark : Mark) (name : String) (typeName : Option String) (value : Node) :
    Commutes (moving φ) id (declare scope mark name typeName value depth)
      (declare scope (mark.move φ) name typeName (value.move φ) depth) := by
  cases depth with
  | zero => exact commutes_tooDeep id
  | succ depth =>
    refine (commutes_optionalValue value).bind fun found => ?_
    refine (commutes_declaredType _ _ found).bind fun t => ?_
    exact (commutes_defineVariable _ _ _).bind fun _ => commutes_decorate mark _ _

lemma commutes_accessed? (n : Node) :
    Commutes (moving φ) id (accessed? n) (accessed? (n.move φ)) := by
  have hmove : accessed? (n.move φ) = accessed? n := by cases n <;> rfl
  rw [hmove]
  refine commutes_get fun s => ?_
  rw [moving_state]
  split
  · split <;> exact commutes_pure id _
  · exact commutes_pure id _

lemma commutes_assign (mark : Mark) (receiver value : Node) :
    Commutes (moving φ) id (assign scope mark receiver value depth)
      (assign scope (mark.move φ) (receiver.move φ) (value.move φ) depth) := by
  cases depth with
  | zero => exact commutes_tooDeep id
  | succ depth =>
    have he := (commutesAt φ depth).expression scope
    refine (he receiver).bind fun _ => (he value).bind fun t => ?_
    refine (commutes_accessed? receiver).bind fun found => ?_
    cases found with
    | none => exact commutes_fail id ⟨_, _⟩ _
    | some v => exact Commutes.whenBind (commutes_fail id ⟨_, _⟩ _) (commutes_require _ _)

lemma commutes_requireBody (construct : String) (body : List Node) :
    Commutes (moving φ) id (requireBody site construct body)
      (requireBody (site.move φ) construct (body.map (Node.move φ))) := by
  unfold requireBody
  rw [List.isEmpty_map]
  exact Commutes.ite (commutes_fail id _ _) (commutes_pure id _)

/-- The rules of statements that are nested to the depth commute with moving. -/
structure StatementCommutesAt (φ : Position → Position) (depth : Nat) : Prop where
  block : ∀ scope returns body, Commutes (moving φ) id (block scope returns body depth)
    (block scope returns (body.map (Node.move φ)) depth)
  statement : ∀ scope returns n, Commutes (moving φ) id (statement scope returns n depth)
    (statement scope returns (n.move φ) depth)
  branch : ∀ scope returns mark c thenBody elseBody,
    Commutes (moving φ) id (branch scope returns mark c thenBody elseBody depth)
      (branch scope returns (mark.move φ) (c.move φ) (thenBody.map (Node.move φ))
        (elseBody.map (Node.move φ)) depth)
  forLoop : ∀ scope returns mark first c last body,
    Commutes (moving φ) id (forLoop scope returns mark first c last body depth)
      (forLoop scope returns (mark.move φ) (first.move φ) (c.move φ) (last.move φ)
        (body.map (Node.move φ)) depth)
  whileLoop : ∀ scope returns mark c body,
    Commutes (moving φ) id (whileLoop scope returns mark c body depth)
      (whileLoop scope returns (mark.move φ) (c.move φ) (body.map (Node.move φ)) depth)

section

variable {returns : Ty} (ih : StatementCommutesAt φ depth)

include ih

lemma commutes_statement (n : Node) :
    Commutes (moving φ) id (statement scope returns n (depth + 1))
      (statement scope returns (n.move φ) (depth + 1)) := by
  rw [statement.eq_def, statement.eq_def scope returns (n.move φ)]
  cases n with
  | perform mark e => exact commutes_perform mark e
  | declare mark name typeName value => exact commutes_declare mark name typeName value
  | assign mark receiver value => exact commutes_assign mark receiver value
  | branch mark c thenBody elseBody =>
    dsimp only [Node.move]
    rw [Node.move_all, Node.move_all]
    exact ih.branch _ _ mark c thenBody elseBody
  | forLoop mark first c last body =>
    dsimp only [Node.move]
    rw [Node.move_all]
    exact ih.forLoop _ _ mark first c last body
  | whileLoop mark c body =>
    dsimp only [Node.move]
    rw [Node.move_all]
    exact ih.whileLoop _ _ mark c body
  | giveBack mark value =>
    refine ((commutesAt φ depth).expression _ value).bind fun t => ?_
    exact commutes_require _ _
  | _ => exact commutes_fail id _ _

/-- A block in a scope of its own. -/
lemma commutes_inner (body : List Node) :
    Commutes (moving φ) id (do block (← enter scope) returns body depth)
      (do block (← enter scope) returns (body.map (Node.move φ)) depth) :=
  commutes_enter.bind fun inner => ih.block inner _ body

lemma commutes_branch (mark : Mark) (c : Node) (thenBody elseBody : List Node) :
    Commutes (moving φ) id (branch scope returns mark c thenBody elseBody (depth + 1))
      (branch scope returns (mark.move φ) (c.move φ) (thenBody.map (Node.move φ))
        (elseBody.map (Node.move φ)) (depth + 1)) := by
  rw [branch, branch, List.isEmpty_map]
  refine (commutes_condition c).bind fun _ => (commutes_requireBody _ thenBody).bind fun _ => ?_
  refine commutes_enter.bind fun inner => (ih.block inner _ thenBody).bind fun _ => ?_
  exact Commutes.ite (commutes_inner ih elseBody) (commutes_pure id _)

lemma commutes_forLoop (mark : Mark) (first c last : Node) (body : List Node) :
    Commutes (moving φ) id (forLoop scope returns mark first c last body (depth + 1))
      (forLoop scope returns (mark.move φ) (first.move φ) (c.move φ) (last.move φ)
        (body.map (Node.move φ)) (depth + 1)) := by
  rw [forLoop, forLoop]
  simp only [Node.isPresent_move]
  refine commutes_enter.bind fun loop => Commutes.whenBind (ih.statement loop _ first) ?_
  refine Commutes.whenBind (commutes_fail id ⟨_, _⟩ _) ?_
  refine (commutes_condition c).bind fun _ => Commutes.whenBind (ih.statement loop _ last) ?_
  exact (commutes_requireBody _ body).bind fun _ => commutes_inner ih body

lemma commutes_whileLoop (mark : Mark) (c : Node) (body : List Node) :
    Commutes (moving φ) id (whileLoop scope returns mark c body (depth + 1))
      (whileLoop scope returns (mark.move φ) (c.move φ) (body.map (Node.move φ)) (depth + 1)) := by
  rw [whileLoop, whileLoop]
  refine (commutes_condition c).bind fun _ => ?_
  exact (commutes_requireBody _ body).bind fun _ => commutes_inner ih body

end

/-- The rules of statements commute with moving at every depth. -/
lemma statementCommutesAt (φ : Position → Position) (depth : Nat) :
    StatementCommutesAt φ depth := by
  induction depth with
  | zero => constructor <;> intros <;> exact commutes_tooDeep id
  | succ depth ih =>
    exact
      { block := fun scope returns body => by
          rw [block, block]
          exact Commutes.forM (ih.statement scope returns)
        statement := fun _ _ => commutes_statement ih
        branch := fun _ _ => commutes_branch ih
        forLoop := fun _ _ => commutes_forLoop ih
        whileLoop := fun _ _ => commutes_whileLoop ih }

end

/-! ### Programs -/

section

variable {depth : Nat} {globals : Scope}

lemma commutes_field (f : Field) :
    Commutes (moving φ) id (field globals f depth) (field globals (f.move φ) depth) := by
  cases depth with
  | zero => exact commutes_tooDeep id
  | succ depth =>
    rw [field, field]
    refine (commutes_optionalValue f.value).bind fun found => ?_
    simp only [Field.move, Node.isPresent_move]
    refine Commutes.whenBind (commutes_fail id f.site _) ?_
    refine (commutes_declaredType _ _ found).bind fun t => ?_
    exact (commutes_defineVariable _ _ _).bind fun _ => commutes_decorate f.mark _ _

lemma commutes_returnType (m : Method) :
    Commutes (moving φ) id (returnType m) (returnType (m.move φ)) := by
  obtain ⟨mark, name, parameters, parameterTypes, returns, body⟩ := m
  cases returns with
  | none => exact commutes_pure id _
  | some name => exact commutes_resolve _

lemma commutes_defineParameters (parameters : List (String × Ty)) :
    Commutes (moving φ) id (defineParameters site scope parameters)
      (defineParameters (site.move φ) scope parameters) := by
  induction parameters with
  | nil => exact commutes_pure id _
  | cons parameter rest ih => exact (commutes_defineVariable _ _ _).bind fun _ => ih

lemma commutes_method (m : Method) :
    Commutes (moving φ) id (method globals m depth) (method globals (m.move φ) depth) := by
  cases depth with
  | zero => exact commutes_tooDeep id
  | succ depth =>
    have htypes : Commutes (moving φ) (List.map id)
        (m.parameterTypes.mapM fun name => resolve m.site (Ty.ofName name))
        ((m.parameterTypes.map id).mapM fun name => resolve (m.site.move φ) (Ty.ofName name)) :=
      Commutes.mapM fun name => commutes_resolve (Ty.ofName name)
    rw [List.map_id, List.map_id_fun] at htypes
    rw [method, method]
    refine htypes.bind fun parameters => (commutes_returnType m).bind fun returns => ?_
    refine (commutes_addFunction _).bind fun _ => (commutes_decorate m.mark _ _).bind fun _ => ?_
    refine commutes_enter.bind fun scope => (commutes_defineParameters _).bind fun _ => ?_
    exact Commutes.forM ((statementCommutesAt φ depth).statement scope returns)

lemma commutes_findMain :
    Commutes (moving φ) id (findMain globals site) (findMain globals (site.move φ)) := by
  refine Commutes.tryCatch ((commutes_consult _).bind fun _ => commutes_pure id _) fun halt => ?_
  cases halt with
  | naming e => exact commutes_fail id site _
  | _ => exact commutes_throw id _

lemma commutes_requireMain :
    Commutes (moving φ) id (requireMain globals site) (requireMain globals (site.move φ)) :=
  commutes_findMain.bind fun _ => Commutes.ite (commutes_pure id _) (commutes_fail id site _)

lemma commutes_program (p : Program) :
    Commutes (moving φ) id (program depth globals p) (program depth globals (p.move φ)) := by
  have hfields : Commutes (moving φ) id (p.fields.forM fun f => field globals f depth)
      ((p.fields.map (Field.move φ)).forM fun f => field globals f depth) :=
    Commutes.forM commutes_field
  have hmethods : Commutes (moving φ) id (p.methods.forM fun m => method globals m depth)
      ((p.methods.map (Method.move φ)).forM fun m => method globals m depth) :=
    Commutes.forM commutes_method
  exact hfields.bind fun _ => hmethods.bind fun _ => commutes_requireMain

/-- Analysis of a moved program leaves the same state, or stops at the moved fault. -/
theorem commutes_analyze (p : Program) :
    Commutes (moving φ) id (analyze depth globals p) (analyze depth globals (p.move φ)) := by
  unfold analyze guarding
  rw [Program.numbered_move]
  refine Commutes.tryCatch (commutes_program _) fun halt => ?_
  cases halt with
  | tooDeep => exact commutes_fail id p.site _
  | _ => exact commutes_throw id _

end

end LetDef.Analysis
