import LetDef.Parser.Program
import LetDef.Proofs.Position.Move

/-!
# Parsing commutes with moving

`Moves φ f p q` says that `q` reads from moved tokens what `p` reads from the tokens, moved by `f`,
and stops at the moved fault where `p` stops. Each way to build a parser has a rule here, and the
parsers of the grammar follow by induction on the depth to which their rules may be nested.
-/

namespace LetDef.Parser

variable {α β γ δ : Type} {φ : Position → Position}

/-- The fault with its position moved. -/
def Fault.move (φ : Position → Position) : Fault → Fault
  | .unexpected slot found => .unexpected slot (found.move φ)
  | .ended slot => .ended slot
  | .unknownEscape c token => .unknownEscape c (token.move φ)
  | .invalidCharacter token => .invalidCharacter (token.move φ)

/-- What stops parsing, with its position moved. -/
def Halt.move (φ : Position → Position) : Halt → Halt
  | .fault f => .fault (f.move φ)
  | .unreadableInteger => .unreadableInteger
  | .unreadableDecimal => .unreadableDecimal
  | .tooDeep => .tooDeep

/-- From moved tokens `q` reads what `p` reads from the tokens, but moved. -/
def Moves (φ : Position → Position) (f : α → β) (p : Parse α) (q : Parse β) : Prop :=
  ∀ ts, q.run (ts.map (Token.move φ)) =
    match p.run ts with
    | .ok (a, rest) => .ok (f a, rest.map (Token.move φ))
    | .error h => .error (h.move φ)

/-! ### Building parsers -/

section

variable {f : α → β} {g : γ → δ} {p p' : Parse α} {q q' : Parse β}

lemma moves_pure (f : α → β) (a : α) : Moves φ f (pure a) (pure (f a)) :=
  fun _ => rfl

lemma moves_throw (f : α → β) (h : Halt) : Moves φ f (throw h) (throw (h.move φ)) :=
  fun _ => rfl

lemma moves_fail (f : α → β) (e : Fault) : Moves φ f (fail e) (fail (e.move φ)) :=
  fun _ => rfl

lemma moves_tooDeep (f : α → β) : Moves φ f tooDeep tooDeep :=
  fun _ => rfl

lemma Moves.bind {k : α → Parse γ} {l : β → Parse δ} (h : Moves φ f p q)
    (hk : ∀ a, Moves φ g (k a) (l (f a))) : Moves φ g (p >>= k) (q >>= l) := by
  intro ts
  rw [StateT.run_bind, StateT.run_bind, h ts]
  cases p.run ts with
  | error e => rfl
  | ok r => exact hk r.1 r.2

lemma Moves.ite {c : Prop} [Decidable c] (h : Moves φ f p q) (h' : Moves φ f p' q') :
    Moves φ f (if c then p else p') (if c then q else q') := by
  split
  · exact h
  · exact h'

/-- One of two parsers, and what follows either. -/
lemma Moves.iteBind {c : Prop} [Decidable c] {k : α → Parse γ} {l : β → Parse δ}
    (h : Moves φ f p q) (h' : Moves φ f p' q') (hk : ∀ a, Moves φ g (k a) (l (f a))) :
    Moves φ g (if c then p >>= k else p' >>= k) (if c then q >>= l else q' >>= l) :=
  Moves.ite (h.bind hk) (h'.bind hk)

/-- A parser that is used under a condition, and what follows either way. -/
lemma Moves.whenBind {c : Prop} [Decidable c] {k : Parse γ} {l : Parse δ} (h : Moves φ f p q)
    (hk : Moves φ g k l) :
    Moves φ g (if c then p >>= fun _ => k else k) (if c then q >>= fun _ => l else l) :=
  Moves.ite (h.bind fun _ => hk) hk

/-- What follows a look at the tokens may depend on them. -/
lemma moves_get {k : List Token → Parse α} {l : List Token → Parse β}
    (hk : ∀ ts, Moves φ f (k ts) (l (ts.map (Token.move φ)))) :
    Moves φ f (get >>= k) (get >>= l) :=
  fun ts => hk ts ts

lemma moves_set {k : Parse α} {l : Parse β} (ts : List Token) (h : Moves φ f k l) :
    Moves φ f (set ts >>= fun _ => k) (set (ts.map (Token.move φ)) >>= fun _ => l) :=
  fun _ => h ts

end

lemma moves_node (n : Node) : Moves φ (Node.move φ) (pure n) (pure (n.move φ)) :=
  moves_pure _ n

/-! ### Reading tokens -/

section

variable {s : String} {slot : Slot}

lemma fits_move (pattern : Pattern) (t : Token) : pattern.fits (t.move φ) = pattern.fits t := by
  cases pattern <;> rfl

lemma moves_miss (f : α → β) : Moves φ f (miss slot) (miss slot) := by
  refine moves_get fun ts => ?_
  cases ts with
  | nil => exact moves_fail f _
  | cons t rest => exact moves_fail f (.unexpected slot t)

lemma moves_peekText : Moves φ id (peekText s) (peekText s) := by
  refine moves_get fun ts => ?_
  cases ts with
  | nil => exact moves_pure id _
  | cons t rest => exact moves_pure id _

lemma moves_accept? (pattern : Pattern) :
    Moves φ (Option.map (Token.move φ)) (accept? pattern) (accept? pattern) := by
  refine moves_get fun ts => ?_
  cases ts with
  | nil => exact moves_pure _ none
  | cons t rest =>
    simp only [List.map_cons, fits_move]
    exact Moves.ite (moves_set rest (moves_pure _ (some t))) (moves_pure _ none)

lemma moves_acceptText : Moves φ id (acceptText s) (acceptText s) := by
  refine (moves_accept? _).bind fun t => ?_
  cases t with
  | none => exact moves_pure id _
  | some t => exact moves_pure id _

lemma moves_take : Moves φ (Token.move φ) (take slot) (take slot) := by
  refine (moves_accept? _).bind fun t => ?_
  cases t with
  | none => exact moves_miss _
  | some t => exact moves_pure _ t

lemma moves_here : Moves φ (Mark.move φ) here here := by
  refine moves_get fun ts => ?_
  cases ts with
  | nil => exact moves_pure _ _
  | cons t rest => exact moves_pure _ _

lemma moves_nameAfter : Moves φ id (nameAfter s slot) (nameAfter s slot) := by
  refine moves_acceptText.bind fun found => Moves.ite ?_ (moves_pure id none)
  exact moves_take.bind fun t => moves_pure id (some t.lexeme)

lemma Moves.partAfter {p q : Parse Node} (h : Moves φ (Node.move φ) p q) :
    Moves φ (Node.move φ) (partAfter s p) (partAfter s q) :=
  moves_acceptText.bind fun _ => Moves.ite h (moves_pure _ _)

lemma Moves.commaList {f : α → β} {p : Parse α} {q : Parse β} (h : Moves φ f p q) (width : Nat) :
    Moves φ (List.map f) (commaList p width) (commaList q width) := by
  induction width with
  | zero => exact h.bind fun a => moves_pure _ [a]
  | succ width ih =>
    refine h.bind fun a => moves_acceptText.bind fun more => Moves.ite ?_ (moves_pure _ [a])
    exact ih.bind fun as => moves_pure _ (a :: as)

end

/-! ### Expressions -/

section

variable {width depth : Nat}

lemma moves_unquote (t : Token) : Moves φ id (unquote t) (unquote (t.move φ)) := by
  unfold unquote
  rw [Token.lexeme_move]
  split
  · exact moves_pure id _
  · exact moves_fail id (.unknownEscape _ t)

lemma moves_integerLiteral (t : Token) :
    Moves φ (Node.move φ) (integerLiteral t) (integerLiteral (t.move φ)) := by
  unfold integerLiteral
  rw [Token.lexeme_move]
  split
  · exact moves_node (literalAt t _ _)
  · exact moves_throw _ .unreadableInteger

lemma moves_decimalLiteral (t : Token) :
    Moves φ (Node.move φ) (decimalLiteral t) (decimalLiteral (t.move φ)) := by
  unfold decimalLiteral
  rw [Token.lexeme_move]
  split
  · exact moves_node (literalAt t _ _)
  · exact moves_throw _ .unreadableDecimal

lemma moves_characterLiteral (t : Token) :
    Moves φ (Node.move φ) (characterLiteral t) (characterLiteral (t.move φ)) := by
  refine (moves_unquote t).bind fun cs => ?_
  rw [id]
  split
  · exact moves_node (literalAt t _ _)
  · exact moves_fail _ (.invalidCharacter t)

lemma moves_stringLiteral (t : Token) :
    Moves φ (Node.move φ) (stringLiteral t) (stringLiteral (t.move φ)) :=
  (moves_unquote t).bind fun _ => moves_node (literalAt t _ _)

lemma moves_acceptOperator? (operators : List String) :
    Moves φ (Option.map (Token.move φ)) (acceptOperator? operators)
      (acceptOperator? operators) := by
  refine moves_get fun ts => ?_
  cases ts with
  | nil => exact moves_pure _ none
  | cons t rest => exact Moves.ite (moves_set rest (moves_pure _ (some t))) (moves_pure _ none)

lemma Moves.operatorChain {p q : Parse Node} (h : Moves φ (Node.move φ) p q)
    (operators : List String) (width : Nat) (left : Node) :
    Moves φ (Node.move φ) (operatorChain operators p width left)
      (operatorChain operators q width (left.move φ)) := by
  induction width generalizing left with
  | zero => exact moves_pure _ left
  | succ width ih =>
    refine (moves_acceptOperator? operators).bind fun t => ?_
    cases t with
    | none => exact moves_pure _ left
    | some t =>
      refine h.bind fun right => ?_
      rw [Node.mark_move]
      exact ih (.binary { position := left.mark.position } t.lexeme left right)

lemma Moves.memberChain {p q : Parse (List Node)} (h : Moves φ (List.map (Node.move φ)) p q)
    (width : Nat) (e : Node) :
    Moves φ (Node.move φ) (memberChain p width e) (memberChain q width (e.move φ)) := by
  induction width generalizing e with
  | zero => exact moves_pure _ e
  | succ width ih =>
    refine moves_acceptText.bind fun point => Moves.ite ?_ (moves_pure _ e)
    refine moves_take.bind fun name => moves_acceptText.bind fun opens => Moves.ite ?_ ?_
    · refine h.bind fun arguments => ?_
      rw [← Node.move_all]
      exact ih (.call (markOf name) e name.lexeme arguments)
    · exact ih (.access (markOf name) e name.lexeme)

/-- The rules of expressions that are nested to the depth commute with moving. -/
structure MovesAt (φ : Position → Position) (width depth : Nat) : Prop where
  expression : Moves φ (Node.move φ) (expression width depth) (expression width depth)
  operation : ∀ level,
    Moves φ (Node.move φ) (operation width level depth) (operation width level depth)
  secondary : Moves φ (Node.move φ) (secondary width depth) (secondary width depth)
  primary : Moves φ (Node.move φ) (primary width depth) (primary width depth)
  arguments : Moves φ (List.map (Node.move φ)) (arguments width depth) (arguments width depth)

lemma moves_operation {level : Level} (ih : MovesAt φ width depth) :
    Moves φ (Node.move φ) (operation width level (depth + 2))
      (operation width level (depth + 2)) := by
  rw [operation]
  cases level with
  | multiplicative => exact ih.secondary.bind fun left => ih.secondary.operatorChain _ _ left
  | _ => exact (ih.operation _).bind fun left => (ih.operation _).operatorChain _ _ left

lemma moves_arguments (ih : MovesAt φ width depth) :
    Moves φ (List.map (Node.move φ)) (arguments width (depth + 1))
      (arguments width (depth + 1)) := by
  rw [arguments]
  refine moves_peekText.bind fun closes => ?_
  refine Moves.iteBind (moves_pure (List.map _) []) (ih.expression.commaList _) fun items => ?_
  exact moves_take.bind fun _ => moves_pure _ items

lemma moves_primary (ih : MovesAt φ width depth) :
    Moves φ (Node.move φ) (primary width (depth + 1)) (primary width (depth + 1)) := by
  rw [primary]
  refine moves_get fun ts => ?_
  cases ts with
  | nil => exact moves_miss _
  | cons t rest =>
    refine Moves.ite (moves_set rest (moves_pure _ _)) ?_
    refine Moves.ite (moves_set rest (moves_pure _ _)) ?_
    refine Moves.ite (moves_set rest (moves_pure _ _)) ?_
    simp only [Token.kind_move, Token.lexeme_move]
    split
    · exact moves_set rest (moves_integerLiteral t)
    · exact moves_set rest (moves_decimalLiteral t)
    · exact moves_set rest (moves_characterLiteral t)
    · exact moves_set rest (moves_stringLiteral t)
    · refine Moves.ite (moves_set rest ?_) (Moves.ite (moves_set rest ?_) (moves_miss _))
      · exact ih.expression.bind fun body => moves_take.bind fun _ =>
          moves_node (.group (markOf t) body)
      · refine moves_acceptText.bind fun opens => Moves.ite ?_ ?_
        · refine ih.arguments.bind fun arguments => ?_
          rw [← Node.move_all]
          exact moves_node (.call (markOf t) .absent t.lexeme arguments)
        · exact moves_node (.access (markOf t) .absent t.lexeme)

/-- The rules of expressions commute with moving at every depth. -/
lemma movesAt (φ : Position → Position) (width depth : Nat) : MovesAt φ width depth := by
  induction depth using Nat.strongRecOn with
  | ind depth ih =>
    cases depth with
    | zero => constructor <;> intros <;> exact moves_tooDeep _
    | succ depth =>
      have ih₁ := ih depth (Nat.lt_succ_self _)
      refine
        { expression := by rw [expression]; exact ih₁.operation .logical
          operation := fun level => ?_
          secondary := by
            rw [secondary]
            exact ih₁.primary.bind fun e => ih₁.arguments.memberChain _ e
          primary := moves_primary ih₁
          arguments := moves_arguments ih₁ }
      -- An operator level takes two units, so it rests on the rules two levels below.
      cases depth with
      | zero => exact moves_tooDeep _
      | succ depth => exact moves_operation (ih depth (by omega))

end

/-! ### Statements -/

section

variable {width depth : Nat}

lemma moves_declaration (mark : Mark) (depth : Nat) :
    Moves φ (Node.move φ) (declaration width mark depth)
      (declaration width (mark.move φ) depth) := by
  cases depth with
  | zero => exact moves_tooDeep _
  | succ depth =>
    refine moves_take.bind fun name => moves_nameAfter.bind fun typeName => ?_
    refine (movesAt φ width depth).expression.partAfter.bind fun value => ?_
    exact moves_take.bind fun _ => moves_node (.declare mark name.lexeme typeName value)

lemma moves_giveBack (mark : Mark) (depth : Nat) :
    Moves φ (Node.move φ) (giveBack width mark depth) (giveBack width (mark.move φ) depth) := by
  cases depth with
  | zero => exact moves_tooDeep _
  | succ depth =>
    refine (movesAt φ width depth).expression.bind fun value => ?_
    exact moves_take.bind fun _ => moves_node (.giveBack mark value)

lemma moves_simpleStatement (depth : Nat) :
    Moves φ (Node.move φ) (simpleStatement width depth) (simpleStatement width depth) := by
  have he := (movesAt φ width depth).expression
  refine moves_here.bind fun mark => he.bind fun receiver => ?_
  refine moves_acceptText.bind fun assigns => Moves.ite ?_ ?_
  · exact he.bind fun value => moves_take.bind fun _ => moves_node (.assign mark receiver value)
  · exact moves_take.bind fun _ => moves_node (.perform mark receiver)

lemma moves_initializer (depth : Nat) :
    Moves φ (Node.move φ) (initializer width depth) (initializer width depth) := by
  have he := (movesAt φ width depth).expression
  refine moves_here.bind fun mark => moves_acceptText.bind fun declares => Moves.ite ?_ ?_
  · exact moves_declaration mark depth
  · refine moves_acceptText.bind fun closes => Moves.ite (moves_node .absent) ?_
    refine he.bind fun receiver => moves_take.bind fun _ => he.bind fun value => ?_
    exact moves_take.bind fun _ => moves_node (.assign mark receiver value)

lemma isIncrementTarget_move (n : Node) : isIncrementTarget (n.move φ) = isIncrementTarget n := by
  cases n <;> rfl

lemma moves_increment (depth : Nat) :
    Moves φ (Node.move φ) (increment width depth) (increment width depth) := by
  cases depth with
  | zero => exact moves_tooDeep _
  | succ depth =>
    have he := (movesAt φ width depth).expression
    refine moves_here.bind fun mark => he.bind fun receiver => ?_
    rw [isIncrementTarget_move]
    refine Moves.whenBind (moves_miss id) (moves_take.bind fun _ => he.bind fun value => ?_)
    exact moves_node (.assign mark receiver value)

lemma Moves.statementsUntil {p q : Parse Node} (h : Moves φ (Node.move φ) p q)
    (terminators : List String) (width : Nat) :
    Moves φ (List.map (Node.move φ)) (statementsUntil terminators p width)
      (statementsUntil terminators q width) := by
  induction width with
  | zero => exact moves_miss _
  | succ width ih =>
    refine moves_get fun ts => ?_
    cases ts with
    | nil => exact moves_miss _
    | cons t rest =>
      refine Moves.ite (moves_pure _ []) ?_
      exact h.bind fun first => ih.bind fun others => moves_pure _ (first :: others)

/-- The rules of statements that are nested to the depth commute with moving. -/
structure StatementMovesAt (φ : Position → Position) (width depth : Nat) : Prop where
  block : ∀ terminators, Moves φ (List.map (Node.move φ)) (block width terminators depth)
    (block width terminators depth)
  statement : Moves φ (Node.move φ) (statement width depth) (statement width depth)
  branch : ∀ mark,
    Moves φ (Node.move φ) (branch width mark depth) (branch width (mark.move φ) depth)
  forLoop : ∀ mark,
    Moves φ (Node.move φ) (forLoop width mark depth) (forLoop width (mark.move φ) depth)
  whileLoop : ∀ mark,
    Moves φ (Node.move φ) (whileLoop width mark depth) (whileLoop width (mark.move φ) depth)

lemma moves_statement (ih : StatementMovesAt φ width depth) :
    Moves φ (Node.move φ) (statement width (depth + 1)) (statement width (depth + 1)) := by
  rw [statement]
  refine moves_here.bind fun mark => ?_
  refine moves_acceptText.bind fun declares => Moves.ite (moves_declaration mark depth) ?_
  refine moves_acceptText.bind fun branches => Moves.ite (ih.branch mark) ?_
  refine moves_acceptText.bind fun counts => Moves.ite (ih.forLoop mark) ?_
  refine moves_acceptText.bind fun repeats => Moves.ite (ih.whileLoop mark) ?_
  refine moves_acceptText.bind fun returns => Moves.ite (moves_giveBack mark depth) ?_
  exact moves_simpleStatement depth

lemma moves_branch (ih : StatementMovesAt φ width depth) (mark : Mark) :
    Moves φ (Node.move φ) (branch width mark (depth + 1))
      (branch width (mark.move φ) (depth + 1)) := by
  rw [branch, branch]
  refine (movesAt φ width depth).expression.bind fun condition => moves_take.bind fun _ => ?_
  refine (ih.block _).bind fun thenBody => moves_acceptText.bind fun found => ?_
  refine Moves.iteBind (ih.block _) (moves_pure (List.map _) []) fun elseBody => ?_
  refine moves_take.bind fun _ => ?_
  rw [← Node.move_all, ← Node.move_all]
  exact moves_node (.branch mark condition thenBody elseBody)

lemma moves_forLoop (ih : StatementMovesAt φ width depth) (mark : Mark) :
    Moves φ (Node.move φ) (forLoop width mark (depth + 1))
      (forLoop width (mark.move φ) (depth + 1)) := by
  rw [forLoop, forLoop]
  have he := (movesAt φ width depth).expression
  refine moves_take.bind fun _ => (moves_initializer depth).bind fun first => ?_
  refine moves_peekText.bind fun noCondition => ?_
  refine Moves.iteBind (moves_node .absent) he fun condition => moves_take.bind fun _ => ?_
  refine moves_peekText.bind fun noIncrement => ?_
  refine Moves.iteBind (moves_node .absent) (moves_increment depth) fun last => ?_
  refine moves_take.bind fun _ => moves_take.bind fun _ => (ih.block _).bind fun body => ?_
  refine moves_take.bind fun _ => ?_
  rw [← Node.move_all]
  exact moves_node (.forLoop mark first condition last body)

lemma moves_whileLoop (ih : StatementMovesAt φ width depth) (mark : Mark) :
    Moves φ (Node.move φ) (whileLoop width mark (depth + 1))
      (whileLoop width (mark.move φ) (depth + 1)) := by
  rw [whileLoop, whileLoop]
  refine (movesAt φ width depth).expression.bind fun condition => moves_take.bind fun _ => ?_
  refine (ih.block _).bind fun body => moves_take.bind fun _ => ?_
  rw [← Node.move_all]
  exact moves_node (.whileLoop mark condition body)

/-- The rules of statements commute with moving at every depth. -/
lemma statementMovesAt (φ : Position → Position) (width depth : Nat) :
    StatementMovesAt φ width depth := by
  induction depth with
  | zero => constructor <;> intros <;> exact moves_tooDeep _
  | succ depth ih =>
    exact
      { block := fun _ => by rw [block]; exact ih.statement.statementsUntil _ _
        statement := moves_statement ih
        branch := moves_branch ih
        forLoop := moves_forLoop ih
        whileLoop := moves_whileLoop ih }

end

/-! ### Programs -/

section

variable {width : Nat}

lemma moves_field (mark : Mark) (depth : Nat) :
    Moves φ (Field.move φ) (field width mark depth) (field width (mark.move φ) depth) := by
  cases depth with
  | zero => exact moves_tooDeep _
  | succ depth =>
    refine moves_acceptText.bind fun constant => moves_take.bind fun name => ?_
    refine moves_nameAfter.bind fun typeName => ?_
    refine (movesAt φ width depth).expression.partAfter.bind fun value => ?_
    exact moves_take.bind fun _ =>
      moves_pure (Field.move φ) ⟨mark, name.lexeme, typeName, constant, value⟩

lemma moves_parameter : Moves φ id parameter parameter :=
  moves_take.bind fun name => moves_nameAfter.bind fun typeName =>
    moves_pure id (name.lexeme, typeName.getD "Any")

lemma moves_method (mark : Mark) (depth : Nat) :
    Moves φ (Method.move φ) (method width mark depth) (method width (mark.move φ) depth) := by
  cases depth with
  | zero => exact moves_tooDeep _
  | succ depth =>
    refine moves_take.bind fun name => moves_take.bind fun _ => moves_peekText.bind fun closes => ?_
    refine Moves.iteBind (moves_pure id []) ?_ fun parameters => ?_
    · rw [← List.map_id_fun]
      exact moves_parameter.commaList width
    · refine moves_take.bind fun _ => moves_nameAfter.bind fun returnType => ?_
      refine moves_take.bind fun _ => ((statementMovesAt φ width depth).block _).bind fun body => ?_
      exact moves_take.bind fun _ => moves_pure (Method.move φ) ⟨_, _, _, _, _, body⟩

lemma Moves.declarations {f : α → α} {item : Mark → Parse α} (word : String)
    (h : ∀ mark, Moves φ f (item mark) (item (mark.move φ))) (width : Nat) :
    Moves φ (List.map f) (declarations word item width) (declarations word item width) := by
  induction width with
  | zero => exact moves_pure _ []
  | succ width ih =>
    refine moves_here.bind fun mark => moves_acceptText.bind fun found => ?_
    refine Moves.ite ?_ (moves_pure _ [])
    exact (h mark).bind fun first => ih.bind fun others => moves_pure _ (first :: others)

lemma moves_program (width depth : Nat) :
    Moves φ (Program.move φ) (program width depth) (program width depth) := by
  refine moves_here.bind fun mark => ?_
  refine (Moves.declarations _ (fun mark => moves_field mark depth) width).bind fun fields => ?_
  refine (Moves.declarations _ (fun mark => moves_method mark depth) width).bind fun methods => ?_
  refine moves_get fun ts => ?_
  cases ts with
  | nil => exact moves_pure (Program.move φ) ⟨mark, fields, methods⟩
  | cons t rest => exact moves_fail _ (.unexpected .topLevel t)

end

end LetDef.Parser

namespace LetDef

/-- Moved tokens are a moved program, or stop at the moved fault. -/
theorem Program.ofTokens_move (φ : Position → Position) (depth : Nat) (tokens : List Token) :
    Program.ofTokens depth (tokens.map (Token.move φ)) =
      ((Program.ofTokens depth tokens).map (Program.move φ)).mapError (Parser.Halt.move φ) := by
  unfold ofTokens
  rw [List.length_map, StateT.run'_eq, StateT.run'_eq, Parser.moves_program _ _ tokens]
  cases (Parser.program tokens.length depth).run tokens <;> rfl

end LetDef
