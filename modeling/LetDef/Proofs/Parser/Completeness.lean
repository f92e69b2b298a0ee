import LetDef.Proofs.Parser.Soundness

/-!
# Parsers read what the grammar derives

Where names are not keywords, the tokens that a rule of the grammar derives are read by the parser
of that rule, as the tree of the derivation. The token behind them must not continue the rule, and
the depth must allow for the tokens: twelve levels for each is always enough.
-/

namespace LetDef.Parser

open LetDef.Grammar

/-- Tokens as scanning makes them, with integers that have no more digits than the limit. -/
def Readable (ts : List Token) : Prop :=
  ∀ t ∈ ts, Token.Shape t.kind t.lexeme.toList ∧ IsShort t

/-- The tokens do not start with one of the texts. -/
def Stops (texts : List String) (ts : List Token) : Prop :=
  ∀ t ∈ ts.head?, t.lexeme ∉ texts

variable {width depth : Nat} {ts us rest : List Token} {t : Token} {e : Node}

lemma Readable.left (h : Readable (ts ++ us)) : Readable ts :=
  fun t ht => h t (List.mem_append_left us ht)

lemma Readable.right (h : Readable (ts ++ us)) : Readable us :=
  fun t ht => h t (List.mem_append_right ts ht)

lemma Readable.tail (h : Readable (t :: ts)) : Readable ts :=
  fun u hu => h u (List.mem_cons_of_mem t hu)

lemma Readable.head (h : Readable (t :: ts)) : Token.Shape t.kind t.lexeme.toList :=
  (h t List.mem_cons_self).1

lemma stops_cons {texts : List String} : Stops texts (t :: ts) ↔ t.lexeme ∉ texts := by
  simp [Stops]

lemma Stops.mono {texts texts' : List String} (h : Stops texts ts) (hsub : texts' ⊆ texts) :
    Stops texts' ts :=
  fun t ht hmem => h t ht (hsub hmem)

lemma yields_acceptText_cons {s : String} (ht : t.lexeme = s) :
    Yields (acceptText s) (t :: ts) true ts :=
  yields_acceptText.mpr (.inl ⟨t, rfl, ht, rfl⟩)

lemma yields_acceptText_stops {s : String} {texts : List String} (h : Stops texts ts)
    (hs : s ∈ texts) : Yields (acceptText s) ts false ts := by
  refine yields_acceptText.mpr (.inr ⟨?_, rfl, rfl⟩)
  rintro t ht rfl
  exact h t ht hs

/-- A parser behind a test for a text that does not come next. -/
lemma yields_skip {α : Type} {s : String} {texts : List String} {k : Bool → Parse α} {a : α}
    (h : Stops texts ts) (hs : s ∈ texts) (hk : Yields (k false) ts a rest) :
    Yields (acceptText s >>= k) ts a rest :=
  yields_bind.mpr ⟨false, ts, yields_acceptText_stops h hs, hk⟩

/-- A parser behind a test for a text that comes next. -/
lemma yields_found {α : Type} {s : String} {k : Bool → Parse α} {a : α} (ht : t.lexeme = s)
    (hk : Yields (k true) ts a rest) : Yields (acceptText s >>= k) (t :: ts) a rest :=
  yields_bind.mpr ⟨true, ts, yields_acceptText_cons ht, hk⟩

lemma yields_peekText_cons {s : String} (ht : t.lexeme = s) :
    Yields (peekText s) (t :: ts) true (t :: ts) :=
  yields_peekText.mpr ⟨rfl, by simp [ht]⟩

lemma yields_peekText_stops {s : String} {texts : List String} (h : Stops texts ts)
    (hs : s ∈ texts) : Yields (peekText s) ts false ts := by
  refine yields_peekText.mpr ⟨rfl, ?_⟩
  simp only [Bool.false_eq_true, false_iff]
  rintro ⟨t, ht, rfl⟩
  exact h t ht hs

lemma yields_take_text {slot : Slot} {s : String} (hslot : slot.pattern = .text s)
    (ht : t.lexeme = s) : Yields (take slot) (t :: ts) t ts := by
  rw [yields_take, hslot, fits_text]
  exact ⟨rfl, ht⟩

lemma yields_take_name {slot : Slot} (hslot : slot.pattern = .kind .identifier) (ht : IsName t) :
    Yields (take slot) (t :: ts) t ts := by
  rw [yields_take, hslot, fits_kind]
  exact ⟨rfl, ht.isIdentifier⟩

/-! ### First tokens -/

/-- The words that start or end a statement, and the signs that end an expression. -/
def boundaries : List String :=
  ["LET", "CONST", "DEF", "DO", "END", "IF", "ELSE", "FOR", "WHILE", "RETURN", ";", ")", "=", ","]

/-- A literal's token has the text of a constant word or is of a literal's kind. -/
lemma literal_cases {v : Value} {sort : String} (h : Literal t v sort) :
    t.lexeme ∈ ["NIL", "TRUE", "FALSE"] ∨ t.kind ≠ .identifier ∧ t.kind ≠ .operator := by
  cases h with
  | nil h => simp [h]
  | yes h => simp [h]
  | no h => simp [h]
  | integer hk => simp [hk]
  | decimal hk => simp [hk]
  | character hk => simp [hk]
  | string hk => simp [hk]

/-- A token of a literal's kind is no text without digits and quotes. -/
lemma lexeme_ne_of_kind (hshape : Token.Shape t.kind t.lexeme.toList)
    (hi : t.kind ≠ .identifier) (ho : t.kind ≠ .operator) {s : String}
    (hs : s.toList.any Token.isLiteralMark = false) : t.lexeme ≠ s := by
  rintro rfl
  obtain ⟨c, hc, hmark⟩ := hshape.literalMark hi ho
  exact List.any_eq_false.1 hs c hc hmark

/-- A name is no keyword, and no text that does not start like a name. -/
lemma lexeme_ne_of_isName (hshape : Token.Shape t.kind t.lexeme.toList) (ht : IsName t)
    {s : String} (hs : s ∈ keywords ∨ s.toList.head?.any Token.isNameStart = false) :
    t.lexeme ≠ s := by
  rintro rfl
  rcases hs with hs | hs
  · exact ht.2 hs
  · rw [ht.1] at hshape
    generalize t.lexeme.toList = text at hshape hs
    cases hshape with
    | identifier hc hcs =>
      rw [List.head?_cons, Option.any_some, hc] at hs
      cases hs

lemma boundaries_plain :
    ∀ s ∈ boundaries, s.toList.any Token.isLiteralMark = false := by
  decide

lemma boundaries_not_names :
    ∀ s ∈ boundaries, s ∈ keywords ∨ s.toList.head?.any Token.isNameStart = false := by
  decide

lemma constants_not_boundaries : ∀ s ∈ ["NIL", "TRUE", "FALSE"], s ∉ boundaries := by
  decide

lemma isName_not_boundary (ht : IsName t) (hshape : Token.Shape t.kind t.lexeme.toList) :
    t.lexeme ∉ boundaries :=
  fun hb => lexeme_ne_of_isName hshape ht (boundaries_not_names _ hb) rfl

/-- A primary does not start like the boundary of a statement. -/
lemma stops_primary (h : Primary IsName ts e) (hts : Readable ts) :
    Stops boundaries (ts ++ rest) := by
  cases h with
  | literal hl =>
    refine stops_cons.mpr fun hb => ?_
    rcases literal_cases hl with hw | ⟨hi, ho⟩
    · exact constants_not_boundaries _ hw hb
    · exact lexeme_ne_of_kind hts.head hi ho (boundaries_plain _ hb) rfl
  | group hl h hr => simp [stops_cons, hl, boundaries]
  | access ht => exact stops_cons.mpr (isName_not_boundary ht hts.head)
  | call ht hl hs hr => exact stops_cons.mpr (isName_not_boundary ht hts.head)

lemma stops_secondary {ts : List Token} {e : Node} :
    Secondary IsName ts e → Readable ts → ∀ {rest}, Stops boundaries (ts ++ rest)
  | .primary h, hts, _ => stops_primary h hts
  | .access h _ _, hts, _ => by
    rw [List.append_assoc]
    exact stops_secondary h hts.left
  | .call h _ _ _ _ _, hts, _ => by
    rw [List.append_assoc, List.append_assoc]
    exact stops_secondary h hts.left.left

mutual

lemma stops_operation {level : Level} {ts : List Token} {e : Node} :
    Operation IsName level ts e → Readable ts → ∀ {rest}, Stops boundaries (ts ++ rest)
  | .operand h, hts, _ => stops_operand h hts
  | .binary h _ _, hts, _ => by
    rw [List.append_assoc]
    exact stops_operation h hts.left

lemma stops_operand {level : Level} {ts : List Token} {e : Node} :
    Operand IsName level ts e → Readable ts → ∀ {rest}, Stops boundaries (ts ++ rest)
  | .tighter _ h, hts, _ => stops_operation h hts
  | .secondary _ h, hts, _ => stops_secondary h hts

end

/-- An expression does not start like the boundary of a statement. -/
lemma stops_expression {ts : List Token} {e : Node} :
    Expression IsName ts e → Readable ts → ∀ {rest}, Stops boundaries (ts ++ rest)
  | .logical h, hts, _ => stops_operation h hts

/-! ### What the parsers of expressions read -/

/-- The texts that continue an expression of a level. -/
def Level.continuers : Level → List String
  | .logical => Level.logical.operators ++ Level.comparison.operators ++
      Level.additive.operators ++ Level.multiplicative.operators ++ [".", "("]
  | .comparison => Level.comparison.operators ++ Level.additive.operators ++
      Level.multiplicative.operators ++ [".", "("]
  | .additive => Level.additive.operators ++ Level.multiplicative.operators ++ [".", "("]
  | .multiplicative => Level.multiplicative.operators ++ [".", "("]

/-- The texts that continue an operand of a level. -/
def Level.operandContinuers (level : Level) : List String :=
  match level.tighter? with
  | some tighter => tighter.continuers
  | none => [".", "("]

/-- The parser of the operands of a level. -/
def operandParser (width : Nat) (level : Level) (depth : Nat) : Parse Node :=
  match level.tighter? with
  | some tighter => operation width tighter depth
  | none => secondary width depth

/-- How much of the depth for an expression is used up where a level is reached. -/
def Level.spent : Level → Nat
  | .logical => 1
  | .comparison => 3
  | .additive => 5
  | .multiplicative => 7

lemma operatorsStop (level : Level) : ∀ s ∈ level.operators, s ∉ level.operandContinuers := by
  cases level <;> decide

lemma operators_subset (level : Level) : level.operators ⊆ level.continuers := by
  cases level <;> decide

lemma operandContinuers_subset (level : Level) : level.operandContinuers ⊆ level.continuers := by
  cases level <;> decide

lemma spent_tighter {level tighter : Level} (h : level.tighter? = some tighter) :
    tighter.spent = level.spent + 2 := by
  cases level <;> cases h <;> rfl

lemma spent_le (level : Level) : level.spent ≤ 7 := by
  cases level <;> decide

/-- The expression is read where nothing continues it. -/
def ReadsExpression (width : Nat) (ts : List Token) (e : Node) : Prop :=
  ∀ {depth rest}, ts.length ≤ width → 12 * ts.length ≤ depth →
    Stops Level.logical.continuers rest → Yields (expression width depth) (ts ++ rest) e rest

/-- The operand is read where nothing continues it. -/
def ReadsOperand (width : Nat) (level : Level) (ts : List Token) (e : Node) : Prop :=
  ∀ {depth rest}, ts.length ≤ width → 12 * ts.length ≤ depth + level.spent + 2 →
    Stops level.operandContinuers rest →
    Yields (operandParser width level depth) (ts ++ rest) e rest

/-- Reading the operation comes down to reading the chain of operators behind it. -/
def ReadsOperation (width : Nat) (level : Level) (ts : List Token) (e : Node) : Prop :=
  ∀ depth, ts.length ≤ width → 12 * ts.length ≤ depth + level.spent + 2 →
    ∃ k < ts.length, ∀ {w rest f rest'}, Stops level.operandContinuers rest →
      Yields (operatorChain level.operators (operandParser width level depth) w e) rest f rest' →
      Yields (operandParser width level depth >>=
        operatorChain level.operators (operandParser width level depth) (w + k))
        (ts ++ rest) f rest'

/-- Reading the expression comes down to reading the chain of accesses and calls behind it. -/
def ReadsSecondary (width : Nat) (ts : List Token) (e : Node) : Prop :=
  ∀ depth, ts.length ≤ width → 12 * ts.length ≤ depth + 10 →
    ∃ k < ts.length, ∀ {w rest f rest'}, Stops ["("] rest →
      Yields (memberChain (arguments width depth) w e) rest f rest' →
      Yields (primary width depth >>= memberChain (arguments width depth) (w + k))
        (ts ++ rest) f rest'

/-- The primary is read where no parenthesis opens behind it. -/
def ReadsPrimary (width : Nat) (ts : List Token) (e : Node) : Prop :=
  ∀ {depth rest}, ts.length ≤ width → 12 * ts.length ≤ depth + 10 → Stops ["("] rest →
    Yields (primary width depth) (ts ++ rest) e rest

/-- The arguments are read with the parenthesis that closes behind them. -/
def ReadsArguments (width : Nat) (ts : List Token) (es : List Node) : Prop :=
  ∀ {depth rest} {right : Token}, ts.length ≤ width → 12 * ts.length < depth → right.lexeme = ")" →
    Yields (arguments width depth) (ts ++ right :: rest) es rest

/-- The list is read where neither an argument nor the list goes on. -/
def ReadsArgumentList (width : Nat) (ts : List Token) (es : List Node) : Prop :=
  ∀ {depth w rest} {right : Token}, ts.length ≤ width → ts.length ≤ w → 12 * ts.length ≤ depth →
    right.lexeme = ")" →
    Yields (commaList (expression width depth) w) (ts ++ right :: rest) es (right :: rest)

/-! ### Chains -/

lemma operatorChain_stops {ops : List String} {operand : Parse Node} (h : Stops ops rest)
    (w : Nat) : Yields (operatorChain ops operand w e) rest e rest := by
  cases w with
  | zero => exact yields_pure.mpr ⟨rfl, rfl⟩
  | succ w =>
    rw [operatorChain, yields_bind]
    exact ⟨none, rest, yields_acceptOperator?.mpr (.inr ⟨h, rfl, rfl⟩), yields_pure.mpr ⟨rfl, rfl⟩⟩

lemma readsOperation_operand {level : Level} (h : ReadsOperand width level ts e) (hne : ts ≠ []) :
    ReadsOperation width level ts e := by
  intro depth hwidth hdepth
  refine ⟨0, List.length_pos_iff.mpr hne, ?_⟩
  intro w rest f rest' hrest hchain
  exact yields_bind.mpr ⟨e, rest, h hwidth hdepth hrest, hchain⟩

lemma readsOperation_binary {level : Level} {op : Token} {left right : Node}
    (hl : ReadsOperation width level ts left) (ho : op.lexeme ∈ level.operators)
    (hr : ReadsOperand width level us right) :
    ReadsOperation width level (ts ++ op :: us)
      (.binary { position := left.mark.position } op.lexeme left right) := by
  intro depth hwidth hdepth
  rw [List.length_append, List.length_cons] at hwidth hdepth
  obtain ⟨k, hk, hleft⟩ := hl depth (by omega) (by omega)
  refine ⟨k + 1, by rw [List.length_append, List.length_cons]; omega, ?_⟩
  intro w rest f rest' hrest hchain
  have hop : Stops level.operandContinuers (op :: (us ++ rest)) :=
    stops_cons.mpr (operatorsStop level _ ho)
  have hstep : Yields (operatorChain level.operators (operandParser width level depth) (w + 1) left)
      (op :: (us ++ rest)) f rest' := by
    rw [operatorChain, yields_bind]
    refine ⟨some op, us ++ rest, yields_acceptOperator?.mpr (.inl ⟨op, rfl, ho, rfl⟩), ?_⟩
    exact yields_bind.mpr ⟨right, rest, hr (by omega) (by omega) hrest, hchain⟩
  have := hleft hop hstep
  rwa [Nat.add_assoc, Nat.add_comm 1 k, ← List.cons_append, ← List.append_assoc] at this

/-- An operation is read where nothing continues it. -/
lemma yields_operation {level : Level} (h : ReadsOperation width level ts e) (hne : ts ≠ [])
    (hwidth : ts.length ≤ width) (hdepth : 12 * ts.length ≤ depth + level.spent)
    (hrest : Stops level.continuers rest) :
    Yields (operation width level depth) (ts ++ rest) e rest := by
  have hpos := List.length_pos_iff.mpr hne
  have hspent := spent_le level
  obtain ⟨depth, rfl⟩ : ∃ d, depth = d + 2 := ⟨depth - 2, by omega⟩
  obtain ⟨k, hk, hread⟩ := h depth hwidth (by omega)
  have := hread (hrest.mono (operandContinuers_subset level))
    (operatorChain_stops (hrest.mono (operators_subset level)) (width - k))
  rw [Nat.sub_add_cancel (by omega)] at this
  rw [operation]
  exact this

lemma readsOperand_tighter {level tighter : Level} (hn : level.tighter? = some tighter)
    (h : ReadsOperation width tighter ts e) (hne : ts ≠ []) : ReadsOperand width level ts e := by
  intro depth rest hwidth hdepth hrest
  rw [Level.operandContinuers, hn] at hrest
  rw [operandParser, hn]
  have hspent := spent_tighter hn
  exact yields_operation h hne hwidth (by omega) hrest

lemma readsExpression_logical (h : ReadsOperation width .logical ts e) (hne : ts ≠ []) :
    ReadsExpression width ts e := by
  intro depth rest hwidth hdepth hrest
  have hpos := List.length_pos_iff.mpr hne
  obtain ⟨depth, rfl⟩ : ∃ d, depth = d + 1 := ⟨depth - 1, by omega⟩
  rw [expression]
  exact yields_operation h hne hwidth hdepth hrest

lemma memberChain_stops {args : Parse (List Node)} (h : Stops ["."] rest) (w : Nat) :
    Yields (memberChain args w e) rest e rest := by
  cases w with
  | zero => exact yields_pure.mpr ⟨rfl, rfl⟩
  | succ w =>
    rw [memberChain, yields_bind]
    exact ⟨false, rest, yields_acceptText_stops h (by simp), yields_pure.mpr ⟨rfl, rfl⟩⟩

lemma readsOperand_secondary {level : Level} (hn : level.tighter? = none)
    (h : ReadsSecondary width ts e) (hne : ts ≠ []) : ReadsOperand width level ts e := by
  intro depth rest hwidth hdepth hrest
  rw [Level.operandContinuers, hn] at hrest
  rw [operandParser, hn]
  have hpos := List.length_pos_iff.mpr hne
  have hspent := spent_le level
  obtain ⟨depth, rfl⟩ : ∃ d, depth = d + 1 := ⟨depth - 1, by omega⟩
  obtain ⟨k, hk, hread⟩ := h depth hwidth (by omega)
  have := hread (hrest.mono (by simp)) (memberChain_stops (hrest.mono (by simp)) (width - k))
  rw [Nat.sub_add_cancel (by omega)] at this
  rw [secondary]
  exact this

lemma readsSecondary_primary (h : ReadsPrimary width ts e) (hne : ts ≠ []) :
    ReadsSecondary width ts e := by
  intro depth hwidth hdepth
  refine ⟨0, List.length_pos_iff.mpr hne, ?_⟩
  intro w rest f rest' hrest hchain
  exact yields_bind.mpr ⟨e, rest, h hwidth hdepth hrest, hchain⟩

lemma readsSecondary_access {point : Token} (h : ReadsSecondary width ts e)
    (hp : point.lexeme = ".") (ht : IsName t) :
    ReadsSecondary width (ts ++ [point, t]) (.access (markOf t) e t.lexeme) := by
  intro depth hwidth hdepth
  simp only [List.length_append, List.length_cons, List.length_nil] at hwidth hdepth ⊢
  obtain ⟨k, hk, hread⟩ := h depth (by omega) (by omega)
  refine ⟨k + 1, by omega, ?_⟩
  intro w rest f rest' hrest hchain
  have hstep :
      Yields (memberChain (arguments width depth) (w + 1) e) (point :: t :: rest) f rest' := by
    rw [memberChain, yields_bind]
    refine ⟨true, t :: rest, yields_acceptText_cons hp, ?_⟩
    refine yields_bind.mpr ⟨t, rest, yields_take_name rfl ht, ?_⟩
    exact yields_bind.mpr ⟨false, rest, yields_acceptText_stops hrest (by simp), hchain⟩
  have := hread (by simp [stops_cons, hp]) hstep
  rw [Nat.add_assoc, Nat.add_comm 1 k] at this
  simpa using this

lemma readsSecondary_call {es : List Node} {point left right : Token}
    (h : ReadsSecondary width ts e) (hp : point.lexeme = ".") (ht : IsName t)
    (hl : left.lexeme = "(") (hs : ReadsArguments width us es) (hr : right.lexeme = ")") :
    ReadsSecondary width (ts ++ point :: t :: left :: us ++ [right])
      (.call (markOf t) e t.lexeme es) := by
  intro depth hwidth hdepth
  simp only [List.length_append, List.length_cons, List.length_nil] at hwidth hdepth ⊢
  obtain ⟨k, hk, hread⟩ := h depth (by omega) (by omega)
  refine ⟨k + 1, by omega, ?_⟩
  intro w rest f rest' hrest hchain
  have hstep : Yields (memberChain (arguments width depth) (w + 1) e)
      (point :: t :: left :: (us ++ right :: rest)) f rest' := by
    rw [memberChain, yields_bind]
    refine ⟨true, _, yields_acceptText_cons hp, ?_⟩
    refine yields_bind.mpr ⟨t, _, yields_take_name rfl ht, ?_⟩
    refine yields_found hl ?_
    exact yields_bind.mpr ⟨es, rest, hs (by omega) (by omega) hr, hchain⟩
  have := hread (by simp [stops_cons, hp]) hstep
  rw [Nat.add_assoc, Nat.add_comm 1 k] at this
  simpa using this

/-! ### Primaries and arguments -/

/-- The token is none of the constant words. -/
structure NotConstant (t : Token) : Prop where
  nil : (t.lexeme == "NIL") = false
  yes : (t.lexeme == "TRUE") = false
  no : (t.lexeme == "FALSE") = false

lemma notConstant_of_ne (h : ∀ s ∈ ["NIL", "TRUE", "FALSE"], t.lexeme ≠ s) : NotConstant t where
  nil := beq_false_of_ne (h "NIL" (by simp))
  yes := beq_false_of_ne (h "TRUE" (by simp))
  no := beq_false_of_ne (h "FALSE" (by simp))

lemma readsPrimary_group {left right : Token} (hl : left.lexeme = "(")
    (hshape : Token.Shape left.kind left.lexeme.toList) (h : ReadsExpression width ts e)
    (hr : right.lexeme = ")") :
    ReadsPrimary width (left :: ts ++ [right]) (.group (markOf left) e) := by
  intro depth rest hwidth hdepth hrest
  simp only [List.length_append, List.length_cons, List.length_nil] at hwidth hdepth
  obtain ⟨depth, rfl⟩ : ∃ d, depth = d + 1 := ⟨depth - 1, by omega⟩
  have hkind : left.kind = .identifier ∨ left.kind = .operator := by
    by_contra hkind
    rw [not_or] at hkind
    exact lexeme_ne_of_kind hshape hkind.1 hkind.2 (by decide) hl
  have hbody : Yields (expression width depth) (ts ++ right :: rest) e (right :: rest) :=
    h (by omega) (by omega) (by simp [stops_cons, hr, Level.continuers, Level.operators])
  have hgroup : Yields (do
      let body ← expression width depth
      let _ ← take .groupClose
      return Node.group (markOf left) body) (ts ++ right :: rest) (.group (markOf left) e)
      rest := by
    refine yields_bind.mpr ⟨e, _, hbody, ?_⟩
    refine yields_bind.mpr ⟨right, rest, yields_take_text rfl hr, ?_⟩
    exact yields_pure.mpr ⟨rfl, rfl⟩
  have hconst : NotConstant left := notConstant_of_ne (by simp [hl])
  have hparen : (left.lexeme == "(") = true := by simp [hl]
  rw [List.append_assoc, List.cons_append, primary, yields_bind]
  refine ⟨_, _, yields_get.mpr ⟨rfl, rfl⟩, ?_⟩
  rcases hkind with hk | hk <;>
  · simp only [hconst.nil, hconst.yes, hconst.no, hk, hparen, Bool.false_eq_true, if_false, if_true]
    exact yields_bind.mpr ⟨⟨⟩, _, yields_set.mpr rfl, hgroup⟩

/-- Behind a name, only a parenthesis matters. -/
lemma yields_primary_name (hshape : Token.Shape t.kind t.lexeme.toList) (ht : IsName t)
    (h : Yields (do
      if ← acceptText "(" then
        return .call (markOf t) .absent t.lexeme (← arguments width depth)
      return .access (markOf t) .absent t.lexeme) ts e rest) :
    Yields (primary width (depth + 1)) (t :: ts) e rest := by
  have hconst : NotConstant t := by
    refine notConstant_of_ne fun s hs => lexeme_ne_of_isName hshape ht (.inl ?_)
    revert s
    decide
  have hparen : (t.lexeme == "(") = false :=
    beq_false_of_ne (lexeme_ne_of_isName hshape ht (.inr (by decide)))
  rw [primary, yields_bind]
  refine ⟨_, _, yields_get.mpr ⟨rfl, rfl⟩, ?_⟩
  simp only [hconst.nil, hconst.yes, hconst.no, ht.1, hparen, beq_self_eq_true, Bool.false_eq_true,
    if_false, if_true]
  exact yields_bind.mpr ⟨⟨⟩, _, yields_set.mpr rfl, h⟩

lemma readsPrimary_access (hshape : Token.Shape t.kind t.lexeme.toList) (ht : IsName t) :
    ReadsPrimary width [t] (.access (markOf t) .absent t.lexeme) := by
  intro depth rest hwidth hdepth hrest
  simp only [List.length_cons, List.length_nil] at hdepth
  obtain ⟨depth, rfl⟩ : ∃ d, depth = d + 1 := ⟨depth - 1, by omega⟩
  refine yields_primary_name hshape ht ?_
  refine yields_skip hrest (by simp) ?_
  exact yields_pure.mpr ⟨rfl, rfl⟩

lemma readsPrimary_call {es : List Node} {left right : Token}
    (hshape : Token.Shape t.kind t.lexeme.toList) (ht : IsName t) (hl : left.lexeme = "(")
    (hs : ReadsArguments width us es) (hr : right.lexeme = ")") :
    ReadsPrimary width (t :: left :: us ++ [right]) (.call (markOf t) .absent t.lexeme es) := by
  intro depth rest hwidth hdepth hrest
  simp only [List.length_append, List.length_cons, List.length_nil] at hwidth hdepth
  obtain ⟨depth, rfl⟩ : ∃ d, depth = d + 1 := ⟨depth - 1, by omega⟩
  rw [List.append_assoc, List.cons_append, List.cons_append]
  refine yields_primary_name hshape ht ?_
  refine yields_found hl ?_
  refine yields_bind.mpr ⟨es, rest, hs (by omega) (by omega) hr, ?_⟩
  exact yields_pure.mpr ⟨rfl, rfl⟩

lemma readsPrimary_literal {v : Value} {sort : String}
    (hshape : Token.Shape t.kind t.lexeme.toList) (hshort : IsShort t) (h : Literal t v sort) :
    ReadsPrimary width [t] (.literal (markOf t) (.value v) sort) := by
  intro depth rest hwidth hdepth hrest
  simp only [List.length_cons, List.length_nil] at hdepth
  obtain ⟨depth, rfl⟩ : ∃ d, depth = d + 1 := ⟨depth - 1, by omega⟩
  rw [List.cons_append, List.nil_append, primary, yields_bind]
  refine ⟨t :: rest, t :: rest, yields_get.mpr ⟨rfl, rfl⟩, ?_⟩
  rcases yields_of_literal hshort h with
    ⟨hw, rfl, rfl⟩ | ⟨hw, rfl, rfl⟩ | ⟨hw, rfl, rfl⟩ | ⟨p, hp, hread⟩
  · simp [hw]
    rfl
  · simp [hw]
    rfl
  · simp [hw]
    rfl
  · have hkind : t.kind ≠ .identifier ∧ t.kind ≠ .operator := by
      constructor <;> intro hk <;> rw [literalOfKind?, hk] at hp <;> cases hp
    have hconst : NotConstant t := by
      refine notConstant_of_ne fun s hs => lexeme_ne_of_kind hshape hkind.1 hkind.2 ?_
      revert s
      decide
    simp only [hconst.nil, hconst.yes, hconst.no, Bool.false_eq_true, if_false]
    unfold literalOfKind? at hp
    cases hk : t.kind <;> rw [hk] at hp <;> cases hp <;>
      exact yields_bind.mpr ⟨⟨⟩, rest, yields_set.mpr rfl, hread rest⟩

lemma readsArguments_none : ReadsArguments width [] [] := by
  intro depth rest right hwidth hdepth hr
  obtain ⟨depth, rfl⟩ : ∃ d, depth = d + 1 := ⟨depth - 1, by omega⟩
  rw [arguments, yields_bind]
  refine ⟨true, _, yields_peekText_cons hr, ?_⟩
  refine yields_bind.mpr ⟨[], _, yields_pure.mpr ⟨rfl, rfl⟩, ?_⟩
  refine yields_bind.mpr ⟨right, rest, yields_take_text rfl hr, ?_⟩
  exact yields_pure.mpr ⟨rfl, rfl⟩

lemma readsArguments_some {es : List Node} (h : ReadsArgumentList width ts es)
    (hstops : ∀ {rest}, Stops boundaries (ts ++ rest)) : ReadsArguments width ts es := by
  intro depth rest right hwidth hdepth hr
  obtain ⟨depth, rfl⟩ : ∃ d, depth = d + 1 := ⟨depth - 1, by omega⟩
  rw [arguments, yields_bind]
  refine ⟨false, _, yields_peekText_stops hstops (by decide), ?_⟩
  refine yields_bind.mpr ⟨es, _, h hwidth hwidth (by omega) hr, ?_⟩
  refine yields_bind.mpr ⟨right, rest, yields_take_text rfl hr, ?_⟩
  exact yields_pure.mpr ⟨rfl, rfl⟩

/-- What ends an argument does not continue it. -/
lemma stops_continuers (ht : t.lexeme ∈ [")", ",", ";", "=", "DO"]) :
    Stops Level.logical.continuers (t :: ts) := by
  refine stops_cons.mpr ?_
  generalize t.lexeme = s at ht
  revert s
  decide

lemma yields_commaList_one {α : Type} {item : Parse α} {a : α} {w : Nat}
    (h : Yields item ts a rest) (hrest : Stops [","] rest) :
    Yields (commaList item w) ts [a] rest := by
  cases w with
  | zero => exact yields_bind.mpr ⟨a, _, h, yields_pure.mpr ⟨rfl, rfl⟩⟩
  | succ w =>
    refine yields_bind.mpr ⟨a, _, h, ?_⟩
    refine yields_skip hrest (by simp) ?_
    exact yields_pure.mpr ⟨rfl, rfl⟩

lemma yields_commaList_more {α : Type} {item : Parse α} {a : α} {as : List α} {comma : Token}
    {w : Nat} (h : Yields item ts a (comma :: us)) (hc : comma.lexeme = ",")
    (hs : Yields (commaList item w) us as rest) :
    Yields (commaList item (w + 1)) ts (a :: as) rest := by
  refine yields_bind.mpr ⟨a, _, h, ?_⟩
  refine yields_found hc ?_
  exact yields_bind.mpr ⟨as, _, hs, yields_pure.mpr ⟨rfl, rfl⟩⟩

lemma readsArgumentList_one (h : ReadsExpression width ts e) : ReadsArgumentList width ts [e] := by
  intro depth w rest right hwidth hw hdepth hr
  refine yields_commaList_one (h hwidth hdepth (stops_continuers (by simp [hr]))) ?_
  simp [stops_cons, hr]

lemma readsArgumentList_more {es : List Node} {comma : Token} (h : ReadsExpression width ts e)
    (hc : comma.lexeme = ",") (hs : ReadsArgumentList width us es) :
    ReadsArgumentList width (ts ++ comma :: us) (e :: es) := by
  intro depth w rest right hwidth hw hdepth hr
  simp only [List.length_append, List.length_cons] at hwidth hw hdepth
  obtain ⟨w, rfl⟩ : ∃ d, w = d + 1 := ⟨w - 1, by omega⟩
  rw [List.append_assoc, List.cons_append]
  refine yields_commaList_more (h (by omega) (by omega) (stops_continuers (by simp [hc]))) hc ?_
  exact hs (by omega) (by omega) (by omega) hr

lemma stops_argumentList {es : List Node} (h : ArgumentList IsName ts es) (hts : Readable ts) :
    ∀ {rest}, Stops boundaries (ts ++ rest) := by
  intro rest
  cases h with
  | one h => exact stops_expression h hts
  | more h hc hs =>
    rw [List.append_assoc]
    exact stops_expression h hts.left

/-! ### Expressions -/

mutual

theorem readsExpression {ts : List Token} {e : Node} :
    Expression IsName ts e → Readable ts → ReadsExpression width ts e
  | .logical h, hts => readsExpression_logical (readsOperation h hts) h.ne_nil

theorem readsOperation {level : Level} {ts : List Token} {e : Node} :
    Operation IsName level ts e → Readable ts → ReadsOperation width level ts e
  | .operand h, hts => readsOperation_operand (readsOperand h hts) h.ne_nil
  | .binary hl ho hr, hts =>
    readsOperation_binary (readsOperation hl hts.left) ho (readsOperand hr hts.right.tail)

theorem readsOperand {level : Level} {ts : List Token} {e : Node} :
    Operand IsName level ts e → Readable ts → ReadsOperand width level ts e
  | .tighter hn h, hts => readsOperand_tighter hn (readsOperation h hts) h.ne_nil
  | .secondary hn h, hts => readsOperand_secondary hn (readsSecondary h hts) h.ne_nil

theorem readsSecondary {ts : List Token} {e : Node} :
    Secondary IsName ts e → Readable ts → ReadsSecondary width ts e
  | .primary h, hts =>
    readsSecondary_primary (readsPrimary h hts) (Grammar.Secondary.primary h).ne_nil
  | .access h hp ht, hts => readsSecondary_access (readsSecondary h hts.left) hp ht
  | .call h hp ht hl hs hr, hts =>
    readsSecondary_call (readsSecondary h hts.left.left) hp ht hl
      (readsArguments hs hts.left.right.tail.tail.tail) hr

theorem readsPrimary {ts : List Token} {e : Node} :
    Primary IsName ts e → Readable ts → ReadsPrimary width ts e
  | .literal h, hts => readsPrimary_literal hts.head (hts _ List.mem_cons_self).2 h
  | .group hl h hr, hts =>
    readsPrimary_group hl hts.left.head (readsExpression h hts.left.tail) hr
  | .access ht, hts => readsPrimary_access hts.head ht
  | .call ht hl hs hr, hts =>
    readsPrimary_call hts.left.head ht hl (readsArguments hs hts.left.tail.tail) hr

theorem readsArguments {ts : List Token} {es : List Node} :
    Arguments IsName ts es → Readable ts → ReadsArguments width ts es
  | .none, _ => readsArguments_none
  | .some h, hts => readsArguments_some (readsArgumentList h hts) (stops_argumentList h hts)

theorem readsArgumentList {ts : List Token} {es : List Node} :
    ArgumentList IsName ts es → Readable ts → ReadsArgumentList width ts es
  | .one h, hts => readsArgumentList_one (readsExpression h hts)
  | .more h hc hs, hts =>
    readsArgumentList_more (readsExpression h hts.left) hc (readsArgumentList hs hts.right.tail)

end

/-! ### Parts of statements -/

lemma yields_typePart {o : Option String} {slot : Slot}
    (hslot : slot.pattern = .kind .identifier) (h : TypePart IsName ts o)
    (hrest : Stops [":"] rest) : Yields (nameAfter ":" slot) (ts ++ rest) o rest := by
  cases h with
  | none =>
    refine yields_skip hrest (by simp) ?_
    exact yields_pure.mpr ⟨rfl, rfl⟩
  | @some colon t hc ht =>
    refine yields_found hc ?_
    refine yields_bind.mpr ⟨t, _, yields_take_name hslot ht, ?_⟩
    exact yields_pure.mpr ⟨rfl, rfl⟩

lemma yields_valuePart {value : Node} {semicolon : Token} (h : ValuePart IsName ts value)
    (hts : Readable ts) (hwidth : ts.length ≤ width) (hdepth : 12 * ts.length ≤ depth)
    (hs : semicolon.lexeme = ";") :
    Yields (partAfter "=" (expression width depth)) (ts ++ semicolon :: rest) value
      (semicolon :: rest) := by
  cases h with
  | none =>
    have hstop : Stops ["="] (semicolon :: rest) := by simp [stops_cons, hs]
    refine yields_skip hstop (by simp) ?_
    exact yields_pure.mpr ⟨rfl, rfl⟩
  | some he h =>
    rw [List.length_cons] at hwidth hdepth
    refine yields_found he ?_
    exact readsExpression h hts.tail (by omega) (by omega) (stops_continuers (by simp [hs]))

lemma stops_valuePart {value : Node} {semicolon : Token} (h : ValuePart IsName ts value)
    (hs : semicolon.lexeme = ";") : Stops [":"] (ts ++ semicolon :: rest) := by
  cases h with
  | none => simp [stops_cons, hs]
  | some he h => simp [stops_cons, he]

/-- A declaration is read behind its first word, with its semicolon. -/
lemma yields_declaration {word semicolon : Token} {n : Node}
    (h : Declaration IsName (word :: ts) n) (hts : Readable ts) (hwidth : ts.length ≤ width)
    (hdepth : 12 * ts.length ≤ depth) (hs : semicolon.lexeme = ";") :
    Yields (declaration width (markOf word) depth) (ts ++ semicolon :: rest) n rest := by
  cases h with
  | @mk xs ys typeName value _ t hw ht hty hv =>
    rw [List.append_eq] at hts hwidth hdepth ⊢
    simp only [List.length_append, List.length_cons] at hwidth hdepth
    obtain ⟨depth, rfl⟩ : ∃ d, depth = d + 1 := ⟨depth - 1, by omega⟩
    rw [List.append_assoc, List.cons_append]
    refine yields_bind.mpr ⟨t, _, yields_take_name rfl ht, ?_⟩
    refine yields_bind.mpr ⟨typeName, _, yields_typePart rfl hty (stops_valuePart hv hs), ?_⟩
    refine yields_bind.mpr ⟨value, _, yields_valuePart hv hts.right (by omega) (by omega) hs, ?_⟩
    refine yields_bind.mpr ⟨semicolon, rest, yields_take_text rfl hs, ?_⟩
    exact yields_pure.mpr ⟨rfl, rfl⟩

lemma stops_assignment {receiver value : Node} (h : Assignment IsName ts receiver value)
    (hts : Readable ts) : Stops boundaries (ts ++ rest) := by
  cases h with
  | mk hr he hv =>
    rw [List.append_assoc]
    exact stops_expression hr hts.left

/-- The first clause of a FOR loop is read with its semicolon. -/
lemma yields_initializer {semicolon : Token} {n : Node} (h : Initializer IsName ts n)
    (hts : Readable ts) (hwidth : ts.length ≤ width) (hdepth : 12 * ts.length ≤ depth)
    (hs : semicolon.lexeme = ";") :
    Yields (initializer width depth) (ts ++ semicolon :: rest) n rest := by
  refine yields_bind.mpr ⟨_, _, yields_here.mpr ⟨rfl, rfl⟩, ?_⟩
  cases h with
  | none =>
    have hlet : Stops ["LET"] (semicolon :: rest) := by simp [stops_cons, hs]
    refine yields_skip hlet (by simp) ?_
    refine yields_found hs ?_
    exact yields_pure.mpr ⟨rfl, rfl⟩
  | declaration h =>
    obtain ⟨word, xs, rfl, hw⟩ : ∃ word xs, ts = word :: xs ∧ word.lexeme = "LET" := by
      cases h with
      | mk hw => exact ⟨_, _, rfl, hw⟩
    rw [List.length_cons] at hwidth hdepth
    refine yields_found hw ?_
    exact yields_declaration h hts.tail (by omega) (by omega) hs
  | @assignment _ receiver value h =>
    -- An assignment starts with an expression, and that with none of the words that are asked for.
    have hstops : Stops boundaries (ts ++ semicolon :: rest) := stops_assignment h hts
    refine yields_skip hstops (by decide) ?_
    refine yields_skip hstops (by decide) ?_
    cases h with
    | @mk xs ys _ _ equals hr he hv =>
      rw [List.length_append, List.length_cons] at hwidth hdepth
      rw [firstMark_append (by simp [hr.ne_nil]), List.append_assoc]
      refine yields_bind.mpr ⟨receiver, _, readsExpression hr hts.left (by omega) (by omega)
        (stops_continuers (by simp [he])), ?_⟩
      refine yields_bind.mpr ⟨equals, _, yields_take_text rfl he, ?_⟩
      refine yields_bind.mpr ⟨value, _, readsExpression hv hts.right.tail (by omega) (by omega)
        (stops_continuers (by simp [hs])), ?_⟩
      refine yields_bind.mpr ⟨semicolon, rest, yields_take_text rfl hs, ?_⟩
      exact yields_pure.mpr ⟨rfl, rfl⟩

/-- The second clause of a FOR loop is read up to its semicolon. -/
lemma yields_condition {n : Node} {semicolon : Token} (h : Condition IsName ts n)
    (hts : Readable ts) (hwidth : ts.length ≤ width) (hdepth : 12 * ts.length ≤ depth)
    (hs : semicolon.lexeme = ";") :
    ∃ b, Yields (peekText ";") (ts ++ semicolon :: rest) b (ts ++ semicolon :: rest) ∧
      Yields (if b = true then pure .absent else expression width depth)
        (ts ++ semicolon :: rest) n (semicolon :: rest) := by
  cases h with
  | none => exact ⟨true, yields_peekText_cons hs, yields_pure.mpr ⟨rfl, rfl⟩⟩
  | some h =>
    refine ⟨false, yields_peekText_stops (stops_expression h hts) (by decide), ?_⟩
    exact readsExpression h hts hwidth hdepth (stops_continuers (by simp [hs]))

/-- The last clause of a FOR loop is read up to the parenthesis. -/
lemma yields_increment {n : Node} {right : Token} (h : Increment IsName ts n) (hts : Readable ts)
    (hwidth : ts.length ≤ width) (hdepth : 12 * ts.length ≤ depth) (hr : right.lexeme = ")") :
    ∃ b, Yields (peekText ")") (ts ++ right :: rest) b (ts ++ right :: rest) ∧
      Yields (if b = true then pure .absent else increment width depth)
        (ts ++ right :: rest) n (right :: rest) := by
  cases h with
  | none => exact ⟨true, yields_peekText_cons hr, yields_pure.mpr ⟨rfl, rfl⟩⟩
  | @some _ receiver value h ht =>
    refine ⟨false, yields_peekText_stops (stops_assignment h hts) (by decide), ?_⟩
    cases h with
    | @mk xs ys _ _ equals hx he hv =>
      rw [List.length_append, List.length_cons] at hwidth hdepth
      obtain ⟨depth, rfl⟩ : ∃ d, depth = d + 1 := ⟨depth - 1, by omega⟩
      refine yields_bind.mpr ⟨_, _, yields_here.mpr ⟨rfl, rfl⟩, ?_⟩
      rw [firstMark_append (by simp [hx.ne_nil]), List.append_assoc]
      refine yields_bind.mpr ⟨receiver, _, readsExpression hx hts.left (by omega) (by omega)
        (stops_continuers (by simp [he])), ?_⟩
      simp only [ht, Bool.not_true, Bool.false_eq_true, if_false]
      refine yields_bind.mpr ⟨equals, _, yields_take_text rfl he, ?_⟩
      refine yields_bind.mpr ⟨value, _, readsExpression hv hts.right.tail (by omega) (by omega)
        (stops_continuers (by simp [hr])), ?_⟩
      exact yields_pure.mpr ⟨rfl, rfl⟩

/-! ### Statements -/

/-- The statement is read, whatever follows it. -/
def ReadsStatement (width : Nat) (ts : List Token) (n : Node) : Prop :=
  ∀ {depth rest}, ts.length ≤ width → 12 * ts.length ≤ depth →
    Yields (statement width depth) (ts ++ rest) n rest

/-- The statements are read up to the word that ends their block. -/
def ReadsBlock (width : Nat) (ts : List Token) (ns : List Node) : Prop :=
  ∀ {depth rest} {terminators : List String} {closing : Token}, ts.length ≤ width →
    12 * ts.length < depth → closing.lexeme ∈ terminators → terminators ⊆ ["ELSE", "END"] →
    Yields (block width terminators depth) (ts ++ closing :: rest) ns (closing :: rest)

lemma yields_statement_let {word : Token} {n : Node} (hw : word.lexeme = "LET")
    (h : Yields (declaration width (markOf word) depth) ts n rest) :
    Yields (statement width (depth + 1)) (word :: ts) n rest := by
  refine yields_bind.mpr ⟨_, _, yields_here.mpr ⟨rfl, rfl⟩, ?_⟩
  exact yields_found hw h

lemma yields_statement_if {word : Token} {n : Node} (hw : word.lexeme = "IF")
    (h : Yields (branch width (markOf word) depth) ts n rest) :
    Yields (statement width (depth + 1)) (word :: ts) n rest := by
  have hstop : Stops ["LET"] (word :: ts) := by simp [stops_cons, hw]
  refine yields_bind.mpr ⟨_, _, yields_here.mpr ⟨rfl, rfl⟩, ?_⟩
  refine yields_skip hstop (by simp) ?_
  exact yields_found hw h

lemma yields_statement_for {word : Token} {n : Node} (hw : word.lexeme = "FOR")
    (h : Yields (forLoop width (markOf word) depth) ts n rest) :
    Yields (statement width (depth + 1)) (word :: ts) n rest := by
  have hstop : Stops ["LET", "IF"] (word :: ts) := by simp [stops_cons, hw]
  refine yields_bind.mpr ⟨_, _, yields_here.mpr ⟨rfl, rfl⟩, ?_⟩
  refine yields_skip hstop (by simp) ?_
  refine yields_skip hstop (by simp) ?_
  exact yields_found hw h

lemma yields_statement_while {word : Token} {n : Node} (hw : word.lexeme = "WHILE")
    (h : Yields (whileLoop width (markOf word) depth) ts n rest) :
    Yields (statement width (depth + 1)) (word :: ts) n rest := by
  have hstop : Stops ["LET", "IF", "FOR"] (word :: ts) := by simp [stops_cons, hw]
  refine yields_bind.mpr ⟨_, _, yields_here.mpr ⟨rfl, rfl⟩, ?_⟩
  refine yields_skip hstop (by simp) ?_
  refine yields_skip hstop (by simp) ?_
  refine yields_skip hstop (by simp) ?_
  exact yields_found hw h

lemma yields_statement_return {word : Token} {n : Node} (hw : word.lexeme = "RETURN")
    (h : Yields (giveBack width (markOf word) depth) ts n rest) :
    Yields (statement width (depth + 1)) (word :: ts) n rest := by
  have hstop : Stops ["LET", "IF", "FOR", "WHILE"] (word :: ts) := by simp [stops_cons, hw]
  refine yields_bind.mpr ⟨_, _, yields_here.mpr ⟨rfl, rfl⟩, ?_⟩
  refine yields_skip hstop (by simp) ?_
  refine yields_skip hstop (by simp) ?_
  refine yields_skip hstop (by simp) ?_
  refine yields_skip hstop (by simp) ?_
  exact yields_found hw h

lemma yields_statement_simple {n : Node} (hstop : Stops boundaries ts)
    (h : Yields (simpleStatement width depth) ts n rest) :
    Yields (statement width (depth + 1)) ts n rest := by
  refine yields_bind.mpr ⟨_, _, yields_here.mpr ⟨rfl, rfl⟩, ?_⟩
  refine yields_skip hstop (by decide) ?_
  refine yields_skip hstop (by decide) ?_
  refine yields_skip hstop (by decide) ?_
  refine yields_skip hstop (by decide) ?_
  refine yields_skip hstop (by decide) ?_
  exact h

lemma readsStatement_declaration {n : Node} {semicolon : Token} (h : Declaration IsName ts n)
    (hts : Readable ts) (hs : semicolon.lexeme = ";") :
    ReadsStatement width (ts ++ [semicolon]) n := by
  intro depth rest hwidth hdepth
  obtain ⟨word, xs, rfl, hw⟩ : ∃ word xs, ts = word :: xs ∧ word.lexeme = "LET" := by
    cases h with
    | mk hw => exact ⟨_, _, rfl, hw⟩
  simp only [List.length_append, List.length_cons, List.length_nil] at hwidth hdepth
  obtain ⟨depth, rfl⟩ : ∃ d, depth = d + 1 := ⟨depth - 1, by omega⟩
  rw [List.append_assoc]
  exact yields_statement_let hw (yields_declaration h hts.tail (by omega) (by omega) hs)

lemma readsStatement_assignment {receiver value : Node} {semicolon : Token}
    (h : Assignment IsName ts receiver value) (hts : Readable ts) (hs : semicolon.lexeme = ";") :
    ReadsStatement width (ts ++ [semicolon]) (.assign (firstMark ts) receiver value) := by
  intro depth rest hwidth hdepth
  have hstop : Stops boundaries (ts ++ semicolon :: rest) := stops_assignment h hts
  cases h with
  | @mk xs ys _ _ equals hr he hv =>
    simp only [List.length_append, List.length_cons, List.length_nil] at hwidth hdepth
    obtain ⟨depth, rfl⟩ : ∃ d, depth = d + 1 := ⟨depth - 1, by omega⟩
    rw [List.append_assoc]
    refine yields_statement_simple hstop ?_
    refine yields_bind.mpr ⟨_, _, yields_here.mpr ⟨rfl, rfl⟩, ?_⟩
    rw [firstMark_append (by simp [hr.ne_nil]), List.append_assoc]
    refine yields_bind.mpr ⟨receiver, _, readsExpression hr hts.left (by omega) (by omega)
      (stops_continuers (by simp [he])), ?_⟩
    refine yields_found he ?_
    refine yields_bind.mpr ⟨value, _, readsExpression hv hts.right.tail (by omega) (by omega)
      (stops_continuers (by simp [hs])), ?_⟩
    refine yields_bind.mpr ⟨semicolon, rest, yields_take_text rfl hs, ?_⟩
    exact yields_pure.mpr ⟨rfl, rfl⟩

lemma readsStatement_perform {semicolon : Token} (h : Expression IsName ts e) (hts : Readable ts)
    (hs : semicolon.lexeme = ";") :
    ReadsStatement width (ts ++ [semicolon]) (.perform (firstMark ts) e) := by
  intro depth rest hwidth hdepth
  simp only [List.length_append, List.length_cons, List.length_nil] at hwidth hdepth
  obtain ⟨depth, rfl⟩ : ∃ d, depth = d + 1 := ⟨depth - 1, by omega⟩
  rw [List.append_assoc]
  refine yields_statement_simple (stops_expression h hts) ?_
  refine yields_bind.mpr ⟨_, _, yields_here.mpr ⟨rfl, rfl⟩, ?_⟩
  rw [firstMark_append h.ne_nil]
  refine yields_bind.mpr ⟨e, _, readsExpression h hts (by omega) (by omega)
    (stops_continuers (by simp [hs])), ?_⟩
  have hstop : Stops ["="] ([semicolon] ++ rest) := by simp [stops_cons, hs]
  refine yields_skip hstop (by simp) ?_
  refine yields_bind.mpr ⟨semicolon, rest, yields_take_text rfl hs, ?_⟩
  exact yields_pure.mpr ⟨rfl, rfl⟩

lemma readsStatement_giveBack {word semicolon : Token} (hw : word.lexeme = "RETURN")
    (h : Expression IsName ts e) (hts : Readable ts) (hs : semicolon.lexeme = ";") :
    ReadsStatement width (word :: ts ++ [semicolon]) (.giveBack (markOf word) e) := by
  intro depth rest hwidth hdepth
  simp only [List.length_append, List.length_cons, List.length_nil] at hwidth hdepth
  obtain ⟨depth, rfl⟩ : ∃ d, depth = d + 2 := ⟨depth - 2, by omega⟩
  rw [List.append_assoc]
  refine yields_statement_return hw ?_
  refine yields_bind.mpr ⟨e, _, readsExpression h hts (by omega) (by omega)
    (stops_continuers (by simp [hs])), ?_⟩
  refine yields_bind.mpr ⟨semicolon, rest, yields_take_text rfl hs, ?_⟩
  exact yields_pure.mpr ⟨rfl, rfl⟩

lemma readsStatement_branch {body : List Node} {word opening closing : Token}
    (hw : word.lexeme = "IF") (hc : Expression IsName ts e) (hts : Readable ts)
    (ho : opening.lexeme = "DO") (hb : ReadsBlock width us body) (he : closing.lexeme = "END") :
    ReadsStatement width (word :: ts ++ opening :: us ++ [closing])
      (.branch (markOf word) e body []) := by
  intro depth rest hwidth hdepth
  simp only [List.length_append, List.length_cons, List.length_nil] at hwidth hdepth
  obtain ⟨depth, rfl⟩ : ∃ d, depth = d + 2 := ⟨depth - 2, by omega⟩
  rw [List.append_assoc, List.append_assoc]
  refine yields_statement_if hw ?_
  refine yields_bind.mpr ⟨e, _, readsExpression hc hts (by omega) (by omega)
    (stops_continuers (by simp [ho])), ?_⟩
  refine yields_bind.mpr ⟨opening, _, yields_take_text rfl ho, ?_⟩
  refine yields_bind.mpr ⟨body, _, hb (by omega) (by omega) (by simp [he]) (by simp), ?_⟩
  have hstop : Stops ["ELSE"] (closing :: ([] ++ rest)) := by simp [stops_cons, he]
  refine yields_skip hstop (by simp) ?_
  refine yields_bind.mpr ⟨[], _, yields_pure.mpr ⟨rfl, rfl⟩, ?_⟩
  refine yields_bind.mpr ⟨closing, rest, yields_take_text rfl he, ?_⟩
  exact yields_pure.mpr ⟨rfl, rfl⟩

lemma readsStatement_branchElse {vs : List Token} {body other : List Node}
    {word opening middle closing : Token} (hw : word.lexeme = "IF")
    (hc : Expression IsName ts e) (hts : Readable ts) (ho : opening.lexeme = "DO")
    (hb : ReadsBlock width us body) (hm : middle.lexeme = "ELSE")
    (hb' : ReadsBlock width vs other) (he : closing.lexeme = "END") :
    ReadsStatement width (word :: ts ++ opening :: us ++ middle :: vs ++ [closing])
      (.branch (markOf word) e body other) := by
  intro depth rest hwidth hdepth
  simp only [List.length_append, List.length_cons, List.length_nil] at hwidth hdepth
  obtain ⟨depth, rfl⟩ : ∃ d, depth = d + 2 := ⟨depth - 2, by omega⟩
  rw [List.append_assoc, List.append_assoc, List.append_assoc]
  refine yields_statement_if hw ?_
  refine yields_bind.mpr ⟨e, _, readsExpression hc hts (by omega) (by omega)
    (stops_continuers (by simp [ho])), ?_⟩
  refine yields_bind.mpr ⟨opening, _, yields_take_text rfl ho, ?_⟩
  refine yields_bind.mpr ⟨body, _, hb (by omega) (by omega) (by simp [hm]) (by simp), ?_⟩
  refine yields_found hm ?_
  refine yields_bind.mpr ⟨other, _, hb' (by omega) (by omega) (by simp [he]) (by simp), ?_⟩
  refine yields_bind.mpr ⟨closing, rest, yields_take_text rfl he, ?_⟩
  exact yields_pure.mpr ⟨rfl, rfl⟩

lemma readsStatement_whileLoop {body : List Node} {word opening closing : Token}
    (hw : word.lexeme = "WHILE") (hc : Expression IsName ts e) (hts : Readable ts)
    (ho : opening.lexeme = "DO") (hb : ReadsBlock width us body) (he : closing.lexeme = "END") :
    ReadsStatement width (word :: ts ++ opening :: us ++ [closing])
      (.whileLoop (markOf word) e body) := by
  intro depth rest hwidth hdepth
  simp only [List.length_append, List.length_cons, List.length_nil] at hwidth hdepth
  obtain ⟨depth, rfl⟩ : ∃ d, depth = d + 2 := ⟨depth - 2, by omega⟩
  rw [List.append_assoc, List.append_assoc]
  refine yields_statement_while hw ?_
  refine yields_bind.mpr ⟨e, _, readsExpression hc hts (by omega) (by omega)
    (stops_continuers (by simp [ho])), ?_⟩
  refine yields_bind.mpr ⟨opening, _, yields_take_text rfl ho, ?_⟩
  refine yields_bind.mpr ⟨body, _, hb (by omega) (by omega) (by simp [he]) (by simp), ?_⟩
  refine yields_bind.mpr ⟨closing, rest, yields_take_text rfl he, ?_⟩
  exact yields_pure.mpr ⟨rfl, rfl⟩

lemma readsStatement_forLoop {vs ws : List Token} {first c last : Node} {body : List Node}
    {word left semicolon semicolon' right opening closing : Token} (hw : word.lexeme = "FOR")
    (hl : left.lexeme = "(") (hi : Initializer IsName ts first) (hts : Readable ts)
    (hs : semicolon.lexeme = ";") (hc : Condition IsName us c) (hus : Readable us)
    (hs' : semicolon'.lexeme = ";") (hn : Increment IsName vs last) (hvs : Readable vs)
    (hr : right.lexeme = ")") (ho : opening.lexeme = "DO") (hb : ReadsBlock width ws body)
    (he : closing.lexeme = "END") :
    ReadsStatement width (word :: left :: ts ++ semicolon :: us ++ semicolon' :: vs ++
      right :: opening :: ws ++ [closing]) (.forLoop (markOf word) first c last body) := by
  intro depth rest hwidth hdepth
  simp only [List.length_append, List.length_cons, List.length_nil] at hwidth hdepth
  obtain ⟨depth, rfl⟩ : ∃ d, depth = d + 2 := ⟨depth - 2, by omega⟩
  simp only [List.append_assoc, List.cons_append, List.nil_append]
  refine yields_statement_for hw ?_
  have hcwidth : us.length ≤ width := by omega
  have hnwidth : vs.length ≤ width := by omega
  rw [forLoop]
  refine yields_bind.mpr ⟨left, _, yields_take_text rfl hl, ?_⟩
  refine yields_bind.mpr ⟨first, _, yields_initializer hi hts (by omega) (by omega) hs, ?_⟩
  have hcdepth : 12 * us.length ≤ depth := by omega
  obtain ⟨b, hb₁, hcondition⟩ := yields_condition hc hus hcwidth hcdepth hs'
  refine yields_bind.mpr ⟨b, _, hb₁, yields_ite_bind.mpr ⟨c, _, hcondition, ?_⟩⟩
  refine yields_bind.mpr ⟨semicolon', _, yields_take_text rfl hs', ?_⟩
  have hndepth : 12 * vs.length ≤ depth := by omega
  obtain ⟨b', hb₂, hincrement⟩ := yields_increment hn hvs hnwidth hndepth hr
  refine yields_bind.mpr ⟨b', _, hb₂, yields_ite_bind.mpr ⟨last, _, hincrement, ?_⟩⟩
  refine yields_bind.mpr ⟨right, _, yields_take_text rfl hr, ?_⟩
  refine yields_bind.mpr ⟨opening, _, yields_take_text rfl ho, ?_⟩
  refine yields_bind.mpr ⟨body, _, hb (by omega) (by omega) (by simp [he]) (by simp), ?_⟩
  refine yields_bind.mpr ⟨closing, rest, yields_take_text rfl he, ?_⟩
  exact yields_pure.mpr ⟨rfl, rfl⟩

lemma stops_statement {n : Node} (h : Statement IsName ts n) (hts : Readable ts) :
    Stops ["ELSE", "END"] (ts ++ rest) := by
  have hsub : ["ELSE", "END"] ⊆ boundaries := by decide
  cases h with
  | declaration h hs =>
    cases h with
    | mk hw => simp [stops_cons, hw]
  | assignment h hs =>
    rw [List.append_assoc]
    exact (stops_assignment h hts.left).mono hsub
  | perform h hs =>
    rw [List.append_assoc]
    exact (stops_expression h hts.left).mono hsub
  | branch hw hc ho hb he => simp [stops_cons, hw]
  | branchElse hw hc ho hb hm hb' he => simp [stops_cons, hw]
  | forLoop hw => simp [stops_cons, hw]
  | whileLoop hw hc ho hb he => simp [stops_cons, hw]
  | giveBack hw h hs => simp [stops_cons, hw]

/-- The statements of a block are read one by one. -/
def ReadsStatements (width : Nat) (ts : List Token) (ns : List Node) : Prop :=
  ∀ {depth w rest} {terminators : List String} {closing : Token}, ts.length ≤ width →
    ts.length ≤ w → 12 * ts.length ≤ depth → closing.lexeme ∈ terminators →
    terminators ⊆ ["ELSE", "END"] →
    Yields (statementsUntil terminators (statement width depth) (w + 1)) (ts ++ closing :: rest) ns
      (closing :: rest)

lemma readsStatements_nil : ReadsStatements width [] [] := by
  intro depth w rest terminators closing hwidth hw hdepth hc hsub
  rw [statementsUntil, yields_bind]
  refine ⟨_, _, yields_get.mpr ⟨rfl, rfl⟩, ?_⟩
  simp only [List.nil_append, List.contains_iff_mem, hc, if_true]
  exact yields_pure.mpr ⟨rfl, rfl⟩

lemma readsStatements_cons {n : Node} {ns : List Node} (h : ReadsStatement width ts n)
    (hpos : 0 < ts.length) (hstop : ∀ {rest}, Stops ["ELSE", "END"] (ts ++ rest))
    (hs : ReadsStatements width us ns) : ReadsStatements width (ts ++ us) (n :: ns) := by
  intro depth w rest terminators closing hwidth hw hdepth hc hsub
  rw [List.length_append] at hwidth hw hdepth
  obtain ⟨w, rfl⟩ : ∃ d, w = d + 1 := ⟨w - 1, by omega⟩
  rw [List.append_assoc, statementsUntil, yields_bind]
  refine ⟨_, _, yields_get.mpr ⟨rfl, rfl⟩, ?_⟩
  have hread : Yields (statement width depth) (ts ++ (us ++ closing :: rest)) n
      (us ++ closing :: rest) := h (by omega) (by omega)
  have hfirst : Stops terminators (ts ++ (us ++ closing :: rest)) := hstop.mono hsub
  cases hts : ts ++ (us ++ closing :: rest) with
  | nil => simp at hts
  | cons t xs =>
    rw [hts] at hread hfirst
    have ht : terminators.contains t.lexeme = false := by
      simpa using stops_cons.mp hfirst
    simp only [ht, Bool.false_eq_true, if_false]
    refine yields_bind.mpr ⟨n, _, hread, ?_⟩
    refine yields_bind.mpr ⟨ns, _, hs (by omega) (by omega) (by omega) hc hsub, ?_⟩
    exact yields_pure.mpr ⟨rfl, rfl⟩

lemma readsBlock {ns : List Node} (h : ReadsStatements width ts ns) :
    ReadsBlock width ts ns := by
  intro depth rest terminators closing hwidth hdepth hc hsub
  obtain ⟨depth, rfl⟩ : ∃ d, depth = d + 1 := ⟨depth - 1, by omega⟩
  rw [block]
  exact h hwidth hwidth (by omega) hc hsub

mutual

theorem readsStatement {ts : List Token} {n : Node} :
    Statement IsName ts n → Readable ts → ReadsStatement width ts n
  | .declaration h hs, hts => readsStatement_declaration h hts.left hs
  | .assignment h hs, hts => readsStatement_assignment h hts.left hs
  | .perform h hs, hts => readsStatement_perform h hts.left hs
  | .branch hw hc ho hb he, hts =>
    readsStatement_branch hw hc hts.left.left.tail ho
      (readsBlock (readsStatements hb hts.left.right.tail)) he
  | .branchElse hw hc ho hb hm hb' he, hts =>
    readsStatement_branchElse hw hc hts.left.left.left.tail ho
      (readsBlock (readsStatements hb hts.left.left.right.tail)) hm
      (readsBlock (readsStatements hb' hts.left.right.tail)) he
  | .forLoop hw hl hi hs hc hs' hn hr ho hb he, hts =>
    readsStatement_forLoop hw hl hi hts.left.left.left.left.tail.tail hs hc
      hts.left.left.left.right.tail hs' hn hts.left.left.right.tail hr ho
      (readsBlock (readsStatements hb hts.left.right.tail.tail)) he
  | .whileLoop hw hc ho hb he, hts =>
    readsStatement_whileLoop hw hc hts.left.left.tail ho
      (readsBlock (readsStatements hb hts.left.right.tail)) he
  | .giveBack hw h hs, hts => readsStatement_giveBack hw h hts.left.tail hs

theorem readsStatements {ts : List Token} {ns : List Node} :
    Statements IsName ts ns → Readable ts → ReadsStatements width ts ns
  | .nil, _ => readsStatements_nil
  | .cons h hs, hts =>
    readsStatements_cons (readsStatement h hts.left) h.length_pos (stops_statement h hts.left)
      (readsStatements hs hts.right)

end

/-! ### Programs -/

lemma yields_field {f : Field} {word : Token} (h : FieldRule IsName (word :: ts) f)
    (hts : Readable ts) (hwidth : ts.length ≤ width) (hdepth : 12 * ts.length ≤ depth) :
    Yields (field width (markOf word) depth) (ts ++ rest) f rest := by
  cases h with
  | @changeable xs ys typeName value _ t semicolon hw ht hty hv hs =>
    simp only [List.append_eq, List.length_append, List.length_cons, List.length_nil]
      at hts hwidth hdepth ⊢
    obtain ⟨depth, rfl⟩ : ∃ d, depth = d + 1 := ⟨depth - 1, by omega⟩
    -- The name is no keyword, so the parser does not take it for the CONST of a constant.
    have hconst : Stops ["CONST"] (t :: (xs ++ (ys ++ semicolon :: rest))) := by
      simpa [stops_cons] using lexeme_ne_of_isName hts.left.left.head ht (.inl (by decide))
    simp only [List.append_assoc, List.cons_append, List.nil_append]
    refine yields_skip hconst (by simp) ?_
    refine yields_bind.mpr ⟨t, _, yields_take_name rfl ht, ?_⟩
    refine yields_bind.mpr ⟨typeName, _, yields_typePart rfl hty (stops_valuePart hv hs), ?_⟩
    refine yields_bind.mpr ⟨value, _, yields_valuePart hv hts.left.right (by omega) (by omega) hs,
      ?_⟩
    refine yields_bind.mpr ⟨semicolon, rest, yields_take_text rfl hs, ?_⟩
    exact yields_pure.mpr ⟨rfl, rfl⟩
  | @constant xs ys typeName value _ word' t semicolon hw hw' ht hty hv hs =>
    simp only [List.append_eq, List.length_append, List.length_cons, List.length_nil]
      at hts hwidth hdepth ⊢
    obtain ⟨depth, rfl⟩ : ∃ d, depth = d + 1 := ⟨depth - 1, by omega⟩
    simp only [List.append_assoc, List.cons_append, List.nil_append]
    refine yields_found hw' ?_
    refine yields_bind.mpr ⟨t, _, yields_take_name rfl ht, ?_⟩
    refine yields_bind.mpr ⟨typeName, _, yields_typePart rfl hty (stops_valuePart hv hs), ?_⟩
    refine yields_bind.mpr ⟨value, _, yields_valuePart hv hts.left.right (by omega) (by omega) hs,
      ?_⟩
    refine yields_bind.mpr ⟨semicolon, rest, yields_take_text rfl hs, ?_⟩
    exact yields_pure.mpr ⟨rfl, rfl⟩

lemma yields_parameter {p : String × String} (h : Parameter IsName ts p)
    (hrest : Stops [":"] rest) : Yields parameter (ts ++ rest) p rest := by
  cases h with
  | @mk xs typeName t ht hty =>
    refine yields_bind.mpr ⟨t, _, yields_take_name rfl ht, ?_⟩
    refine yields_bind.mpr ⟨typeName, rest, yields_typePart rfl hty hrest, ?_⟩
    exact yields_pure.mpr ⟨rfl, rfl⟩

lemma yields_parameterList {ps : List (String × String)} {w : Nat} {right : Token}
    (h : ParameterList IsName ts ps) (hw : ts.length ≤ w) (hr : right.lexeme = ")") :
    Yields (commaList parameter w) (ts ++ right :: rest) ps (right :: rest) := by
  induction h generalizing w with
  | one h =>
    exact yields_commaList_one (yields_parameter h (by simp [stops_cons, hr]))
      (by simp [stops_cons, hr])
  | more h hc hs ih =>
    rw [List.length_append, List.length_cons] at hw
    obtain ⟨w, rfl⟩ : ∃ d, w = d + 1 := ⟨w - 1, by omega⟩
    rw [List.append_assoc, List.cons_append]
    exact yields_commaList_more (yields_parameter h (by simp [stops_cons, hc])) hc
      (ih (by omega))

lemma yields_parameters {ps : List (String × String)} {right : Token}
    (h : Parameters IsName ts ps) (hts : Readable ts) (hwidth : ts.length ≤ width)
    (hr : right.lexeme = ")") :
    ∃ b, Yields (peekText ")") (ts ++ right :: rest) b (ts ++ right :: rest) ∧
      Yields (if b = true then pure [] else commaList parameter width)
        (ts ++ right :: rest) ps (right :: rest) := by
  cases h with
  | none => exact ⟨true, yields_peekText_cons hr, yields_pure.mpr ⟨rfl, rfl⟩⟩
  | some h =>
    refine ⟨false, ?_, yields_parameterList h hwidth hr⟩
    have hstop : Stops boundaries (ts ++ right :: rest) := by
      cases h with
      | one h =>
        cases h with
        | mk ht => exact stops_cons.mpr (isName_not_boundary ht hts.head)
      | more h =>
        cases h with
        | mk ht => exact stops_cons.mpr (isName_not_boundary ht hts.left.head)
    exact yields_peekText_stops hstop (by decide)

lemma yields_method {m : Method} {word : Token} (h : MethodRule IsName (word :: ts) m)
    (hts : Readable ts) (hwidth : ts.length ≤ width) (hdepth : 12 * ts.length ≤ depth) :
    Yields (method width (markOf word) depth) (ts ++ rest) m rest := by
  cases h with
  | @mk xs ys zs ps returns body _ t left right opening closing hw ht hl hp hr hty ho hb he =>
    simp only [List.append_eq, List.length_append, List.length_cons, List.length_nil]
      at hts hwidth hdepth ⊢
    obtain ⟨depth, rfl⟩ : ∃ d, depth = d + 1 := ⟨depth - 1, by omega⟩
    have hpwidth : xs.length ≤ width := by omega
    simp only [List.append_assoc, List.cons_append, List.nil_append]
    refine yields_bind.mpr ⟨t, _, yields_take_name rfl ht, ?_⟩
    refine yields_bind.mpr ⟨left, _, yields_take_text rfl hl, ?_⟩
    obtain ⟨b, hb₁, hparameters⟩ :=
      yields_parameters hp hts.left.left.left.tail.tail hpwidth hr
    refine yields_bind.mpr ⟨b, _, hb₁, yields_ite_bind.mpr ⟨ps, _, hparameters, ?_⟩⟩
    refine yields_bind.mpr ⟨right, _, yields_take_text rfl hr, ?_⟩
    refine yields_bind.mpr ⟨returns, _, yields_typePart rfl hty (by simp [stops_cons, ho]), ?_⟩
    refine yields_bind.mpr ⟨opening, _, yields_take_text rfl ho, ?_⟩
    refine yields_bind.mpr ⟨body, _, readsBlock (readsStatements hb hts.left.right.tail)
      (by omega) (by omega) (by simp [he]) (by simp), ?_⟩
    refine yields_bind.mpr ⟨closing, rest, yields_take_text rfl he, ?_⟩
    exact yields_pure.mpr ⟨rfl, rfl⟩

/-- Declarations are read while their first word comes next. -/
lemma yields_declarations {α : Type} {rule : List Token → α → Prop} {text : String}
    {item : Mark → Parse α}
    (hstart : ∀ {ts a}, rule ts a → ∃ word us, ts = word :: us ∧ word.lexeme = text)
    (hitem : ∀ {word us a rest}, rule (word :: us) a → Readable us → us.length ≤ width →
      12 * us.length ≤ depth → Yields (item (markOf word)) (us ++ rest) a rest)
    {as : List α} {w : Nat} (h : Many rule ts as) (hts : Readable ts) (hwidth : ts.length ≤ width)
    (hdepth : 12 * ts.length ≤ depth) (hw : ts.length ≤ w) (hrest : Stops [text] rest) :
    Yields (declarations text item w) (ts ++ rest) as rest := by
  induction h generalizing w with
  | nil =>
    cases w with
    | zero => exact yields_pure.mpr ⟨rfl, rfl⟩
    | succ w =>
      refine yields_bind.mpr ⟨_, _, yields_here.mpr ⟨rfl, rfl⟩, ?_⟩
      exact yields_skip hrest (by simp) (yields_pure.mpr ⟨rfl, rfl⟩)
  | @cons xs ys a as h hs ih =>
    obtain ⟨word, xs, rfl, hword⟩ := hstart h
    simp only [List.length_append, List.length_cons] at hwidth hdepth hw
    obtain ⟨w, rfl⟩ : ∃ d, w = d + 1 := ⟨w - 1, by omega⟩
    rw [List.append_assoc]
    refine yields_bind.mpr ⟨_, _, yields_here.mpr ⟨rfl, rfl⟩, yields_found hword ?_⟩
    refine yields_bind.mpr ⟨a, _, hitem h hts.left.tail (by omega) (by omega), ?_⟩
    refine yields_bind.mpr ⟨as, _, ih hts.right (by omega) (by omega) (by omega), ?_⟩
    exact yields_pure.mpr ⟨rfl, rfl⟩

lemma fieldRule_start {f : Field} (h : FieldRule IsName ts f) :
    ∃ word us, ts = word :: us ∧ word.lexeme = "LET" := by
  cases h with
  | changeable hw => exact ⟨_, _, rfl, hw⟩
  | constant hw => exact ⟨_, _, rfl, hw⟩

lemma methodRule_start {m : Method} (h : MethodRule IsName ts m) :
    ∃ word us, ts = word :: us ∧ word.lexeme = "DEF" := by
  cases h with
  | mk hw => exact ⟨_, _, rfl, hw⟩

/-- Tokens that are a program by the grammar are read as that program. -/
theorem program_of_source {p : Program} (h : Source IsName ts p) (hts : Readable ts)
    (hwidth : ts.length ≤ width) (hdepth : 12 * ts.length ≤ depth) :
    Yields (program width depth) ts p [] := by
  cases h with
  | @mk xs ys fields methods hf hm =>
    rw [List.length_append] at hwidth hdepth
    have hfirst : Stops ["LET"] ys := by
      cases hm with
      | nil => simp [Stops]
      | cons h hs =>
        obtain ⟨word, us, rfl, hword⟩ := methodRule_start h
        simp [stops_cons, hword]
    have hmethods : Yields (declarations "DEF" (fun mark => method width mark depth) width)
        (ys ++ []) methods [] :=
      yields_declarations methodRule_start yields_method hm hts.right (by omega) (by omega)
        (by omega) (by simp [Stops])
    rw [List.append_nil] at hmethods
    refine yields_bind.mpr ⟨_, _, yields_here.mpr ⟨rfl, rfl⟩, ?_⟩
    refine yields_bind.mpr ⟨fields, ys, yields_declarations fieldRule_start yields_field hf hts.left
      (by omega) (by omega) (by omega) hfirst, ?_⟩
    refine yields_bind.mpr ⟨methods, [], hmethods, ?_⟩
    refine yields_bind.mpr ⟨[], [], yields_get.mpr ⟨rfl, rfl⟩, ?_⟩
    exact yields_pure.mpr ⟨rfl, rfl⟩

end LetDef.Parser

namespace LetDef.Program

open LetDef.Grammar LetDef.Parser

variable {depth : Nat} {ts : List Token} {p q : Program}

lemma program_takes_all {width : Nat} {rest : List Token}
    (h : Yields (program width depth) ts p rest) : rest = [] := by
  simp only [program, yields_bind, yields_get] at h
  obtain ⟨_, _, _, _, _, _, _, xs, _, _, _, ⟨hget, hxs⟩, hend⟩ := h
  rw [hget, hxs] at hend
  cases xs with
  | nil => exact (yields_pure.mp hend).2
  | cons t xs => exact absurd hend not_yields_fail

/-- A program is read from tokens just where its parser takes them all. -/
lemma ofTokens_eq_ok : ofTokens depth ts = .ok p ↔ Yields (program ts.length depth) ts p [] := by
  unfold ofTokens Yields
  change (Functor.map Prod.fst ((program ts.length depth).run ts)) = .ok p ↔ _
  constructor
  · intro h
    cases hrun : (program ts.length depth).run ts with
    | error e =>
      rw [hrun] at h
      cases h
    | ok r =>
      rw [hrun] at h
      cases h
      rw [← program_takes_all hrun]
  · intro h
    rw [h]
    rfl

/-- What is read from tokens, the grammar derives. -/
theorem source_of_ofTokens (hts : Shaped ts) (h : ofTokens depth ts = .ok p) :
    Source IsIdentifier ts p :=
  source_of_program hts (ofTokens_eq_ok.mp h)

/-- What the grammar derives without keywords for names is read from the tokens. -/
theorem ofTokens_of_source (h : Source IsName ts p) (hts : Readable ts)
    (hdepth : 12 * ts.length ≤ depth) : ofTokens depth ts = .ok p :=
  ofTokens_eq_ok.mpr (program_of_source h hts le_rfl hdepth)

/-- Without keywords for names, the grammar derives at most one program from tokens. -/
theorem source_unique (hts : Readable ts) (h : Source IsName ts p) (h' : Source IsName ts q) :
    p = q := by
  have hp := ofTokens_of_source h hts le_rfl
  rw [ofTokens_of_source h' hts le_rfl] at hp
  cases hp
  rfl

end LetDef.Program
