import LetDef.Proofs.Parser.Literal

/-!
# Parsers follow the grammar

Whatever the parser of a rule reads, the tokens that it takes are a derivation by that rule of the
tree that it yields. The proofs follow the recursion of the parsers: a parser that calls others at a
smaller depth follows its rule if they follow theirs.
-/

namespace LetDef.Parser

open LetDef.Grammar

/-- Tokens as scanning makes them. -/
def Shaped (ts : List Token) : Prop :=
  ∀ t ∈ ts, Token.Shape t.kind t.lexeme.toList

lemma Shaped.right {ts us : List Token} (h : Shaped (ts ++ us)) : Shaped us :=
  fun t ht => h t (List.mem_append_right ts ht)

lemma Shaped.tail {t : Token} {ts : List Token} (h : Shaped (t :: ts)) : Shaped ts :=
  fun u hu => h u (List.mem_cons_of_mem t hu)

/-- Whatever the parser reads, it takes tokens that the rule relates to it. -/
def Follows {α : Type} (rule : List Token → α → Prop) (p : Parse α) : Prop :=
  ∀ {ts a rest}, Shaped ts → Yields p ts a rest → ∃ us, ts = us ++ rest ∧ rule us a

variable {α : Type} {ts rest : List Token} {width depth : Nat}

/-! ### Lists and chains -/

/-- A list with commas, for any rule of such lists. -/
lemma follows_commaList {rule : List Token → α → Prop} {list : List Token → List α → Prop}
    (one : ∀ {ts a}, rule ts a → list ts [a])
    (more : ∀ {ts us a as} {comma : Token}, rule ts a → comma.lexeme = "," → list us as →
      list (ts ++ comma :: us) (a :: as))
    {item : Parse α} (h : Follows rule item) :
    ∀ width, Follows list (commaList item width) := by
  intro width
  induction width with
  | zero =>
    intro ts as rest hts has
    simp only [commaList, yields_bind, yields_pure] at has
    obtain ⟨a, us, ha, rfl, rfl⟩ := has
    obtain ⟨vs, rfl, hvs⟩ := h hts ha
    exact ⟨vs, rfl, one hvs⟩
  | succ width ih =>
    intro ts as rest hts has
    simp only [commaList, yields_bind] at has
    obtain ⟨a, us, ha, comma, vs, hcomma, has⟩ := has
    obtain ⟨ws, rfl, hws⟩ := h hts ha
    rcases yields_acceptText.mp hcomma with ⟨t, rfl, ht, rfl⟩ | ⟨_, rfl, rfl⟩
    · simp only [if_true, yields_bind, yields_pure] at has
      obtain ⟨as, us, has, rfl, rfl⟩ := has
      obtain ⟨xs, rfl, hxs⟩ := ih hts.right.tail has
      exact ⟨ws ++ t :: xs, by simp, more hws ht hxs⟩
    · obtain ⟨rfl, rfl⟩ := yields_pure.mp has
      exact ⟨ws, rfl, one hws⟩

lemma follows_argumentList {item : Parse Node} (h : Follows (Expression IsIdentifier) item) :
    ∀ width, Follows (ArgumentList IsIdentifier) (commaList item width) :=
  follows_commaList .one .more h

/-- A chain of operators behind a left operand continues that operand's derivation. -/
lemma follows_operatorChain {level : Level} {operand : Parse Node}
    (h : Follows (Operand IsIdentifier level) operand) (width : Nat) :
    ∀ {us left e}, Shaped ts → Yields (operatorChain level.operators operand width left) ts e rest →
      Operation IsIdentifier level us left →
      ∃ vs, ts = vs ++ rest ∧ Operation IsIdentifier level (us ++ vs) e := by
  induction width generalizing ts with
  | zero =>
    intro us left e hts he hleft
    obtain ⟨rfl, rfl⟩ := yields_pure.mp he
    exact ⟨[], rfl, by rwa [List.append_nil]⟩
  | succ width ih =>
    intro us left e hts he hleft
    simp only [operatorChain, yields_bind] at he
    obtain ⟨o, vs, ho, he⟩ := he
    rcases yields_acceptOperator?.mp ho with ⟨t, rfl, ht, rfl⟩ | ⟨_, rfl, rfl⟩
    · simp only [yields_bind] at he
      obtain ⟨right, ws, hright, he⟩ := he
      obtain ⟨xs, rfl, hxs⟩ := h hts.tail hright
      obtain ⟨ys, rfl, hys⟩ := ih hts.tail.right he (.binary hleft ht hxs)
      exact ⟨t :: xs ++ ys, by simp, by simpa using hys⟩
    · obtain ⟨rfl, rfl⟩ := yields_pure.mp he
      exact ⟨[], rfl, by rwa [List.append_nil]⟩

/-- The arguments of a call with the closing parenthesis behind them. -/
inductive ArgumentsClosed : List Token → List Node → Prop
  | mk {ts : List Token} {es : List Node} {right : Token} (h : Arguments IsIdentifier ts es)
      (hr : right.lexeme = ")") : ArgumentsClosed (ts ++ [right]) es

/-- A chain of accesses and calls continues the derivation of the expression before it. -/
lemma follows_memberChain {arguments : Parse (List Node)}
    (h : Follows ArgumentsClosed arguments) (width : Nat) :
    ∀ {us e e'}, Shaped ts → Yields (memberChain arguments width e) ts e' rest →
      Secondary IsIdentifier us e →
      ∃ vs, ts = vs ++ rest ∧ Secondary IsIdentifier (us ++ vs) e' := by
  induction width generalizing ts with
  | zero =>
    intro us e e' hts he hsecondary
    obtain ⟨rfl, rfl⟩ := yields_pure.mp he
    exact ⟨[], rfl, by rwa [List.append_nil]⟩
  | succ width ih =>
    intro us e e' hts he hsecondary
    simp only [memberChain, yields_bind] at he
    obtain ⟨b, vs, hpoint, he⟩ := he
    rcases yields_acceptText.mp hpoint with ⟨point, rfl, hp, rfl⟩ | ⟨_, rfl, rfl⟩
    · simp only [if_true, yields_bind, yields_take] at he
      obtain ⟨t, us', ⟨rfl, ht⟩, b, ws, hleft, he⟩ := he
      have hname : IsIdentifier t := fits_kind.mp ht
      rcases yields_acceptText.mp hleft with ⟨left, rfl, hl, rfl⟩ | ⟨_, rfl, rfl⟩
      · simp only [if_true, yields_bind] at he
        obtain ⟨es, xs, hes, he⟩ := he
        obtain ⟨_, rfl, @⟨as, es, right, has, hr⟩⟩ := h hts.tail.tail.tail hes
        obtain ⟨ys, rfl, hys⟩ :=
          ih hts.tail.tail.tail.right he (.call hsecondary hp hname hl has hr)
        exact ⟨point :: t :: left :: as ++ [right] ++ ys, by simp, by simpa using hys⟩
      · obtain ⟨ys, rfl, hys⟩ := ih hts.tail.tail he (.access hsecondary hp hname)
        exact ⟨point :: t :: ys, by simp, by simpa using hys⟩
    · obtain ⟨rfl, rfl⟩ := yields_pure.mp he
      exact ⟨[], rfl, by rwa [List.append_nil]⟩

/-! ### Expressions -/

/-- The parsers of expressions follow their rules at a depth. -/
structure ExpressionsFollow (width depth : Nat) : Prop where
  expression : Follows (Expression IsIdentifier) (expression width depth)
  operation (level : Level) : Follows (Operation IsIdentifier level) (operation width level depth)
  secondary : Follows (Secondary IsIdentifier) (secondary width depth)
  primary : Follows (Primary IsIdentifier) (primary width depth)
  arguments : Follows ArgumentsClosed (arguments width depth)

lemma follows_tooDeep {rule : List Token → α → Prop} : Follows rule tooDeep :=
  fun _ h => absurd h not_yields_tooDeep

lemma follows_expression (h : ExpressionsFollow width depth) :
    Follows (Expression IsIdentifier) (expression width (depth + 1)) := by
  intro ts e rest hts he
  obtain ⟨us, hus, hlogical⟩ := h.operation .logical hts he
  exact ⟨us, hus, .logical hlogical⟩

lemma follows_operand (h : ExpressionsFollow width depth) (level : Level) :
    Follows (Operand IsIdentifier level)
      (match level.tighter? with
        | some tighter => operation width tighter depth
        | none => secondary width depth) := by
  intro ts e rest hts he
  cases hn : level.tighter? with
  | some next =>
    rw [hn] at he
    obtain ⟨us, hus, hnext⟩ := h.operation next hts he
    exact ⟨us, hus, .tighter hn hnext⟩
  | none =>
    rw [hn] at he
    obtain ⟨us, hus, hsecondary⟩ := h.secondary hts he
    exact ⟨us, hus, .secondary hn hsecondary⟩

lemma follows_operation (h : ExpressionsFollow width depth) (level : Level) :
    Follows (Operation IsIdentifier level) (operation width level (depth + 2)) := by
  intro ts e rest hts he
  rw [operation, yields_bind] at he
  obtain ⟨left, us, hleft, he⟩ := he
  obtain ⟨vs, rfl, hvs⟩ := follows_operand h level hts hleft
  obtain ⟨ws, rfl, hws⟩ :=
    follows_operatorChain (follows_operand h level) width hts.right he (.operand hvs)
  exact ⟨vs ++ ws, by simp, hws⟩

lemma follows_secondary (h : ExpressionsFollow width depth) :
    Follows (Secondary IsIdentifier) (secondary width (depth + 1)) := by
  intro ts e rest hts he
  rw [secondary, yields_bind] at he
  obtain ⟨first, us, hfirst, he⟩ := he
  obtain ⟨vs, rfl, hvs⟩ := h.primary hts hfirst
  obtain ⟨ws, rfl, hws⟩ := follows_memberChain h.arguments width hts.right he (.primary hvs)
  exact ⟨vs ++ ws, by simp, hws⟩

lemma follows_arguments (h : ExpressionsFollow width depth) :
    Follows ArgumentsClosed (arguments width (depth + 1)) := by
  intro ts es rest hts hes
  simp only [arguments, yields_bind, yields_peekText] at hes
  obtain ⟨b, us, ⟨rfl, _⟩, hes⟩ := hes
  cases b with
  | true =>
    simp only [if_true, yields_bind, yields_pure, yields_take] at hes
    obtain ⟨_, _, ⟨rfl, rfl⟩, right, _, ⟨rfl, hr⟩, rfl, rfl⟩ := hes
    exact ⟨[right], rfl, .mk .none (fits_text.mp hr)⟩
  | false =>
    simp only [Bool.false_eq_true, if_false, yields_bind, yields_pure, yields_take] at hes
    obtain ⟨_, _, hes, right, _, ⟨rfl, hr⟩, rfl, rfl⟩ := hes
    obtain ⟨vs, rfl, hvs⟩ := follows_argumentList h.expression width hts hes
    exact ⟨vs ++ [right], by simp, .mk (.some hvs) (fits_text.mp hr)⟩

/-- What is read behind a token that is neither a word for a value nor of a kind of literal. -/
lemma follows_group_or_name (h : ExpressionsFollow width depth) {t : Token} {us : List Token}
    {n : Node} (hts : Shaped (t :: us))
    (hn : Yields (if t.lexeme == "(" then do
        set us
        let body ← expression width depth
        let _ ← take .groupClose
        return .group (markOf t) body
      else if t.kind == .identifier then do
        set us
        if ← acceptText "(" then
          return .call (markOf t) .absent t.lexeme (← arguments width depth)
        return .access (markOf t) .absent t.lexeme
      else miss .primary) (t :: us) n rest) :
    ∃ vs, t :: us = vs ++ rest ∧ Primary IsIdentifier vs n := by
  split at hn
  · next hl =>
    simp only [yields_bind, yields_set, yields_take, yields_pure] at hn
    obtain ⟨_, _, rfl, e, _, he, right, _, ⟨rfl, hr⟩, rfl, rfl⟩ := hn
    obtain ⟨vs, rfl, hvs⟩ := h.expression hts.tail he
    exact ⟨t :: vs ++ [right], by simp, .group (eq_of_beq hl) hvs (fits_text.mp hr)⟩
  · split at hn
    · next hk =>
      have hname : IsIdentifier t := eq_of_beq hk
      simp only [yields_bind, yields_set] at hn
      obtain ⟨_, _, rfl, b, vs, hleft, hn⟩ := hn
      rcases yields_acceptText.mp hleft with ⟨left, rfl, hl, rfl⟩ | ⟨_, rfl, rfl⟩
      · simp only [if_true, yields_bind, yields_pure] at hn
        obtain ⟨es, _, hes, rfl, rfl⟩ := hn
        obtain ⟨_, rfl, @⟨as, es, right, has, hr⟩⟩ := h.arguments hts.tail.tail hes
        exact ⟨t :: left :: as ++ [right], by simp, .call hname hl has hr⟩
      · obtain ⟨rfl, rfl⟩ := yields_pure.mp hn
        exact ⟨[t], rfl, .access hname⟩
    · exact absurd hn not_yields_miss

lemma follows_primary (h : ExpressionsFollow width depth) :
    Follows (Primary IsIdentifier) (primary width (depth + 1)) := by
  intro ts n rest hts hn
  rw [primary, yields_bind] at hn
  obtain ⟨us, vs, hget, hn⟩ := hn
  obtain ⟨rfl, rfl⟩ := yields_get.mp hget
  cases vs with
  | nil => exact absurd hn not_yields_miss
  | cons t us =>
    -- The words for values come first, then the kinds that are literals by themselves; all else is
    -- a group or starts with a name.
    simp only at hn
    split at hn
    · next ht =>
      simp only [yields_bind, yields_set, yields_pure] at hn
      obtain ⟨_, _, rfl, rfl, rfl⟩ := hn
      exact ⟨[t], rfl, .literal (.nil (eq_of_beq ht))⟩
    · split at hn
      · next ht =>
        simp only [yields_bind, yields_set, yields_pure] at hn
        obtain ⟨_, _, rfl, rfl, rfl⟩ := hn
        exact ⟨[t], rfl, .literal (.yes (eq_of_beq ht))⟩
      · split at hn
        · next ht =>
          simp only [yields_bind, yields_set, yields_pure] at hn
          obtain ⟨_, _, rfl, rfl, rfl⟩ := hn
          exact ⟨[t], rfl, .literal (.no (eq_of_beq ht))⟩
        · have hliteral : ∀ p, literalOfKind? t = some p →
              Yields (do set us; p) (t :: us) n rest →
              ∃ vs, t :: us = vs ++ rest ∧ Primary IsIdentifier vs n := by
            intro p hp hread
            simp only [yields_bind, yields_set] at hread
            obtain ⟨_, _, rfl, hread⟩ := hread
            obtain ⟨rfl, v, sort, hv, rfl⟩ :=
              literal_of_yields (hts t List.mem_cons_self) hp hread
            exact ⟨[t], rfl, .literal hv⟩
          cases hk : t.kind with
          | integer =>
            rw [hk] at hn
            exact hliteral (integerLiteral t) (by rw [literalOfKind?, hk]) hn
          | decimal =>
            rw [hk] at hn
            exact hliteral (decimalLiteral t) (by rw [literalOfKind?, hk]) hn
          | character =>
            rw [hk] at hn
            exact hliteral (characterLiteral t) (by rw [literalOfKind?, hk]) hn
          | string =>
            rw [hk] at hn
            exact hliteral (stringLiteral t) (by rw [literalOfKind?, hk]) hn
          | identifier =>
            simp only [hk] at hn
            refine follows_group_or_name h hts ?_
            simpa only [hk] using hn
          | operator =>
            simp only [hk] at hn
            refine follows_group_or_name h hts ?_
            simpa only [hk] using hn

theorem expressionsFollow (width : Nat) : ∀ depth, ExpressionsFollow width depth := by
  intro depth
  induction depth using Nat.strongRecOn with
  | ind depth ih =>
    match depth with
    | 0 =>
      exact ⟨follows_tooDeep, fun _ => follows_tooDeep, follows_tooDeep, follows_tooDeep,
        follows_tooDeep⟩
    | 1 =>
      have h := ih 0 (by omega)
      exact ⟨follows_expression h, fun _ => follows_tooDeep, follows_secondary h,
        follows_primary h, follows_arguments h⟩
    | depth + 2 =>
      have h := ih (depth + 1) (by omega)
      exact ⟨follows_expression h, follows_operation (ih depth (by omega)), follows_secondary h,
        follows_primary h, follows_arguments h⟩

/-! ### Parts of statements -/

lemma follows_typePart {slot : Slot} (hslot : slot.pattern = .kind .identifier) :
    Follows (TypePart IsIdentifier) (nameAfter ":" slot) := by
  intro ts o rest hts ho
  simp only [nameAfter, yields_bind] at ho
  obtain ⟨b, us, hcolon, ho⟩ := ho
  rcases yields_acceptText.mp hcolon with ⟨colon, rfl, hc, rfl⟩ | ⟨_, rfl, rfl⟩
  · simp only [if_true, yields_bind, yields_take, yields_pure] at ho
    obtain ⟨t, _, ⟨rfl, ht⟩, rfl, rfl⟩ := ho
    rw [hslot] at ht
    exact ⟨[colon, t], rfl, .some hc (fits_kind.mp ht)⟩
  · obtain ⟨rfl, rfl⟩ := yields_pure.mp ho
    exact ⟨[], rfl, .none⟩

lemma follows_valuePart {p : Parse Node} (h : Follows (Expression IsIdentifier) p) :
    Follows (ValuePart IsIdentifier) (partAfter "=" p) := by
  intro ts n rest hts hn
  simp only [partAfter, yields_bind] at hn
  obtain ⟨b, us, hequals, hn⟩ := hn
  rcases yields_acceptText.mp hequals with ⟨equals, rfl, he, rfl⟩ | ⟨_, rfl, rfl⟩
  · obtain ⟨vs, rfl, hvs⟩ := h hts.tail hn
    exact ⟨equals :: vs, rfl, .some he hvs⟩
  · obtain ⟨rfl, rfl⟩ := yields_pure.mp hn
    exact ⟨[], rfl, .none⟩

/-- A rule whose tokens have a semicolon behind them. -/
inductive Ended (rule : List Token → Node → Prop) : List Token → Node → Prop
  | mk {ts : List Token} {n : Node} {semicolon : Token} (h : rule ts n)
      (hs : semicolon.lexeme = ";") : Ended rule (ts ++ [semicolon]) n

lemma follows_declaration (h : ExpressionsFollow width depth) {word : Token}
    (hw : word.lexeme = "LET") :
    Follows (Ended fun us n => Declaration IsIdentifier (word :: us) n)
      (declaration width (markOf word) (depth + 1)) := by
  intro ts n rest hts hn
  simp only [declaration, yields_bind, yields_take, yields_pure] at hn
  obtain ⟨t, _, ⟨rfl, ht⟩, typeName, us, hty, value, vs, hv, semicolon, _, ⟨rfl, hs⟩, rfl, rfl⟩ :=
    hn
  obtain ⟨xs, rfl, hxs⟩ := follows_typePart rfl hts.tail hty
  obtain ⟨ys, rfl, hys⟩ := follows_valuePart h.expression hts.tail.right hv
  refine ⟨t :: xs ++ ys ++ [semicolon], by simp, .mk ?_ (fits_text.mp hs)⟩
  exact .mk hw (fits_kind.mp ht) hxs hys

lemma follows_giveBack (h : ExpressionsFollow width depth) {word : Token}
    (hw : word.lexeme = "RETURN") :
    Follows (fun us n => Statement IsIdentifier (word :: us) n)
      (giveBack width (markOf word) (depth + 1)) := by
  intro ts n rest hts hn
  simp only [giveBack, yields_bind, yields_take, yields_pure] at hn
  obtain ⟨e, _, he, semicolon, _, ⟨rfl, hs⟩, rfl, rfl⟩ := hn
  obtain ⟨us, rfl, hus⟩ := h.expression hts he
  exact ⟨us ++ [semicolon], by simp, .giveBack hw hus (fits_text.mp hs)⟩

lemma firstMark_append {us : List Token} (h : ts ≠ []) : firstMark (ts ++ us) = firstMark ts := by
  cases ts with
  | nil => exact absurd rfl h
  | cons t ts => rfl

lemma follows_simpleStatement (h : ExpressionsFollow width depth) :
    Follows (Statement IsIdentifier) (simpleStatement width depth) := by
  intro ts n rest hts hn
  simp only [simpleStatement, yields_bind, yields_here] at hn
  obtain ⟨mark, _, ⟨rfl, rfl⟩, receiver, us, hreceiver, b, vs, hequals, hn⟩ := hn
  obtain ⟨xs, rfl, hxs⟩ := h.expression hts hreceiver
  rw [firstMark_append hxs.ne_nil] at hn
  rcases yields_acceptText.mp hequals with ⟨equals, rfl, he, rfl⟩ | ⟨_, rfl, rfl⟩
  · simp only [if_true, yields_bind, yields_take, yields_pure] at hn
    obtain ⟨value, _, hvalue, semicolon, _, ⟨rfl, hs⟩, rfl, rfl⟩ := hn
    obtain ⟨ys, rfl, hys⟩ := h.expression hts.right.tail hvalue
    refine ⟨xs ++ equals :: ys ++ [semicolon], by simp, ?_⟩
    have hmark : firstMark (xs ++ equals :: ys) = firstMark xs := firstMark_append hxs.ne_nil
    rw [← hmark]
    exact .assignment (.mk hxs he hys) (fits_text.mp hs)
  · simp only [Bool.false_eq_true, if_false, yields_bind, yields_take, yields_pure] at hn
    obtain ⟨semicolon, _, ⟨rfl, hs⟩, rfl, rfl⟩ := hn
    exact ⟨xs ++ [semicolon], by simp, .perform hxs (fits_text.mp hs)⟩

/-- The first clause of a FOR loop together with its semicolon. -/
lemma follows_initializer (h : ExpressionsFollow width depth)
    (h' : ExpressionsFollow width (depth - 1)) :
    Follows (Ended (Initializer IsIdentifier)) (initializer width depth) := by
  intro ts n rest hts hn
  simp only [initializer, yields_bind, yields_here] at hn
  obtain ⟨mark, _, ⟨rfl, rfl⟩, b, us, hword, hn⟩ := hn
  rcases yields_acceptText.mp hword with ⟨word, rfl, hw, rfl⟩ | ⟨_, rfl, rfl⟩
  · cases depth with
    | zero => exact absurd hn not_yields_tooDeep
    | succ depth =>
      obtain ⟨_, rfl, @⟨vs, n, semicolon, hvs, hs⟩⟩ := follows_declaration h' hw hts.tail hn
      exact ⟨word :: vs ++ [semicolon], by simp, .mk (.declaration hvs) hs⟩
  · simp only [Bool.false_eq_true, if_false, yields_bind] at hn
    obtain ⟨b, us, hsemicolon, hn⟩ := hn
    rcases yields_acceptText.mp hsemicolon with ⟨semicolon, rfl, hs, rfl⟩ | ⟨_, rfl, rfl⟩
    · obtain ⟨rfl, rfl⟩ := yields_pure.mp hn
      exact ⟨[] ++ [semicolon], rfl, .mk .none hs⟩
    · simp only [Bool.false_eq_true, if_false, yields_bind, yields_take, yields_pure] at hn
      obtain ⟨receiver, _, hreceiver, equals, _, ⟨rfl, he⟩, value, _, hvalue, semicolon, _,
        ⟨rfl, hs⟩, rfl, rfl⟩ := hn
      obtain ⟨xs, rfl, hxs⟩ := h.expression hts hreceiver
      obtain ⟨ys, rfl, hys⟩ := h.expression hts.right.tail hvalue
      refine ⟨xs ++ equals :: ys ++ [semicolon], by simp, ?_⟩
      have hmark : firstMark (xs ++ equals :: (ys ++ semicolon :: rest)) =
          firstMark (xs ++ equals :: ys) := by
        rw [firstMark_append hxs.ne_nil, firstMark_append hxs.ne_nil]
      rw [hmark]
      exact .mk (.assignment (.mk hxs (fits_text.mp he) hys)) (fits_text.mp hs)

lemma follows_increment (h : ExpressionsFollow width (depth - 1)) :
    Follows (Increment IsIdentifier) (increment width depth) := by
  intro ts n rest hts hn
  cases depth with
  | zero => exact absurd hn not_yields_tooDeep
  | succ depth =>
    simp only [increment, yields_bind, yields_here] at hn
    obtain ⟨mark, _, ⟨rfl, rfl⟩, receiver, us, hreceiver, hn⟩ := hn
    obtain ⟨xs, rfl, hxs⟩ := h.expression hts hreceiver
    cases htarget : isIncrementTarget receiver with
    | false =>
      simp only [htarget, Bool.not_false, if_true, yields_bind] at hn
      obtain ⟨_, _, hmiss, _⟩ := hn
      exact absurd hmiss not_yields_miss
    | true =>
      simp only [htarget, Bool.not_true, Bool.false_eq_true, if_false, yields_bind, yields_take,
        yields_pure] at hn
      obtain ⟨equals, _, ⟨rfl, he⟩, value, _, hvalue, rfl, rfl⟩ := hn
      obtain ⟨ys, rfl, hys⟩ := h.expression hts.right.tail hvalue
      refine ⟨xs ++ equals :: ys, by simp, ?_⟩
      have hmark : firstMark (xs ++ equals :: (ys ++ rest)) = firstMark (xs ++ equals :: ys) := by
        rw [firstMark_append hxs.ne_nil, firstMark_append hxs.ne_nil]
      rw [hmark]
      exact .some (.mk hxs (fits_text.mp he) hys) htarget

/-! ### Statements -/

/-- The parsers of statements follow their rules at a depth. -/
structure StatementsFollow (width depth : Nat) : Prop where
  block (terminators : List String) :
    Follows (Statements IsIdentifier) (block width terminators depth)
  statement : Follows (Statement IsIdentifier) (statement width depth)
  branch {word : Token} (hw : word.lexeme = "IF") :
    Follows (fun us n => Statement IsIdentifier (word :: us) n) (branch width (markOf word) depth)
  forLoop {word : Token} (hw : word.lexeme = "FOR") :
    Follows (fun us n => Statement IsIdentifier (word :: us) n) (forLoop width (markOf word) depth)
  whileLoop {word : Token} (hw : word.lexeme = "WHILE") :
    Follows (fun us n => Statement IsIdentifier (word :: us) n)
      (whileLoop width (markOf word) depth)

lemma follows_statementsUntil {terminators : List String} {item : Parse Node}
    (h : Follows (Statement IsIdentifier) item) :
    ∀ width, Follows (Statements IsIdentifier) (statementsUntil terminators item width) := by
  intro width
  induction width with
  | zero => exact fun _ hns => absurd hns not_yields_miss
  | succ width ih =>
    intro ts ns rest hts hns
    rw [statementsUntil, yields_bind] at hns
    obtain ⟨us, vs, hget, hns⟩ := hns
    obtain ⟨rfl, rfl⟩ := yields_get.mp hget
    cases vs with
    | nil => exact absurd hns not_yields_miss
    | cons t us =>
      simp only at hns
      split at hns
      · obtain ⟨rfl, rfl⟩ := yields_pure.mp hns
        exact ⟨[], rfl, .nil⟩
      · simp only [yields_bind, yields_pure] at hns
        obtain ⟨n, _, hn, ns, _, hns, rfl, rfl⟩ := hns
        obtain ⟨xs, hxs, hstatement⟩ := h hts hn
        rw [hxs] at hts ⊢
        obtain ⟨ys, rfl, hys⟩ := ih hts.right hns
        exact ⟨xs ++ ys, by simp, .cons hstatement hys⟩

lemma follows_statement (h : StatementsFollow width depth)
    (he : ExpressionsFollow width depth) (he' : ExpressionsFollow width (depth - 1)) :
    Follows (Statement IsIdentifier) (statement width (depth + 1)) := by
  intro ts n rest hts hn
  simp only [statement, yields_bind, yields_here] at hn
  obtain ⟨mark, _, ⟨rfl, rfl⟩, b, us, hword, hn⟩ := hn
  -- The first word decides, in the order in which the parser asks for them; without one the
  -- statement starts with an expression.
  rcases yields_acceptText.mp hword with ⟨word, rfl, hw, rfl⟩ | ⟨_, rfl, rfl⟩
  · cases depth with
    | zero => exact absurd hn not_yields_tooDeep
    | succ depth =>
      obtain ⟨_, rfl, @⟨vs, n, semicolon, hvs, hs⟩⟩ := follows_declaration he' hw hts.tail hn
      exact ⟨word :: vs ++ [semicolon], by simp, .declaration hvs hs⟩
  · simp only [Bool.false_eq_true, if_false, yields_bind] at hn
    obtain ⟨b, us, hword, hn⟩ := hn
    rcases yields_acceptText.mp hword with ⟨word, rfl, hw, rfl⟩ | ⟨_, rfl, rfl⟩
    · obtain ⟨vs, rfl, hvs⟩ := h.branch hw hts.tail hn
      exact ⟨word :: vs, rfl, hvs⟩
    · simp only [Bool.false_eq_true, if_false, yields_bind] at hn
      obtain ⟨b, us, hword, hn⟩ := hn
      rcases yields_acceptText.mp hword with ⟨word, rfl, hw, rfl⟩ | ⟨_, rfl, rfl⟩
      · obtain ⟨vs, rfl, hvs⟩ := h.forLoop hw hts.tail hn
        exact ⟨word :: vs, rfl, hvs⟩
      · simp only [Bool.false_eq_true, if_false, yields_bind] at hn
        obtain ⟨b, us, hword, hn⟩ := hn
        rcases yields_acceptText.mp hword with ⟨word, rfl, hw, rfl⟩ | ⟨_, rfl, rfl⟩
        · obtain ⟨vs, rfl, hvs⟩ := h.whileLoop hw hts.tail hn
          exact ⟨word :: vs, rfl, hvs⟩
        · simp only [Bool.false_eq_true, if_false, yields_bind] at hn
          obtain ⟨b, us, hword, hn⟩ := hn
          rcases yields_acceptText.mp hword with ⟨word, rfl, hw, rfl⟩ | ⟨_, rfl, rfl⟩
          · cases depth with
            | zero => exact absurd hn not_yields_tooDeep
            | succ depth =>
              obtain ⟨vs, rfl, hvs⟩ := follows_giveBack he' hw hts.tail hn
              exact ⟨word :: vs, rfl, hvs⟩
          · exact follows_simpleStatement he hts hn

lemma follows_branch (h : StatementsFollow width depth) (he : ExpressionsFollow width depth)
    {word : Token} (hw : word.lexeme = "IF") :
    Follows (fun us n => Statement IsIdentifier (word :: us) n)
      (branch width (markOf word) (depth + 1)) := by
  intro ts n rest hts hn
  simp only [branch, yields_bind, yields_take] at hn
  obtain ⟨c, _, hc, opening, _, ⟨rfl, ho⟩, body, us, hbody, b, vs, hmiddle, hn⟩ := hn
  obtain ⟨xs, rfl, hxs⟩ := he.expression hts hc
  obtain ⟨ys, rfl, hys⟩ := h.block _ hts.right.tail hbody
  rcases yields_acceptText.mp hmiddle with ⟨middle, rfl, hm, rfl⟩ | ⟨_, rfl, rfl⟩
  · simp only [if_true, yields_bind, yields_take, yields_pure] at hn
    obtain ⟨other, _, hother, closing, _, ⟨rfl, hcl⟩, rfl, rfl⟩ := hn
    obtain ⟨zs, rfl, hzs⟩ := h.block _ hts.right.tail.right.tail hother
    refine ⟨xs ++ opening :: ys ++ middle :: zs ++ [closing], by simp, ?_⟩
    exact .branchElse hw hxs (fits_text.mp ho) hys hm hzs (fits_text.mp hcl)
  · simp only [Bool.false_eq_true, if_false, yields_bind, yields_take, yields_pure] at hn
    obtain ⟨_, _, ⟨rfl, rfl⟩, closing, _, ⟨rfl, hcl⟩, rfl, rfl⟩ := hn
    refine ⟨xs ++ opening :: ys ++ [closing], by simp, ?_⟩
    exact .branch hw hxs (fits_text.mp ho) hys (fits_text.mp hcl)

/-- A choice of parsers before the same continuation. -/
lemma yields_ite_bind {β : Type} {b : Bool} {p q : Parse α} {k : α → Parse β} {c : β} :
    Yields (if b = true then p >>= k else q >>= k) ts c rest ↔
      ∃ a us, Yields (if b = true then p else q) ts a us ∧ Yields (k a) us c rest := by
  cases b <;> exact yields_bind

/-- A part that may be left out. -/
lemma follows_unless {rule : List Token → α → Prop} {p : Parse α} {a : α} (none : rule [] a)
    (h : Follows rule p) (b : Bool) : Follows rule (if b = true then pure a else p) := by
  intro ts a' rest hts ha
  cases b with
  | true =>
    obtain ⟨rfl, rfl⟩ := yields_pure.mp ha
    exact ⟨[], rfl, none⟩
  | false => exact h hts ha

lemma follows_condition (h : ExpressionsFollow width depth) (b : Bool) :
    Follows (Condition IsIdentifier)
      (if b = true then pure .absent else expression width depth) := by
  apply follows_unless .none
  intro ts e rest hts he
  obtain ⟨us, rfl, hus⟩ := h.expression hts he
  exact ⟨us, rfl, .some hus⟩

lemma follows_forLoop (h : StatementsFollow width depth) (he : ExpressionsFollow width depth)
    (he' : ExpressionsFollow width (depth - 1)) {word : Token} (hw : word.lexeme = "FOR") :
    Follows (fun us n => Statement IsIdentifier (word :: us) n)
      (forLoop width (markOf word) (depth + 1)) := by
  intro ts n rest hts hn
  simp only [forLoop, yields_bind, yields_take, yields_pure, yields_peekText, yields_ite_bind] at hn
  obtain ⟨left, _, ⟨rfl, hl⟩, first, us, hfirst, b, _, ⟨rfl, -⟩, c, _, hc, semicolon', _,
    ⟨rfl, hs'⟩, b', _, ⟨rfl, -⟩, last, _, hlast, right, _, ⟨rfl, hr⟩, opening, _, ⟨rfl, ho⟩, body,
    _, hbody, closing, _, ⟨rfl, hcl⟩, rfl, rfl⟩ := hn
  obtain ⟨_, rfl, @⟨ws, first, semicolon, hws, hs⟩⟩ := follows_initializer he he' hts.tail hfirst
  obtain ⟨xs, rfl, hxs⟩ := follows_condition he b hts.tail.right hc
  have hrest := hts.tail.right.right.tail
  obtain ⟨ys, rfl, hys⟩ := follows_unless .none (follows_increment he') b' hrest hlast
  obtain ⟨zs, rfl, hzs⟩ := h.block _ hrest.right.tail.tail hbody
  refine ⟨left :: ws ++ semicolon :: xs ++ semicolon' :: ys ++ right :: opening :: zs ++ [closing],
    by simp, ?_⟩
  exact .forLoop hw (fits_text.mp hl) hws hs hxs (fits_text.mp hs') hys (fits_text.mp hr)
    (fits_text.mp ho) hzs (fits_text.mp hcl)

lemma follows_whileLoop (h : StatementsFollow width depth) (he : ExpressionsFollow width depth)
    {word : Token} (hw : word.lexeme = "WHILE") :
    Follows (fun us n => Statement IsIdentifier (word :: us) n)
      (whileLoop width (markOf word) (depth + 1)) := by
  intro ts n rest hts hn
  simp only [whileLoop, yields_bind, yields_take, yields_pure] at hn
  obtain ⟨c, _, hc, opening, _, ⟨rfl, ho⟩, body, us, hbody, closing, _, ⟨rfl, hcl⟩, rfl, rfl⟩ := hn
  obtain ⟨xs, rfl, hxs⟩ := he.expression hts hc
  obtain ⟨ys, rfl, hys⟩ := h.block _ hts.right.tail hbody
  refine ⟨xs ++ opening :: ys ++ [closing], by simp, ?_⟩
  exact .whileLoop hw hxs (fits_text.mp ho) hys (fits_text.mp hcl)

theorem statementsFollow (width : Nat) : ∀ depth, StatementsFollow width depth := by
  intro depth
  induction depth with
  | zero =>
    exact ⟨fun _ => follows_tooDeep, follows_tooDeep, fun _ => follows_tooDeep,
      fun _ => follows_tooDeep, fun _ => follows_tooDeep⟩
  | succ depth ih =>
    have he := expressionsFollow width depth
    have he' := expressionsFollow width (depth - 1)
    exact ⟨fun _ => follows_statementsUntil ih.statement (width + 1), follows_statement ih he he',
      follows_branch ih he, follows_forLoop ih he he', follows_whileLoop ih he⟩

/-! ### Programs -/

lemma follows_field {word : Token} (hw : word.lexeme = "LET") :
    Follows (fun us f => FieldRule IsIdentifier (word :: us) f)
      (field width (markOf word) depth) := by
  intro ts f rest hts hf
  cases depth with
  | zero => exact absurd hf not_yields_tooDeep
  | succ depth =>
    simp only [field, yields_bind, yields_take, yields_pure] at hf
    obtain ⟨b, us, hconst, t, _, ⟨rfl, ht⟩, typeName, ws, hty, value, _, hv, semicolon, _,
      ⟨rfl, hs⟩, rfl, rfl⟩ := hf
    have he := expressionsFollow width depth
    rcases yields_acceptText.mp hconst with ⟨word', rfl, hw', rfl⟩ | ⟨_, rfl, rfl⟩
    · obtain ⟨xs, rfl, hxs⟩ := follows_typePart rfl hts.tail.tail hty
      obtain ⟨ys, rfl, hys⟩ := follows_valuePart he.expression hts.tail.tail.right hv
      refine ⟨word' :: t :: xs ++ ys ++ [semicolon], by simp, ?_⟩
      exact .constant hw hw' (fits_kind.mp ht) hxs hys (fits_text.mp hs)
    · obtain ⟨xs, rfl, hxs⟩ := follows_typePart rfl hts.tail hty
      obtain ⟨ys, rfl, hys⟩ := follows_valuePart he.expression hts.tail.right hv
      refine ⟨t :: xs ++ ys ++ [semicolon], by simp, ?_⟩
      exact .changeable hw (fits_kind.mp ht) hxs hys (fits_text.mp hs)

lemma follows_parameter : Follows (Parameter IsIdentifier) parameter := by
  intro ts p rest hts hp
  simp only [parameter, yields_bind, yields_take, yields_pure] at hp
  obtain ⟨t, _, ⟨rfl, ht⟩, typeName, _, hty, rfl, rfl⟩ := hp
  obtain ⟨xs, rfl, hxs⟩ := follows_typePart rfl hts.tail hty
  exact ⟨t :: xs, rfl, .mk (fits_kind.mp ht) hxs⟩

lemma follows_parameters (b : Bool) :
    Follows (Parameters IsIdentifier)
      (if b = true then pure [] else commaList parameter width) := by
  apply follows_unless .none
  intro ts ps rest hts hps
  have h : Follows (ParameterList IsIdentifier) (commaList parameter width) :=
    follows_commaList .one .more follows_parameter width
  obtain ⟨us, rfl, hus⟩ := h hts hps
  exact ⟨us, rfl, .some hus⟩

lemma follows_method {word : Token} (hw : word.lexeme = "DEF") :
    Follows (fun us m => MethodRule IsIdentifier (word :: us) m)
      (method width (markOf word) depth) := by
  intro ts m rest hts hm
  cases depth with
  | zero => exact absurd hm not_yields_tooDeep
  | succ depth =>
    simp only [method, yields_bind, yields_take, yields_pure, yields_peekText,
      yields_ite_bind] at hm
    obtain ⟨t, _, ⟨rfl, ht⟩, left, _, ⟨rfl, hl⟩, b, _, ⟨rfl, -⟩, ps, us, hps, right, _, ⟨rfl, hr⟩,
      returns, _, hty, opening, _, ⟨rfl, ho⟩, body, _, hbody, closing, _, ⟨rfl, hcl⟩, rfl, rfl⟩ :=
      hm
    obtain ⟨xs, rfl, hxs⟩ := follows_parameters b hts.tail.tail hps
    obtain ⟨ys, rfl, hys⟩ := follows_typePart rfl hts.tail.tail.right.tail hty
    obtain ⟨zs, rfl, hzs⟩ :=
      (statementsFollow width depth).block _ hts.tail.tail.right.tail.right.tail hbody
    refine ⟨t :: left :: xs ++ right :: ys ++ opening :: zs ++ [closing], by simp, ?_⟩
    exact .mk hw (fits_kind.mp ht) (fits_text.mp hl) hxs (fits_text.mp hr) hys (fits_text.mp ho) hzs
      (fits_text.mp hcl)

lemma follows_declarations {α : Type} {rule : List Token → α → Prop} {text : String}
    {item : Mark → Parse α}
    (h : ∀ {word : Token}, word.lexeme = text →
      Follows (fun us a => rule (word :: us) a) (item (markOf word))) :
    ∀ width, Follows (Many rule) (declarations text item width) := by
  intro width
  induction width with
  | zero =>
    intro ts as rest hts has
    obtain ⟨rfl, rfl⟩ := yields_pure.mp has
    exact ⟨[], rfl, .nil⟩
  | succ width ih =>
    intro ts as rest hts has
    simp only [declarations, yields_bind, yields_here] at has
    obtain ⟨mark, _, ⟨rfl, rfl⟩, b, us, hword, has⟩ := has
    rcases yields_acceptText.mp hword with ⟨word, rfl, hw, rfl⟩ | ⟨_, rfl, rfl⟩
    · simp only [if_true, yields_bind, yields_pure] at has
      obtain ⟨a, _, ha, as, _, has, rfl, rfl⟩ := has
      obtain ⟨xs, rfl, hxs⟩ := h hw hts.tail ha
      obtain ⟨ys, rfl, hys⟩ := ih hts.tail.right has
      exact ⟨word :: xs ++ ys, by simp, .cons hxs hys⟩
    · obtain ⟨rfl, rfl⟩ := yields_pure.mp has
      exact ⟨[], rfl, .nil⟩

/-- Tokens that are read as a program are that program by the grammar. -/
theorem source_of_program {ts : List Token} {p : Program} (hts : Shaped ts)
    (hp : Yields (program width depth) ts p []) : Source IsIdentifier ts p := by
  simp only [program, yields_bind, yields_here, yields_get] at hp
  obtain ⟨mark, _, ⟨rfl, rfl⟩, fields, us, hfields, methods, vs, hmethods, _, _, ⟨hget, hvs⟩,
    hp⟩ := hp
  rw [hget, hvs] at hp
  obtain ⟨xs, rfl, hxs⟩ := follows_declarations (fun hw => follows_field hw) width hts hfields
  obtain ⟨ys, rfl, hys⟩ :=
    follows_declarations (fun hw => follows_method hw) width hts.right hmethods
  cases vs with
  | nil =>
    obtain ⟨rfl, -⟩ := yields_pure.mp hp
    simpa using Source.mk hxs hys
  | cons t vs => exact absurd hp not_yields_fail

end LetDef.Parser
