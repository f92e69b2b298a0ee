import LetDef.Proofs.Parser.Completeness
import LetDef.Proofs.Parser.Spelling
import LetDef.Proofs.Token.Reading

/-!
# Every well-formed program is read from some text

A well-formed tree is spelt out part by part: from the texts of the tokens for its parts, the texts
for the whole. Tokens with these texts derive the tree up to marks, and a text that has blanks
between them is scanned to such tokens.
-/

namespace LetDef

open LetDef.Grammar LetDef.Parser

/-! ### Spelling out rules -/

/-- There are words such that all tokens with these words are something like this by the rule. -/
def Spelt {α : Type} (rule : List Token → α → Prop) (like : α → Prop) : Prop :=
  ∃ words : List Word, (∀ w ∈ words, w.Valid) ∧
    ∀ ts : List Token, ts.map Token.word = words → ∃ a, rule ts a ∧ like a

/-- One rule and behind it the other. -/
def Both {α β : Type} (rule : List Token → α → Prop) (rule' : List Token → β → Prop)
    (ts : List Token) (ab : α × β) : Prop :=
  ∃ us vs, ts = us ++ vs ∧ rule us ab.1 ∧ rule' vs ab.2

/-- One token, which has the text. -/
def Exactly (s : String) (ts : List Token) (t : Token) : Prop :=
  ts = [t] ∧ t.lexeme = s

variable {α β : Type} {rule : List Token → α → Prop} {rule' : List Token → β → Prop}
  {like : α → Prop} {like' : β → Prop}

lemma Spelt.map (h : Spelt rule like)
    (himp : ∀ {ts a}, rule ts a → like a → ∃ b, rule' ts b ∧ like' b) : Spelt rule' like' := by
  obtain ⟨words, hvalid, hderive⟩ := h
  refine ⟨words, hvalid, fun ts hts => ?_⟩
  obtain ⟨a, ha, hlike⟩ := hderive ts hts
  exact himp ha hlike

lemma Spelt.both (h : Spelt rule like) (h' : Spelt rule' like') :
    Spelt (Both rule rule') (fun ab => like ab.1 ∧ like' ab.2) := by
  obtain ⟨words, hvalid, hderive⟩ := h
  obtain ⟨words', hvalid', hderive'⟩ := h'
  refine ⟨words ++ words', List.forall_mem_append.mpr ⟨hvalid, hvalid'⟩, fun ts hts => ?_⟩
  obtain ⟨us, vs, rfl, hus, hvs⟩ := List.map_eq_append_iff.mp hts
  obtain ⟨a, ha, hlike⟩ := hderive us hus
  obtain ⟨b, hb, hlike'⟩ := hderive' vs hvs
  exact ⟨(a, b), ⟨us, vs, rfl, ha, hb⟩, hlike, hlike'⟩

/-- A single word is spelt as it is. -/
lemma spelt_word {w : Word} (hw : w.Valid) :
    Spelt (fun ts t => ts = [t] ∧ t.kind = w.1 ∧ t.lexeme = w.2) (fun _ : Token => True) := by
  refine ⟨[w], by simpa using hw, fun ts hts => ?_⟩
  obtain ⟨t, us, rfl, ht, hus⟩ := List.map_eq_cons_iff.mp hts
  obtain rfl := List.map_eq_nil_iff.mp hus
  exact ⟨t, ⟨rfl, congrArg Prod.fst ht, congrArg Prod.snd ht⟩, trivial⟩

lemma spelt_operator {s : String} (hs : s ∈ Token.operators) :
    Spelt (Exactly s) (fun _ => True) := by
  refine (spelt_word (w := (.operator, s)) ⟨.operator hs, by simp⟩).map ?_
  rintro ts t ⟨rfl, -, ht⟩ -
  exact ⟨t, ⟨rfl, ht⟩, trivial⟩

lemma spelt_keyword {s : String} (hs : s ∈ keywords) : Spelt (Exactly s) (fun _ => True) := by
  refine (spelt_word (w := (.identifier, s)) ⟨shape_keyword hs, by simp⟩).map ?_
  rintro ts t ⟨rfl, -, ht⟩ -
  exact ⟨t, ⟨rfl, ht⟩, trivial⟩

/-- A text that may be a name: it has the shape of an identifier and is no keyword. -/
def IsNameText (s : String) : Prop :=
  Token.Shape .identifier s.toList ∧ s ∉ keywords

lemma spelt_name {s : String} (hs : IsNameText s) :
    Spelt (fun ts t => ts = [t] ∧ IsName t ∧ t.lexeme = s) (fun _ => True) := by
  refine (spelt_word (w := (.identifier, s)) ⟨hs.1, by simp⟩).map ?_
  rintro ts t ⟨rfl, hk, rfl⟩ -
  exact ⟨t, ⟨rfl, ⟨hk, hs.2⟩, rfl⟩, trivial⟩

/-- The data that fits into a literal. -/
def IsShortData (v : Value) : Prop :=
  ∀ n, v = .integer n → n.natAbs < Number.digitBound

/-! ### Expressions -/

/-- The same tree up to marks. -/
def Alike (n n' : Node) : Prop := n'.unmarked = n.unmarked

/-- The same trees up to marks, one by one. -/
def AllAlike (ns ns' : List Node) : Prop := Node.unmarked.all ns' = Node.unmarked.all ns

variable {e : Node} {ts : List Token}

lemma exists_tighter {level level' : Level} (h : level.rank < level'.rank) :
    ∃ tighter, level.tighter? = some tighter ∧ tighter.rank = level.rank + 1 := by
  cases level with
  | logical => exact ⟨.comparison, rfl, rfl⟩
  | comparison => exact ⟨.additive, rfl, rfl⟩
  | additive => exact ⟨.multiplicative, rfl, rfl⟩
  | multiplicative => exact absurd h (by cases level' <;> decide)

lemma rank_injective {level level' : Level} (h : level.rank = level'.rank) : level = level' := by
  cases level <;> cases level' <;> first | rfl | cases h

/-- An operation is one of every looser level. -/
lemma operation_lift {level level' : Level} (hrank : level.rank ≤ level'.rank)
    (h : Operation IsName level' ts e) : Operation IsName level ts e := by
  by_cases heq : level.rank = level'.rank
  · rwa [rank_injective heq]
  · obtain ⟨tighter, hn, htighter⟩ := exists_tighter (Nat.lt_of_le_of_ne hrank heq)
    exact .operand (.tighter hn (operation_lift (by omega) h))
termination_by level'.rank - level.rank

/-- An operation of a tighter level is an operand. -/
lemma operand_of_operation {level level' : Level} (hrank : level.rank < level'.rank)
    (h : Operation IsName level' ts e) : Operand IsName level ts e := by
  obtain ⟨tighter, hn, htighter⟩ := exists_tighter hrank
  exact .tighter hn (operation_lift (by omega) h)

/-- What has no binary operator outside is an operand of every level. -/
lemma operand_of_secondary {level : Level} (h : Secondary IsName ts e) :
    Operand IsName level ts e := by
  have hm : Operation IsName .multiplicative ts e := .operand (.secondary rfl h)
  cases level with
  | multiplicative => exact .secondary rfl h
  | additive => exact operand_of_operation (by decide) hm
  | comparison => exact operand_of_operation (by decide) hm
  | logical => exact operand_of_operation (by decide) hm

/-- The tree can be spelt out as what its rank makes it. -/
inductive SpeltTree (e : Node) : Prop
  | secondary (hrank : e.rank = 4) (h : Spelt (Secondary IsName) (Alike e))
  | operation {level : Level} (hrank : e.rank = level.rank)
      (h : Spelt (Operation IsName level) (Alike e))

lemma SpeltTree.operand {level : Level} (h : SpeltTree e) (hrank : level.rank < e.rank) :
    Spelt (Operand IsName level) (Alike e) := by
  cases h with
  | secondary _ h => exact h.map fun h hlike => ⟨_, operand_of_secondary h, hlike⟩
  | operation hlevel h =>
    rw [hlevel] at hrank
    exact h.map fun h hlike => ⟨_, operand_of_operation hrank h, hlike⟩

lemma SpeltTree.operation_of {level : Level} (h : SpeltTree e) (hrank : level.rank ≤ e.rank) :
    Spelt (Operation IsName level) (Alike e) := by
  cases h with
  | secondary _ h => exact h.map fun h hlike => ⟨_, .operand (operand_of_secondary h), hlike⟩
  | operation hlevel h =>
    rw [hlevel] at hrank
    exact h.map fun h hlike => ⟨_, operation_lift hrank h, hlike⟩

lemma SpeltTree.expression (h : SpeltTree e) : Spelt (Expression IsName) (Alike e) :=
  (h.operation_of (Nat.zero_le _)).map fun h hlike => ⟨_, .logical h, hlike⟩

lemma SpeltTree.secondary_of (h : SpeltTree e) (hrank : e.rank = 4) :
    Spelt (Secondary IsName) (Alike e) := by
  cases h with
  | secondary _ h => exact h
  | @operation level hlevel h => exact absurd (hlevel.symm.trans hrank) (rank_lt level).ne

lemma SpeltTree.primary (hrank : e.rank = 4) (h : Spelt (Primary IsName) (Alike e)) :
    SpeltTree e :=
  .secondary hrank (h.map fun h hlike => ⟨_, .primary h, hlike⟩)

lemma spelt_none : Spelt (fun ts (_ : Unit) => ts = []) (fun _ => True) :=
  ⟨[], by simp, fun ts hts => ⟨(), List.map_eq_nil_iff.mp hts, trivial⟩⟩

/-- A list of arguments is spelt with commas. -/
lemma spelt_argumentList {es : List Node} (hne : es ≠ []) (h : ∀ e ∈ es, SpeltTree e) :
    Spelt (ArgumentList IsName) (AllAlike es) := by
  induction es with
  | nil => exact absurd rfl hne
  | cons e es ih =>
    rw [List.forall_mem_cons] at h
    cases es with
    | nil =>
      refine h.1.expression.map fun h hlike => ⟨_, .one h, ?_⟩
      exact congrArg (fun n => [n]) hlike
    | cons e' es =>
      refine (h.1.expression.both ((spelt_operator (s := ",") (by decide)).both
        (ih (by simp) h.2))).map ?_
      rintro _ ⟨x, comma, xs⟩ ⟨us, _, rfl, hx, _, vs, rfl, ⟨rfl, hc⟩, hxs⟩ ⟨hlike, -, hlikes⟩
      refine ⟨x :: xs, .more hx hc hxs, ?_⟩
      rw [AllAlike, Node.unmarked.all, Node.unmarked.all, hlike, hlikes]

lemma spelt_arguments {es : List Node} (h : ∀ e ∈ es, SpeltTree e) :
    Spelt (Arguments IsName) (AllAlike es) := by
  cases es with
  | nil =>
    refine spelt_none.map ?_
    rintro _ - rfl -
    exact ⟨[], .none, rfl⟩
  | cons e es => exact (spelt_argumentList (by simp) h).map fun h hlike => ⟨_, .some h, hlike⟩

/-- Every well-formed expression can be spelt out. -/
theorem speltTree (h : e.IsExpression IsNameText IsShortData) : SpeltTree e := by
  induction h with
  | @literal m v sort h hv =>
    obtain ⟨w, hw, hspells⟩ := exists_word h hv
    refine .primary rfl ((spelt_word hw).map ?_)
    rintro _ t ⟨rfl, hk, ht⟩ -
    exact ⟨_, .literal (hspells t hk ht), rfl⟩
  | @group m e h ih =>
    refine .primary rfl (((spelt_operator (s := "(") (by decide)).both
      (ih.expression.both (spelt_operator (s := ")") (by decide)))).map ?_)
    rintro _ ⟨left, x, right⟩ ⟨_, _, rfl, ⟨rfl, hl⟩, us, _, rfl, hx, rfl, hr⟩ ⟨-, hlike, -⟩
    exact ⟨_, .group hl hx hr, congrArg (Node.group {}) hlike⟩
  -- The operands are in place because the tree is well formed: the left one is of this level or a
  -- tighter one, the right one of a tighter one.
  | @binary m operator left right level ho hl hr hleft hright ihl ihr =>
    have hoperator : operator ∈ Token.operators := by
      revert operator
      cases level <;> decide
    refine .operation (operatorRank_eq _ ho) (((ihl.operation_of hleft).both
      ((spelt_operator hoperator).both (ihr.operand hright))).map ?_)
    rintro _ ⟨x, op, y⟩ ⟨us, _, rfl, hx, _, vs, rfl, ⟨rfl, rfl⟩, hy⟩ ⟨hlike, -, hlike'⟩
    exact ⟨_, .binary hx ho hy, congrArg₂ (Node.binary {} op.lexeme) hlike hlike'⟩
  | @name m s hs =>
    refine .primary rfl ((spelt_name hs).map ?_)
    rintro _ t ⟨rfl, ht, rfl⟩ -
    exact ⟨_, .access ht, rfl⟩
  | @access m e s h he hs ih =>
    refine .secondary rfl (((ih.secondary_of he).both ((spelt_operator (s := ".") (by decide)).both
      (spelt_name hs))).map ?_)
    rintro _ ⟨x, point, t⟩ ⟨us, _, rfl, hx, _, _, rfl, ⟨rfl, hp⟩, rfl, ht, rfl⟩ ⟨hlike, -⟩
    exact ⟨_, .access hx hp ht, congrArg (fun n => Node.access {} n t.lexeme) hlike⟩
  | @call m s es hs hes ih =>
    refine .primary rfl (((spelt_name hs).both ((spelt_operator (s := "(") (by decide)).both
      ((spelt_arguments ih).both (spelt_operator (s := ")") (by decide))))).map ?_)
    rintro _ ⟨t, left, xs, right⟩ ⟨_, _, rfl, ⟨rfl, ht, rfl⟩, _, _, rfl, ⟨rfl, hl⟩, us, _, rfl, hxs,
      rfl, hr⟩ ⟨-, -, hlike, -⟩
    exact ⟨_, .call ht hl hxs hr, congrArg (Node.call {} .absent t.lexeme) hlike⟩
  | @invoke m e s es h he hs hes ih ihs =>
    refine .secondary rfl (((ih.secondary_of he).both ((spelt_operator (s := ".") (by decide)).both
      ((spelt_name hs).both ((spelt_operator (s := "(") (by decide)).both
        ((spelt_arguments ihs).both (spelt_operator (s := ")") (by decide))))))).map ?_)
    rintro _ ⟨x, point, t, left, xs, right⟩ ⟨us, _, rfl, hx, _, _, rfl, ⟨rfl, hp⟩, _, _, rfl,
      ⟨rfl, ht, rfl⟩, _, _, rfl, ⟨rfl, hl⟩, vs, _, rfl, hxs, rfl, hr⟩ ⟨hlike, -, -, -, hlikes, -⟩
    have hcall := Secondary.call hx hp ht hl hxs hr
    refine ⟨_, by simpa using hcall, ?_⟩
    exact congrArg₂ (fun n ns => Node.call {} n t.lexeme ns) hlike hlikes

/-! ### Statements -/

lemma spelt_typePart {o : Option String} (h : ∀ s ∈ o, IsNameText s) :
    Spelt (TypePart IsName) (fun o' => o' = o) := by
  cases o with
  | none =>
    refine spelt_none.map ?_
    rintro _ - rfl -
    exact ⟨none, .none, rfl⟩
  | some s =>
    refine ((spelt_operator (s := ":") (by decide)).both (spelt_name (h s rfl))).map ?_
    rintro _ ⟨colon, t⟩ ⟨_, _, rfl, ⟨rfl, hc⟩, rfl, ht, rfl⟩ -
    exact ⟨_, .some hc ht, rfl⟩

lemma spelt_valuePart {v : Node} (h : v.IsOptional IsNameText IsShortData) :
    Spelt (ValuePart IsName) (Alike v) := by
  rcases h with rfl | h
  · refine spelt_none.map ?_
    rintro _ - rfl -
    exact ⟨.absent, .none, rfl⟩
  · refine ((spelt_operator (s := "=") (by decide)).both (speltTree h).expression).map ?_
    rintro _ ⟨equals, x⟩ ⟨_, _, rfl, ⟨rfl, he⟩, hx⟩ ⟨-, hlike⟩
    exact ⟨x, .some he hx, hlike⟩

lemma spelt_declaration {n : Node} (h : n.IsDeclaration IsNameText IsShortData) :
    Spelt (Declaration IsName) (Alike n) := by
  cases h with
  | @mk m s typeName value hs ht hv =>
    refine ((spelt_keyword (s := "LET") (by decide)).both ((spelt_name hs).both
      ((spelt_typePart ht).both (spelt_valuePart hv)))).map ?_
    rintro _ ⟨word, t, o, x⟩
      ⟨_, _, rfl, ⟨rfl, hw⟩, _, _, rfl, ⟨rfl, hn, rfl⟩, us, vs, rfl, hus, hvs⟩
      ⟨-, -, rfl, hlike⟩
    have hdeclaration := Declaration.mk hw hn hus hvs
    refine ⟨_, by simpa using hdeclaration, ?_⟩
    exact congrArg (Node.declare {} t.lexeme o) hlike

lemma spelt_assignment {receiver value : Node}
    (hr : receiver.IsExpression IsNameText IsShortData)
    (hv : value.IsExpression IsNameText IsShortData) :
    Spelt (fun ts (xy : Node × Node) => Assignment IsName ts xy.1 xy.2)
      (fun xy => Alike receiver xy.1 ∧ Alike value xy.2) := by
  refine ((speltTree hr).expression.both ((spelt_operator (s := "=") (by decide)).both
    (speltTree hv).expression)).map ?_
  rintro _ ⟨x, equals, y⟩ ⟨us, _, rfl, hx, _, vs, rfl, ⟨rfl, he⟩, hy⟩ ⟨hlike, -, hlike'⟩
  exact ⟨(x, y), .mk hx he hy, hlike, hlike'⟩

lemma spelt_initializer {n : Node}
    (h : n = .absent ∨ n.IsDeclaration IsNameText IsShortData ∨
      n.IsAssignment IsNameText IsShortData) : Spelt (Initializer IsName) (Alike n) := by
  rcases h with rfl | h | h
  · refine spelt_none.map ?_
    rintro _ - rfl -
    exact ⟨.absent, .none, rfl⟩
  · exact (spelt_declaration h).map fun h hlike => ⟨_, .declaration h, hlike⟩
  · cases h with
    | mk hr hv =>
      exact (spelt_assignment hr hv).map fun h hlike =>
        ⟨_, .assignment h, congrArg₂ (Node.assign {}) hlike.1 hlike.2⟩

lemma spelt_condition {n : Node} (h : n.IsOptional IsNameText IsShortData) :
    Spelt (Condition IsName) (Alike n) := by
  rcases h with rfl | h
  · refine spelt_none.map ?_
    rintro _ - rfl -
    exact ⟨.absent, .none, rfl⟩
  · exact (speltTree h).expression.map fun h hlike => ⟨_, .some h, hlike⟩

/-- Marks do not matter to what may be incremented. -/
lemma isIncrementTarget_of_alike {n n' : Node} (h : Alike n n') :
    isIncrementTarget n' = isIncrementTarget n := by
  have hunmarked : ∀ n : Node, isIncrementTarget n.unmarked = isIncrementTarget n := by
    intro n
    cases n <;> rfl
  rw [← hunmarked n', h, hunmarked]

lemma spelt_increment {n : Node} (h : n.IsIncrement IsNameText IsShortData) :
    Spelt (Increment IsName) (Alike n) := by
  cases h with
  | none =>
    refine spelt_none.map ?_
    rintro _ - rfl -
    exact ⟨.absent, .none, rfl⟩
  | some hr ht hv =>
    refine (spelt_assignment hr hv).map fun h hlike => ⟨_, .some h ?_, ?_⟩
    · rw [isIncrementTarget_of_alike hlike.1, ht]
    · exact congrArg₂ (Node.assign {}) hlike.1 hlike.2

lemma spelt_statements {ns : List Node} (h : ∀ n ∈ ns, Spelt (Statement IsName) (Alike n)) :
    Spelt (Statements IsName) (AllAlike ns) := by
  induction ns with
  | nil =>
    refine spelt_none.map ?_
    rintro _ - rfl -
    exact ⟨[], .nil, rfl⟩
  | cons n ns ih =>
    rw [List.forall_mem_cons] at h
    refine (h.1.both (ih h.2)).map ?_
    rintro _ ⟨x, xs⟩ ⟨us, vs, rfl, hx, hxs⟩ ⟨hlike, hlikes⟩
    exact ⟨x :: xs, .cons hx hxs, congrArg₂ List.cons hlike hlikes⟩

/-- Every well-formed statement can be spelt out. -/
theorem spelt_statement {n : Node} (h : n.IsStatement IsNameText IsShortData) :
    Spelt (Statement IsName) (Alike n) := by
  induction h with
  | declaration h =>
    refine ((spelt_declaration h).both (spelt_operator (s := ";") (by decide))).map ?_
    rintro _ ⟨x, semicolon⟩ ⟨us, _, rfl, hx, rfl, hs⟩ ⟨hlike, -⟩
    exact ⟨x, .declaration hx hs, hlike⟩
  | assignment h =>
    cases h with
    | mk hr hv =>
      refine ((spelt_assignment hr hv).both (spelt_operator (s := ";") (by decide))).map ?_
      rintro _ ⟨⟨x, y⟩, semicolon⟩ ⟨us, _, rfl, hxy, rfl, hs⟩ ⟨hlike, -⟩
      exact ⟨_, .assignment hxy hs, congrArg₂ (Node.assign {}) hlike.1 hlike.2⟩
  | perform h =>
    refine ((speltTree h).expression.both (spelt_operator (s := ";") (by decide))).map ?_
    rintro _ ⟨x, semicolon⟩ ⟨us, _, rfl, hx, rfl, hs⟩ ⟨hlike, -⟩
    exact ⟨_, .perform hx hs, congrArg (Node.perform {}) hlike⟩
  -- The parts of a statement are spelt one behind the other. An ELSE is always spelt, since no body
  -- is the same as an empty one.
  | @branch m c body other hc hb ho ihb iho =>
    refine ((spelt_keyword (s := "IF") (by decide)).both ((speltTree hc).expression.both
      ((spelt_keyword (s := "DO") (by decide)).both ((spelt_statements ihb).both
        ((spelt_keyword (s := "ELSE") (by decide)).both ((spelt_statements iho).both
          (spelt_keyword (s := "END") (by decide)))))))).map ?_
    rintro _ ⟨word, x, opening, xs, middle, ys, closing⟩ ⟨_, _, rfl, ⟨rfl, hw⟩, us, _, rfl, hx,
      _, _, rfl, ⟨rfl, ho⟩, vs, _, rfl, hxs, _, _, rfl, ⟨rfl, hm⟩, ws, _, rfl, hys, rfl, he⟩
      ⟨-, hlike, -, hlikes, -, hlikes', -⟩
    have hbranch := Statement.branchElse hw hx ho hxs hm hys he
    refine ⟨_, by simpa using hbranch, ?_⟩
    simp only [Alike, Node.unmarked]
    rw [hlike, hlikes, hlikes']
  | @forLoop m first c last body hi hc hn hb ihb =>
    refine ((spelt_keyword (s := "FOR") (by decide)).both
      ((spelt_operator (s := "(") (by decide)).both ((spelt_initializer hi).both
        ((spelt_operator (s := ";") (by decide)).both ((spelt_condition hc).both
          ((spelt_operator (s := ";") (by decide)).both ((spelt_increment hn).both
            ((spelt_operator (s := ")") (by decide)).both
            ((spelt_keyword (s := "DO") (by decide)).both
              ((spelt_statements ihb).both (spelt_keyword (s := "END") (by decide)))))))))))).map ?_
    rintro _ ⟨word, left, x, semicolon, y, semicolon', z, right, opening, xs, closing⟩
      ⟨_, _, rfl, ⟨rfl, hw⟩, _, _, rfl, ⟨rfl, hl⟩, ts, _, rfl, hx, _, _, rfl, ⟨rfl, hs⟩, us, _, rfl,
        hy, _, _, rfl, ⟨rfl, hs'⟩, vs, _, rfl, hz, _, _, rfl, ⟨rfl, hr⟩, _, _, rfl, ⟨rfl, ho⟩, ws,
        _, rfl, hxs, rfl, he⟩ ⟨-, -, hlike₁, -, hlike₂, -, hlike₃, -, -, hlikes, -⟩
    have hloop := Statement.forLoop hw hl hx hs hy hs' hz hr ho hxs he
    refine ⟨_, by simpa using hloop, ?_⟩
    simp only [Alike, Node.unmarked]
    rw [hlike₁, hlike₂, hlike₃, hlikes]
  | @whileLoop m c body hc hb ihb =>
    refine ((spelt_keyword (s := "WHILE") (by decide)).both ((speltTree hc).expression.both
      ((spelt_keyword (s := "DO") (by decide)).both ((spelt_statements ihb).both
        (spelt_keyword (s := "END") (by decide)))))).map ?_
    rintro _ ⟨word, x, opening, xs, closing⟩ ⟨_, _, rfl, ⟨rfl, hw⟩, us, _, rfl, hx, _, _, rfl,
      ⟨rfl, ho⟩, vs, _, rfl, hxs, rfl, he⟩ ⟨-, hlike, -, hlikes, -⟩
    have hloop := Statement.whileLoop hw hx ho hxs he
    refine ⟨_, by simpa using hloop, ?_⟩
    exact congrArg₂ (Node.whileLoop {}) hlike hlikes
  | giveBack h =>
    refine ((spelt_keyword (s := "RETURN") (by decide)).both ((speltTree h).expression.both
      (spelt_operator (s := ";") (by decide)))).map ?_
    rintro _ ⟨word, x, semicolon⟩ ⟨_, _, rfl, ⟨rfl, hw⟩, us, _, rfl, hx, rfl, hs⟩ ⟨-, hlike, -⟩
    exact ⟨_, .giveBack hw hx hs, congrArg (Node.giveBack {}) hlike⟩

/-! ### Programs -/

lemma spelt_field {f : Field} (h : f.WellFormed IsNameText IsShortData) :
    Spelt (FieldRule IsName) (fun f' => Alike f.toNode f'.toNode) := by
  obtain ⟨m, s, typeName, constant, value⟩ := f
  cases constant with
  | false =>
    refine ((spelt_keyword (s := "LET") (by decide)).both ((spelt_name h.name).both
      ((spelt_typePart h.typeName).both ((spelt_valuePart h.value).both
        (spelt_operator (s := ";") (by decide)))))).map ?_
    rintro _ ⟨word, t, o, x, semicolon⟩ ⟨_, _, rfl, ⟨rfl, hw⟩, _, _, rfl, ⟨rfl, hn, hname⟩, us, _,
      rfl, hus, vs, _, rfl, hvs, rfl, hs⟩ ⟨-, -, hty, hlike, -⟩
    have hfield := FieldRule.changeable hw hn hus hvs hs
    refine ⟨_, by simpa using hfield, ?_⟩
    simp only [Alike, Field.toNode, Node.unmarked] at hname hty ⊢
    rw [hname, hty, hlike]
  | true =>
    refine ((spelt_keyword (s := "LET") (by decide)).both
      ((spelt_keyword (s := "CONST") (by decide)).both
      ((spelt_name h.name).both ((spelt_typePart h.typeName).both ((spelt_valuePart h.value).both
        (spelt_operator (s := ";") (by decide))))))).map ?_
    rintro _ ⟨word, word', t, o, x, semicolon⟩ ⟨_, _, rfl, ⟨rfl, hw⟩, _, _, rfl, ⟨rfl, hw'⟩, _, _,
      rfl, ⟨rfl, hn, hname⟩, us, _, rfl, hus, vs, _, rfl, hvs, rfl, hs⟩ ⟨-, -, -, hty, hlike, -⟩
    have hfield := FieldRule.constant hw hw' hn hus hvs hs
    refine ⟨_, by simpa using hfield, ?_⟩
    simp only [Alike, Field.toNode, Node.unmarked] at hname hty ⊢
    rw [hname, hty, hlike]

lemma spelt_parameter {s s' : String} (hs : IsNameText s) (hs' : IsNameText s') :
    Spelt (Parameter IsName) (fun p => p = (s, s')) := by
  have hty : ∀ r ∈ some s', IsNameText r := by simpa using hs'
  refine ((spelt_name hs).both (spelt_typePart hty)).map ?_
  rintro _ ⟨t, o⟩ ⟨_, us, rfl, ⟨rfl, hn, rfl⟩, hus⟩ ⟨-, rfl⟩
  exact ⟨_, .mk hn hus, rfl⟩

lemma spelt_parameters {ss ss' : List String} (hs : ∀ s ∈ ss, IsNameText s)
    (hs' : ∀ s ∈ ss', IsNameText s) (hlength : ss'.length = ss.length) :
    Spelt (Parameters IsName) (fun ps => ps.map (·.1) = ss ∧ ps.map (·.2) = ss') := by
  have hlist : ∀ {ss ss' : List String}, ss ≠ [] → (∀ s ∈ ss, IsNameText s) →
      (∀ s ∈ ss', IsNameText s) → ss'.length = ss.length →
      Spelt (ParameterList IsName) (fun ps => ps.map (·.1) = ss ∧ ps.map (·.2) = ss') := by
    intro ss
    induction ss with
    | nil => exact fun h => absurd rfl h
    | cons s ss ih =>
      intro ss' _ hs hs' hlength
      obtain ⟨s', ss', rfl⟩ := List.exists_cons_of_length_eq_add_one hlength
      rw [List.forall_mem_cons] at hs hs'
      have hone := spelt_parameter hs.1 hs'.1
      cases ss with
      | nil =>
        obtain rfl : ss' = [] := by simpa using hlength
        refine hone.map ?_
        rintro ts p hp rfl
        exact ⟨[(s, s')], .one hp, rfl, rfl⟩
      | cons r ss =>
        refine (hone.both ((spelt_operator (s := ",") (by decide)).both
          (ih (by simp) hs.2 hs'.2 (by simpa using hlength)))).map ?_
        rintro _ ⟨p, comma, ps⟩ ⟨us, _, rfl, hp, _, vs, rfl, ⟨rfl, hc⟩, hps⟩ ⟨rfl, -, hfst, hsnd⟩
        exact ⟨(s, s') :: ps, .more hp hc hps, congrArg (List.cons s) hfst,
          congrArg (List.cons s') hsnd⟩
  cases ss with
  | nil =>
    obtain rfl : ss' = [] := by simpa using hlength
    refine spelt_none.map ?_
    rintro _ - rfl -
    exact ⟨[], .none, rfl, rfl⟩
  | cons s ss => exact (hlist (by simp) hs hs' hlength).map fun h hlike => ⟨_, .some h, hlike⟩

lemma spelt_method {m : Method} (h : m.WellFormed IsNameText IsShortData) :
    Spelt (MethodRule IsName) (fun m' => Alike m.toNode m'.toNode) := by
  refine ((spelt_keyword (s := "DEF") (by decide)).both ((spelt_name h.name).both
    ((spelt_operator (s := "(") (by decide)).both
      ((spelt_parameters h.parameters h.parameterTypes h.types_length).both
        ((spelt_operator (s := ")") (by decide)).both ((spelt_typePart h.returnType).both
          ((spelt_keyword (s := "DO") (by decide)).both
            ((spelt_statements fun n hn => spelt_statement (h.body n hn)).both
              (spelt_keyword (s := "END") (by decide)))))))))).map ?_
  rintro _ ⟨word, t, left, ps, right, o, opening, xs, closing⟩ ⟨_, _, rfl, ⟨rfl, hw⟩, _, _, rfl,
    ⟨rfl, hn, hname⟩, _, _, rfl, ⟨rfl, hl⟩, us, _, rfl, hps, _, _, rfl, ⟨rfl, hr⟩, vs, _, rfl, hty,
    _, _, rfl, ⟨rfl, ho⟩, ws, _, rfl, hxs, rfl, he⟩
    ⟨-, -, -, ⟨hfst, hsnd⟩, -, hreturns, -, hlikes, -⟩
  have hmethod := MethodRule.mk hw hn hl hps hr hty ho hxs he
  refine ⟨_, by simpa using hmethod, ?_⟩
  simp only [Alike, Method.toNode, Node.unmarked] at hname hfst hsnd hreturns ⊢
  rw [hname, hfst, hsnd, hreturns, hlikes]

lemma spelt_many {tree : α → Node} {as : List α}
    (h : ∀ a ∈ as, Spelt rule (fun a' => Alike (tree a) (tree a'))) :
    Spelt (Many rule) (fun as' => AllAlike (as.map tree) (as'.map tree)) := by
  induction as with
  | nil =>
    refine spelt_none.map ?_
    rintro _ - rfl -
    exact ⟨[], .nil, rfl⟩
  | cons a as ih =>
    rw [List.forall_mem_cons] at h
    refine (h.1.both (ih h.2)).map ?_
    rintro _ ⟨x, xs⟩ ⟨us, vs, rfl, hx, hxs⟩ ⟨hlike, hlikes⟩
    exact ⟨x :: xs, .cons hx hxs, congrArg₂ List.cons hlike hlikes⟩

/-- Every well-formed program can be spelt out. -/
theorem spelt_program {p : Program} (h : p.WellFormed IsNameText IsShortData) :
    Spelt (Source IsName) (fun q => q.unmarked = p.unmarked) := by
  refine ((spelt_many fun f hf => spelt_field (h.fields f hf)).both
    (spelt_many fun m hm => spelt_method (h.methods m hm))).map ?_
  rintro _ ⟨fields, methods⟩ ⟨us, vs, rfl, hfields, hmethods⟩ ⟨hlike, hlike'⟩
  exact ⟨_, .mk hfields hmethods, congrArg₂ (Node.program {}) hlike hlike'⟩

/-- Every well-formed program is read from some text, up to marks. -/
theorem Program.reachable {p : Program} (h : p.WellFormed IsNameText IsShortData) (file : String) :
    ∃ source tokens q, Token.scan file source = .ok tokens ∧ Readable tokens ∧
      Source IsName tokens q ∧ q.unmarked = p.unmarked := by
  obtain ⟨words, hvalid, hderive⟩ := spelt_program h
  have hshape : ∀ w ∈ words.map (fun w : Word => (w.1, w.2.toList)), Token.Shape w.1 w.2 := by
    intro w hw
    obtain ⟨w, hmem, rfl⟩ := List.mem_map.mp hw
    exact (hvalid w hmem).shape
  obtain ⟨tokens, hscan, hwords⟩ := Token.scanFrom_spaced hshape (.start file)
  have htokens : tokens.map Token.word = words := by
    have hinj : Function.Injective (fun w : Word => (w.1, w.2.toList)) := by
      rintro ⟨k, s⟩ ⟨k', s'⟩ heq
      simp only [Prod.mk.injEq, String.toList_inj] at heq
      rw [heq.1, heq.2]
    refine hinj.list_map ?_
    rw [List.map_map]
    exact hwords
  obtain ⟨q, hq, hlike⟩ := hderive tokens htokens
  refine ⟨String.ofList (Token.spaced (words.map fun w => (w.1, w.2.toList))), tokens, q, ?_, ?_,
    hq, hlike⟩
  · rw [Token.scan, String.toList_ofList]
    exact hscan
  · intro t ht
    have hmem : t.word ∈ words := htokens ▸ List.mem_map_of_mem ht
    exact ⟨(hvalid _ hmem).shape, (hvalid _ hmem).short⟩

/-- The parser implements the grammar. What it reads from scanned tokens, at whatever depth, is what
the grammar derives. What the grammar derives without keywords for names is read at any depth that
the tokens may need, so it is derived only once. Every well-formed program is read from some
text. -/
theorem Program.ofTokens_implements_grammar :
    (∀ (file source : String) (tokens : List Token), Token.scan file source = .ok tokens →
      (∀ depth p, ofTokens depth tokens = .ok p → Source IsIdentifier tokens p) ∧
      ((∀ t ∈ tokens, IsShort t) → ∀ p, Source IsName tokens p →
        (∀ depth, 12 * tokens.length ≤ depth → ofTokens depth tokens = .ok p) ∧
        ∀ q, Source IsName tokens q → q = p)) ∧
    ∀ p : Program, p.WellFormed IsNameText IsShortData → ∀ file, ∃ source tokens q,
      Token.scan file source = .ok tokens ∧ (∀ t ∈ tokens, IsShort t) ∧ Source IsName tokens q ∧
      (∀ depth, 12 * tokens.length ≤ depth → ofTokens depth tokens = .ok q) ∧
      q.unmarked = p.unmarked := by
  refine ⟨fun file source tokens hscan => ⟨fun depth p h => ?_, fun hshort p hp => ⟨?_, ?_⟩⟩, ?_⟩
  · exact source_of_ofTokens (Token.scan_shape hscan) h
  · intro depth hdepth
    exact ofTokens_of_source hp (fun t ht => ⟨Token.scan_shape hscan t ht, hshort t ht⟩) hdepth
  · intro q hq
    exact source_unique (fun t ht => ⟨Token.scan_shape hscan t ht, hshort t ht⟩) hq hp
  · intro p hp file
    obtain ⟨source, tokens, q, hscan, hreadable, hq, hlike⟩ := reachable hp file
    exact ⟨source, tokens, q, hscan, fun t ht => (hreadable t ht).2, hq,
      fun depth hdepth => ofTokens_of_source hq hreadable hdepth, hlike⟩

/-- Both directions and uniqueness for a field whose value is a sum. -/
theorem Program.ofTokens_implements_grammar_sum :
    let value : Node :=
      .binary {} "+" (.access {} .absent "y") (.literal {} (.value (.text "s")) "string")
    let p : Program := ⟨{}, [⟨{}, "x", some "String", true, value⟩], []⟩
    ∃ source tokens q, Token.scan "a" source = .ok tokens ∧
      ofTokens (12 * tokens.length) tokens = .ok q ∧ Source IsIdentifier tokens q ∧
      (∀ r, Source IsName tokens r → r = q) ∧ q.unmarked = p.unmarked := by
  intro value p
  have hname : ∀ s ∈ ["x", "y", "String"], IsNameText s := by
    intro s hs
    simp only [List.mem_cons, List.not_mem_nil, or_false] at hs
    rcases hs with rfl | rfl | rfl <;>
      exact ⟨.identifier (by decide) (List.all_eq_true.1 (by decide)), by decide⟩
  have hvalue : value.IsExpression IsNameText IsShortData := by
    have htext : IsShortData (.text "s") := by
      rintro n ⟨⟩
    have hplus : "+" ∈ Level.additive.operators := by decide
    exact .binary hplus (.name (hname _ (by simp))) (.literal (.string "s") htext) (by decide)
      (by decide)
  have hfield : (⟨{}, "x", some "String", true, value⟩ : Field).WellFormed IsNameText IsShortData :=
    ⟨hname _ (by simp), fun t ht => hname t (by simp_all), .inr hvalue⟩
  have hp : p.WellFormed IsNameText IsShortData := ⟨by simpa [p] using hfield, by simp [p]⟩
  obtain ⟨source, tokens, q, hscan, hshort, hq, hread, hlike⟩ :=
    ofTokens_implements_grammar.2 p hp "a"
  obtain ⟨hsound, hcomplete⟩ := ofTokens_implements_grammar.1 _ _ _ hscan
  exact ⟨source, tokens, q, hscan, hread _ le_rfl, hsound _ q (hread _ le_rfl),
    (hcomplete hshort q hq).2, hlike⟩

end LetDef
