import LetDef.Proofs.Parser.Literal

/-!
# Parsers look one token ahead

What a parser does depends on the tokens that it takes and on the one behind them, and on nothing
else. So a parser that stops at a token stops there whatever follows, and if the tokens end just
before that token, the parser either is done with them or misses a token at their end. Each way to
build a parser has a rule here, and the parsers of the grammar follow by induction on the depth to
which their rules may be nested.
-/

namespace LetDef.Parser

variable {α β : Type}

/-- What makes a parser stop at a token: the token does not fit, or is a literal without a value. -/
inductive StopsAt (t : Token) : Halt → Prop
  | unexpected (slot : Slot) : StopsAt t (.fault (.unexpected slot t))
  | literal {p : Parse Node} {e : Halt} (hp : literalOfKind? t = some p)
      (he : ∀ ts, p.run ts = .error e) : StopsAt t e

/-- How a parser ends that does not stop at a token before the tokens end: all are taken, one is
missing behind them, or the rules are nested too deeply. -/
inductive RunsOut : Except Halt (α × List Token) → Prop
  | taken (a : α) : RunsOut (.ok (a, []))
  | missing (slot : Slot) : RunsOut (.error (.fault (.ended slot)))
  | tooDeep : RunsOut (.error .tooDeep)

/-- What the parser does is settled by the tokens that it takes and the one behind them. -/
structure Predictive (p : Parse α) : Prop where
  empty : RunsOut (p.run [])
  yields : ∀ {ts a rest}, p.run ts = .ok (a, rest) → ∃ used, ts = used ++ rest ∧
    RunsOut (p.run used) ∧
    ∀ rest', rest'.head? = rest.head? → p.run (used ++ rest') = .ok (a, rest')
  halts : ∀ {ts e}, p.run ts = .error e → RunsOut (.error e : Except Halt (α × List Token)) ∨
    ∃ used t rest, ts = used ++ t :: rest ∧ StopsAt t e ∧ RunsOut (p.run used) ∧
      ∀ rest', p.run (used ++ t :: rest') = .error e

/-- A parser that stops at a token stops there whatever follows. -/
lemma Predictive.run_append_eq_error {p : Parse α} {ts : List Token} {e : Halt} (h : Predictive p)
    (hrun : p.run ts = .error e) (hstop : ¬ RunsOut (.error e : Except Halt (α × List Token)))
    (rest : List Token) : p.run (ts ++ rest) = .error e := by
  obtain hout | ⟨used, t, behind, rfl, -, -, hany⟩ := h.halts hrun
  · exact absurd hout hstop
  · rw [List.append_assoc, List.cons_append]
    exact hany (behind ++ rest)

/-! ### Building parsers -/

section

variable {p p' : Parse α} {k : α → Parse β} {ts us : List Token} {t : Token} {e : Halt}

lemma RunsOut.error (h : RunsOut (.error e : Except Halt (α × List Token))) :
    RunsOut (.error e : Except Halt (β × List Token)) := by
  cases h with
  | missing slot => exact .missing slot
  | tooDeep => exact .tooDeep

lemma predictive_pure (a : α) : Predictive (pure a) where
  empty := .taken a
  yields := by
    rintro ts a rest ⟨⟩
    exact ⟨[], rfl, .taken a, fun rest' _ => rfl⟩
  halts := nofun

lemma predictive_tooDeep : Predictive (tooDeep : Parse α) where
  empty := .tooDeep
  yields := nofun
  halts := by
    rintro ts e ⟨⟩
    exact .inl .tooDeep

/-- Where the first parser runs out of tokens, the two in a row do. -/
lemma RunsOut.bind (hk : ∀ a, Predictive (k a)) (h : RunsOut (p.run ts)) :
    RunsOut ((p >>= k).run ts) := by
  generalize hrun : p.run ts = r at h
  cases h with
  | taken a =>
    rw [run_bind_ok hrun]
    exact (hk a).empty
  | missing slot =>
    rw [run_bind_error hrun]
    exact .missing slot
  | tooDeep =>
    rw [run_bind_error hrun]
    exact .tooDeep

lemma Predictive.bind (h : Predictive p) (hk : ∀ a, Predictive (k a)) : Predictive (p >>= k) := by
  -- The tokens that both take run out in the second parser, or in the first if that takes them all.
  have hout : ∀ {used used' rest : List Token} {a : α}, RunsOut (p.run used) →
      (∀ rest', rest'.head? = (used' ++ rest).head? → p.run (used ++ rest') = .ok (a, rest')) →
      RunsOut ((k a).run used') → RunsOut ((p >>= k).run (used ++ used')) := by
    intro used used' rest a hp hsame hrest
    cases used' with
    | nil =>
      rw [List.append_nil]
      exact hp.bind hk
    | cons u us =>
      rw [run_bind_ok (hsame (u :: us) rfl)]
      exact hrest
  refine ⟨h.empty.bind hk, ?_, ?_⟩
  · -- Both parsers end: what they take is what the first takes and then the second, and the first
    -- sees the same next token either way.
    intro ts b rest hrun
    cases hp : p.run ts with
    | error e =>
      rw [run_bind_error hp] at hrun
      cases hrun
    | ok r =>
      obtain ⟨a, us⟩ := r
      rw [run_bind_ok hp] at hrun
      obtain ⟨used, rfl, hended, hsame⟩ := h.yields hp
      obtain ⟨used', rfl, hended', hsame'⟩ := (hk a).yields hrun
      refine ⟨used ++ used', (List.append_assoc ..).symm, hout hended hsame hended', ?_⟩
      intro rest' hhead
      rw [List.append_assoc, run_bind_ok (hsame (used' ++ rest') _)]
      · exact hsame' rest' hhead
      · rw [List.head?_append, List.head?_append, hhead]
  · intro ts e hrun
    cases hp : p.run ts with
    | error e' =>
      rw [run_bind_error hp] at hrun
      cases hrun
      rcases h.halts hp with hend | ⟨used, t, rest, rfl, hstop, hended, hsame⟩
      · exact .inl hend.error
      · exact .inr ⟨used, t, rest, rfl, hstop, hended.bind hk,
          fun rest' => run_bind_error (hsame rest')⟩
    | ok r =>
      obtain ⟨a, us⟩ := r
      rw [run_bind_ok hp] at hrun
      obtain ⟨used, rfl, hended, hsame⟩ := h.yields hp
      rcases (hk a).halts hrun with hend | ⟨used', t, rest, rfl, hstop, hended', hsame'⟩
      · exact .inl hend
      · refine .inr ⟨used ++ used', t, rest, (List.append_assoc ..).symm, hstop,
          hout hended hsame hended', fun rest' => ?_⟩
        rw [List.append_assoc, run_bind_ok (hsame (used' ++ t :: rest') _)]
        · exact hsame' rest'
        · rw [List.head?_append, List.head?_append]
          rfl

lemma Predictive.ite {c : Prop} [Decidable c] (h : Predictive p) (h' : Predictive p') :
    Predictive (if c then p else p') := by
  split
  · exact h
  · exact h'

/-- One of two parsers, and what follows either. -/
lemma Predictive.iteBind {c : Prop} [Decidable c] (h : Predictive p) (h' : Predictive p')
    (hk : ∀ a, Predictive (k a)) : Predictive (if c then p >>= k else p' >>= k) :=
  (h.bind hk).ite (h'.bind hk)

/-- A parser that is used under a condition, and what follows either way. -/
lemma Predictive.whenBind {c : Prop} [Decidable c] {q : Parse β} (h : Predictive p)
    (hq : Predictive q) : Predictive (if c then p >>= fun _ => q else q) :=
  (h.bind fun _ => hq).ite hq

/-- How a parser goes on that has looked at the next token: it takes the token, leaves it to another
parser, or stops there. -/
inductive Decides (t : Token) (k : List Token → Parse α) : Prop
  | takes {q : Parse α} (hq : Predictive q) (h : ∀ rest, (k rest).run (t :: rest) = q.run rest)
  | leaves {q : Parse α} (hq : Predictive q)
      (h : ∀ rest, (k rest).run (t :: rest) = q.run (t :: rest))
  | stops {e : Halt} (he : StopsAt t e) (h : ∀ rest, (k rest).run (t :: rest) = .error e)

lemma decides_set {q : Parse α} (hq : Predictive q) :
    Decides t fun rest => set rest >>= fun _ => q :=
  .takes hq fun _ => rfl

lemma Predictive.decides {q : Parse α} (hq : Predictive q) : Decides t fun _ => q :=
  .leaves hq fun _ => rfl

lemma Decides.ite {c : Prop} [Decidable c] {k k' : List Token → Parse α} (h : Decides t k)
    (h' : Decides t k') : Decides t fun rest => if c then k rest else k' rest := by
  by_cases hc : c
  · simpa only [if_pos hc] using h
  · simpa only [if_neg hc] using h'

/-- A parser that stops at the next token, or takes it, or leaves it to another parser, yields what
depends on the tokens that it takes and the next one. -/
lemma Decides.yields {k : List Token → Parse α} (h : Decides t k) {ts rest : List Token} {a : α}
    (hrun : (k ts).run (t :: ts) = .ok (a, rest)) :
    rest = t :: ts ∧ (∀ us, (k us).run (t :: us) = .ok (a, t :: us)) ∨
    ∃ used, ts = used ++ rest ∧ RunsOut ((k used).run (t :: used)) ∧
      ∀ rest', rest'.head? = rest.head? →
        (k (used ++ rest')).run (t :: (used ++ rest')) = .ok (a, rest') := by
  cases h with
  | takes hq h =>
    rw [h] at hrun
    obtain ⟨used, rfl, hended, hsame⟩ := hq.yields hrun
    exact .inr ⟨used, rfl, by rwa [h], fun rest' hhead => by rw [h, hsame rest' hhead]⟩
  | leaves hq h =>
    rw [h] at hrun
    obtain ⟨used, hts, hended, hsame⟩ := hq.yields hrun
    cases used with
    | nil =>
      obtain rfl : t :: ts = rest := hts
      exact .inl ⟨rfl, fun us => by rw [h]; exact hsame (t :: us) rfl⟩
    | cons u used =>
      obtain ⟨rfl, rfl⟩ := List.cons_eq_cons.mp hts
      exact .inr ⟨used, rfl, by rwa [h], fun rest' hhead => by rw [h]; exact hsame rest' hhead⟩
  | stops he h =>
    rw [h] at hrun
    cases hrun

/-- The same for a parser that halts. -/
lemma Decides.halts {k : List Token → Parse α} (h : Decides t k) {ts : List Token} {e : Halt}
    (hrun : (k ts).run (t :: ts) = .error e) :
    RunsOut (.error e : Except Halt (α × List Token)) ∨
    StopsAt t e ∧ (∀ us, (k us).run (t :: us) = .error e) ∨
    ∃ used u rest, ts = used ++ u :: rest ∧ StopsAt u e ∧ RunsOut ((k used).run (t :: used)) ∧
      ∀ rest', (k (used ++ u :: rest')).run (t :: (used ++ u :: rest')) = .error e := by
  cases h with
  | takes hq h =>
    rw [h] at hrun
    rcases hq.halts hrun with hend | ⟨used, u, rest, rfl, hstop, hended, hsame⟩
    · exact .inl hend
    · exact .inr (.inr ⟨used, u, rest, rfl, hstop, by rwa [h], fun rest' => by rw [h, hsame]⟩)
  | leaves hq h =>
    rw [h] at hrun
    rcases hq.halts hrun with hend | ⟨used, u, rest, hts, hstop, hended, hsame⟩
    · exact .inl hend
    · cases used with
      | nil =>
        obtain ⟨rfl, rfl⟩ := List.cons_eq_cons.mp hts
        exact .inr (.inl ⟨hstop, fun us => by rw [h]; exact hsame us⟩)
      | cons v used =>
        obtain ⟨rfl, rfl⟩ := List.cons_eq_cons.mp hts
        exact .inr (.inr ⟨used, u, rest, rfl, hstop, by rwa [h], fun rest' => by
          rw [h]
          exact hsame rest'⟩)
  | stops he h =>
    rw [h] at hrun
    cases hrun
    exact .inr (.inl ⟨he, h⟩)

/-- A parser that decides by the next token is predictive. -/
lemma predictive_get {k : List Token → Parse α} (hempty : RunsOut ((k []).run []))
    (h : ∀ t, Decides t fun rest => k (t :: rest)) : Predictive (get >>= k) := by
  refine ⟨hempty, ?_, ?_⟩
  · intro ts a rest hrun
    change (k ts).run ts = _ at hrun
    cases ts with
    | nil =>
      have hended := hempty
      rw [hrun] at hended
      cases hended
      refine ⟨[], rfl, hempty, fun rest' hhead => ?_⟩
      rw [List.head?_nil, List.head?_eq_none_iff] at hhead
      rw [hhead]
      exact hrun
    | cons t ts =>
      rcases (h t).yields hrun with ⟨rfl, hsame⟩ | ⟨used, rfl, hended, hsame⟩
      · refine ⟨[], rfl, hempty, fun rest' hhead => ?_⟩
        obtain ⟨us, rfl⟩ := List.head?_eq_some_iff.mp hhead
        exact hsame us
      · exact ⟨t :: used, rfl, hended, hsame⟩
  · intro ts e hrun
    change (k ts).run ts = _ at hrun
    cases ts with
    | nil =>
      rw [hrun] at hempty
      exact .inl hempty
    | cons t ts =>
      rcases (h t).halts hrun with
        hend | ⟨hstop, hsame⟩ | ⟨used, u, rest, rfl, hstop, hended, hsame⟩
      · exact .inl hend
      · exact .inr ⟨[], t, ts, rfl, hstop, hempty, hsame⟩
      · exact .inr ⟨t :: used, u, rest, rfl, hstop, hended, hsame⟩

end

/-! ### Reading tokens -/

section

variable {s : String} {slot : Slot}

lemma predictive_miss : Predictive (miss slot : Parse α) :=
  predictive_get (.missing slot) fun _ => .stops (.unexpected slot) fun _ => rfl

lemma predictive_peekText : Predictive (peekText s) :=
  predictive_get (.taken false) fun _ => (predictive_pure _).decides

lemma predictive_here : Predictive here :=
  predictive_get (.taken ({} : Mark)) fun _ => (predictive_pure _).decides

lemma predictive_acceptWhere (test : Token → Bool) : Predictive (acceptWhere test) :=
  predictive_get (.taken none) fun t =>
    (decides_set (predictive_pure (some t))).ite (predictive_pure none).decides

lemma predictive_accept? (pattern : Pattern) : Predictive (accept? pattern) :=
  predictive_acceptWhere pattern.fits

lemma predictive_acceptOperator? (operators : List String) :
    Predictive (acceptOperator? operators) :=
  predictive_acceptWhere fun t => operators.contains t.lexeme

lemma predictive_acceptText : Predictive (acceptText s) :=
  (predictive_accept? _).bind fun _ => predictive_pure _

lemma predictive_take : Predictive (take slot) := by
  refine (predictive_accept? _).bind fun t => ?_
  cases t with
  | none => exact predictive_miss
  | some t => exact predictive_pure t

lemma predictive_nameAfter : Predictive (nameAfter s slot) :=
  predictive_acceptText.bind fun _ =>
    (predictive_take.bind fun _ => predictive_pure _).ite (predictive_pure none)

lemma Predictive.partAfter {p : Parse Node} (h : Predictive p) : Predictive (partAfter s p) :=
  predictive_acceptText.bind fun _ => h.ite (predictive_pure _)

lemma Predictive.commaList {p : Parse α} (h : Predictive p) (width : Nat) :
    Predictive (commaList p width) := by
  induction width with
  | zero => exact h.bind fun a => predictive_pure [a]
  | succ width ih =>
    refine h.bind fun a => predictive_acceptText.bind fun more => Predictive.ite ?_ ?_
    · exact ih.bind fun as => predictive_pure (a :: as)
    · exact predictive_pure [a]

end

/-! ### Expressions -/

section

variable {width depth : Nat}

/-- Taking a literal token to read its value. -/
lemma decides_literal {p : Parse Node} {t : Token} (hp : literalOfKind? t = some p) :
    Decides t fun rest => set rest >>= fun _ => p := by
  rcases literal_yields_or_halts hp with ⟨n, hn⟩ | ⟨e, -, he⟩
  · exact .takes (predictive_pure n) hn
  · exact .stops (.literal hp he) he

lemma Predictive.operatorChain {p : Parse Node} (h : Predictive p) (operators : List String)
    (width : Nat) (left : Node) : Predictive (operatorChain operators p width left) := by
  induction width generalizing left with
  | zero => exact predictive_pure left
  | succ width ih =>
    refine (predictive_acceptOperator? operators).bind fun t => ?_
    cases t with
    | none => exact predictive_pure left
    | some t => exact h.bind fun right => ih _

lemma Predictive.memberChain {p : Parse (List Node)} (h : Predictive p) (width : Nat) (e : Node) :
    Predictive (memberChain p width e) := by
  induction width generalizing e with
  | zero => exact predictive_pure e
  | succ width ih =>
    refine predictive_acceptText.bind fun point => Predictive.ite ?_ (predictive_pure e)
    refine predictive_take.bind fun name => predictive_acceptText.bind fun opens => ?_
    exact (h.bind fun arguments => ih _).ite (ih _)

/-- The parsers of expressions are predictive at a depth. -/
structure ExpressionsPredictive (width depth : Nat) : Prop where
  expression : Predictive (expression width depth)
  operation (level : Level) : Predictive (operation width level depth)
  secondary : Predictive (secondary width depth)
  primary : Predictive (primary width depth)
  arguments : Predictive (arguments width depth)

lemma predictive_operation {level : Level} (ih : ExpressionsPredictive width depth) :
    Predictive (operation width level (depth + 2)) := by
  rw [operation]
  cases level with
  | multiplicative => exact ih.secondary.bind fun left => ih.secondary.operatorChain _ _ left
  | _ => exact (ih.operation _).bind fun left => (ih.operation _).operatorChain _ _ left

lemma predictive_arguments (ih : ExpressionsPredictive width depth) :
    Predictive (arguments width (depth + 1)) := by
  rw [arguments]
  refine predictive_peekText.bind fun closes => ?_
  refine Predictive.iteBind (predictive_pure []) (ih.expression.commaList _) fun items => ?_
  exact predictive_take.bind fun _ => predictive_pure items

lemma predictive_primary (ih : ExpressionsPredictive width depth) :
    Predictive (primary width (depth + 1)) := by
  rw [primary]
  refine predictive_get (.missing .primary) fun t => ?_
  refine (decides_set (predictive_pure _)).ite ?_
  refine (decides_set (predictive_pure _)).ite ?_
  refine (decides_set (predictive_pure _)).ite ?_
  split
  · next hkind => exact decides_literal (by rw [literalOfKind?, hkind])
  · next hkind => exact decides_literal (by rw [literalOfKind?, hkind])
  · next hkind => exact decides_literal (by rw [literalOfKind?, hkind])
  · next hkind => exact decides_literal (by rw [literalOfKind?, hkind])
  · refine (decides_set ?_).ite ((decides_set ?_).ite predictive_miss.decides)
    · exact ih.expression.bind fun body => predictive_take.bind fun _ => predictive_pure _
    · refine predictive_acceptText.bind fun opens => Predictive.ite ?_ (predictive_pure _)
      exact ih.arguments.bind fun arguments => predictive_pure _

/-- The parsers of expressions are predictive at every depth. -/
lemma expressionsPredictive (width depth : Nat) : ExpressionsPredictive width depth := by
  induction depth using Nat.strongRecOn with
  | ind depth ih =>
    cases depth with
    | zero => constructor <;> intros <;> exact predictive_tooDeep
    | succ depth =>
      have ih₁ := ih depth (Nat.lt_succ_self _)
      refine
        { expression := by rw [expression]; exact ih₁.operation .logical
          operation := fun level => ?_
          secondary := by
            rw [secondary]
            exact ih₁.primary.bind fun e => ih₁.arguments.memberChain _ e
          primary := predictive_primary ih₁
          arguments := predictive_arguments ih₁ }
      -- An operator level takes two units, so it rests on the rules two levels below.
      cases depth with
      | zero => exact predictive_tooDeep
      | succ depth => exact predictive_operation (ih depth (by omega))

end

/-! ### Statements -/

section

variable {width depth : Nat}

lemma predictive_declaration (mark : Mark) (depth : Nat) :
    Predictive (declaration width mark depth) := by
  cases depth with
  | zero => exact predictive_tooDeep
  | succ depth =>
    refine predictive_take.bind fun name => predictive_nameAfter.bind fun typeName => ?_
    refine (expressionsPredictive width depth).expression.partAfter.bind fun value => ?_
    exact predictive_take.bind fun _ => predictive_pure _

lemma predictive_giveBack (mark : Mark) (depth : Nat) :
    Predictive (giveBack width mark depth) := by
  cases depth with
  | zero => exact predictive_tooDeep
  | succ depth =>
    refine (expressionsPredictive width depth).expression.bind fun value => ?_
    exact predictive_take.bind fun _ => predictive_pure _

lemma predictive_simpleStatement (depth : Nat) : Predictive (simpleStatement width depth) := by
  have he := (expressionsPredictive width depth).expression
  refine predictive_here.bind fun mark => he.bind fun receiver => ?_
  refine predictive_acceptText.bind fun assigns => Predictive.ite ?_ ?_
  · exact he.bind fun value => predictive_take.bind fun _ => predictive_pure _
  · exact predictive_take.bind fun _ => predictive_pure _

lemma predictive_initializer (depth : Nat) : Predictive (initializer width depth) := by
  have he := (expressionsPredictive width depth).expression
  refine predictive_here.bind fun mark => predictive_acceptText.bind fun declares => ?_
  refine (predictive_declaration mark depth).ite ?_
  refine predictive_acceptText.bind fun closes => Predictive.ite (predictive_pure _) ?_
  refine he.bind fun receiver => predictive_take.bind fun _ => he.bind fun value => ?_
  exact predictive_take.bind fun _ => predictive_pure _

lemma predictive_increment (depth : Nat) : Predictive (increment width depth) := by
  cases depth with
  | zero => exact predictive_tooDeep
  | succ depth =>
    have he := (expressionsPredictive width depth).expression
    refine predictive_here.bind fun mark => he.bind fun receiver => ?_
    refine predictive_miss.whenBind (predictive_take.bind fun _ => he.bind fun value => ?_)
    exact predictive_pure _

lemma Predictive.statementsUntil {p : Parse Node} (h : Predictive p) (terminators : List String)
    (width : Nat) : Predictive (statementsUntil terminators p width) := by
  induction width with
  | zero => exact predictive_miss
  | succ width ih =>
    refine predictive_get (.missing _) fun t => ?_
    refine (predictive_pure _).decides.ite (Predictive.decides ?_)
    exact h.bind fun first => ih.bind fun others => predictive_pure (first :: others)

/-- The parsers of statements are predictive at a depth. -/
structure StatementsPredictive (width depth : Nat) : Prop where
  block (terminators : List String) : Predictive (block width terminators depth)
  statement : Predictive (statement width depth)
  branch (mark : Mark) : Predictive (branch width mark depth)
  forLoop (mark : Mark) : Predictive (forLoop width mark depth)
  whileLoop (mark : Mark) : Predictive (whileLoop width mark depth)

lemma predictive_statement (ih : StatementsPredictive width depth) :
    Predictive (statement width (depth + 1)) := by
  rw [statement]
  refine predictive_here.bind fun mark => ?_
  refine predictive_acceptText.bind fun declares => (predictive_declaration mark depth).ite ?_
  refine predictive_acceptText.bind fun branches => (ih.branch mark).ite ?_
  refine predictive_acceptText.bind fun counts => (ih.forLoop mark).ite ?_
  refine predictive_acceptText.bind fun repeats => (ih.whileLoop mark).ite ?_
  refine predictive_acceptText.bind fun returns => (predictive_giveBack mark depth).ite ?_
  exact predictive_simpleStatement depth

lemma predictive_branch (ih : StatementsPredictive width depth) (mark : Mark) :
    Predictive (branch width mark (depth + 1)) := by
  rw [branch]
  refine (expressionsPredictive width depth).expression.bind fun condition => ?_
  refine predictive_take.bind fun _ => (ih.block _).bind fun thenBody => ?_
  refine predictive_acceptText.bind fun found => ?_
  refine Predictive.iteBind (ih.block _) (predictive_pure []) fun elseBody => ?_
  exact predictive_take.bind fun _ => predictive_pure _

lemma predictive_forLoop (ih : StatementsPredictive width depth) (mark : Mark) :
    Predictive (forLoop width mark (depth + 1)) := by
  rw [forLoop]
  have he := (expressionsPredictive width depth).expression
  refine predictive_take.bind fun _ => (predictive_initializer depth).bind fun first => ?_
  refine predictive_peekText.bind fun noCondition => ?_
  refine Predictive.iteBind (predictive_pure _) he fun condition => predictive_take.bind fun _ => ?_
  refine predictive_peekText.bind fun noIncrement => ?_
  refine Predictive.iteBind (predictive_pure _) (predictive_increment depth) fun last => ?_
  refine predictive_take.bind fun _ => predictive_take.bind fun _ => ?_
  refine (ih.block _).bind fun body => ?_
  exact predictive_take.bind fun _ => predictive_pure _

lemma predictive_whileLoop (ih : StatementsPredictive width depth) (mark : Mark) :
    Predictive (whileLoop width mark (depth + 1)) := by
  rw [whileLoop]
  refine (expressionsPredictive width depth).expression.bind fun condition => ?_
  refine predictive_take.bind fun _ => (ih.block _).bind fun body => ?_
  exact predictive_take.bind fun _ => predictive_pure _

/-- The parsers of statements are predictive at every depth. -/
lemma statementsPredictive (width depth : Nat) : StatementsPredictive width depth := by
  induction depth with
  | zero => constructor <;> intros <;> exact predictive_tooDeep
  | succ depth ih =>
    exact
      { block := fun _ => by rw [block]; exact ih.statement.statementsUntil _ _
        statement := predictive_statement ih
        branch := predictive_branch ih
        forLoop := predictive_forLoop ih
        whileLoop := predictive_whileLoop ih }

end

/-! ### Programs -/

section

variable {width : Nat}

lemma predictive_field (mark : Mark) (depth : Nat) : Predictive (field width mark depth) := by
  cases depth with
  | zero => exact predictive_tooDeep
  | succ depth =>
    refine predictive_acceptText.bind fun constant => predictive_take.bind fun name => ?_
    refine predictive_nameAfter.bind fun typeName => ?_
    refine (expressionsPredictive width depth).expression.partAfter.bind fun value => ?_
    exact predictive_take.bind fun _ => predictive_pure _

lemma predictive_parameter : Predictive parameter :=
  predictive_take.bind fun _ => predictive_nameAfter.bind fun _ => predictive_pure _

lemma predictive_method (mark : Mark) (depth : Nat) : Predictive (method width mark depth) := by
  cases depth with
  | zero => exact predictive_tooDeep
  | succ depth =>
    refine predictive_take.bind fun name => predictive_take.bind fun _ => ?_
    refine predictive_peekText.bind fun closes => ?_
    refine Predictive.iteBind (predictive_pure []) (predictive_parameter.commaList _)
      fun parameters => ?_
    refine predictive_take.bind fun _ => predictive_nameAfter.bind fun returnType => ?_
    refine predictive_take.bind fun _ => ?_
    refine ((statementsPredictive width depth).block _).bind fun body => ?_
    exact predictive_take.bind fun _ => predictive_pure _

lemma Predictive.declarations {item : Mark → Parse α} (word : String)
    (h : ∀ mark, Predictive (item mark)) (width : Nat) :
    Predictive (declarations word item width) := by
  induction width with
  | zero => exact predictive_pure []
  | succ width ih =>
    refine predictive_here.bind fun mark => predictive_acceptText.bind fun found => ?_
    refine Predictive.ite ?_ (predictive_pure [])
    exact (h mark).bind fun first => ih.bind fun others => predictive_pure (first :: others)

/-- The parser of programs looks one token ahead. -/
theorem predictive_program (width depth : Nat) : Predictive (program width depth) := by
  refine predictive_here.bind fun mark => ?_
  refine (Predictive.declarations _ (fun mark => predictive_field mark depth) width).bind
    fun fields => ?_
  refine (Predictive.declarations _ (fun mark => predictive_method mark depth) width).bind
    fun methods => ?_
  exact predictive_get (.taken (⟨mark, fields, methods⟩ : Program)) fun t =>
    .stops (.unexpected .topLevel) fun _ => rfl

end

end LetDef.Parser
