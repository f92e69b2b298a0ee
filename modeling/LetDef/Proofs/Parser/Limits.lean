import LetDef.Proofs.Parser.Completeness

/-!
# The limits of parsers

The parsers have limits on the nesting of their rules and on the repetitions in one. Here these are
shown to matter in one way only: a parser whose depth is too small may stop for that reason. Depth
twelve for each token is always enough, and as many repetitions as there are tokens are too. So each
list of tokens has one outcome of its own, which does not depend on the limits.

The proofs count tokens. A rule that calls itself takes a token first, and so does every round of a
repetition.
-/

namespace LetDef.Parser

variable {α β : Type}

/-- From the tokens `q` does not nest its rules too deeply and takes at least `gain` of them if it
yields anything, and `p` does the same as `q` unless it nests its rules too deeply. -/
structure SettlesOn (ts : List Token) (gain : Nat) (p q : Parse α) : Prop where
  same : p.run ts = .error .tooDeep ∨ p.run ts = q.run ts
  shallow : q.run ts ≠ .error .tooDeep
  takes : ∀ {a rest}, q.run ts = .ok (a, rest) → rest.length + gain ≤ ts.length

/-- The parsers settle on all lists of at most `n` tokens. -/
def Settles (n gain : Nat) (p q : Parse α) : Prop :=
  ∀ ts : List Token, ts.length ≤ n → SettlesOn ts gain p q

variable {n m gain gain' : Nat} {p q p' q' : Parse α} {k k' : α → Parse β} {ts rest : List Token}

/-! ### Building parsers -/

lemma Settles.mono (h : Settles n gain p q) (hn : m ≤ n) (hgain : gain' ≤ gain) :
    Settles m gain' p q := by
  intro ts hts
  obtain ⟨hsame, hshallow, htakes⟩ := h ts (hts.trans hn)
  exact ⟨hsame, hshallow, fun hrun => (Nat.add_le_add_left hgain _).trans (htakes hrun)⟩

lemma Settles.slack (h : Settles n 1 p q) : Settles n 0 p q :=
  h.mono le_rfl (Nat.zero_le 1)

/-- Without any depth a parser stops, which settles as well as what it does at a greater depth. -/
lemma settles_of_succ {f : Nat → Parse α} {depth : Nat}
    (h : ∀ depth, Settles n gain (f (depth + 1)) q) (hzero : f 0 = tooDeep) :
    Settles n gain (f depth) q := by
  cases depth with
  | zero =>
    intro ts hts
    obtain ⟨-, hshallow, htakes⟩ := h 0 ts hts
    exact ⟨.inl (by rw [hzero]; rfl), hshallow, htakes⟩
  | succ depth => exact h depth

lemma settlesOn_ok {a : α} (hp : p.run ts = .ok (a, ts)) (hq : q.run ts = .ok (a, ts)) :
    SettlesOn ts 0 p q := by
  refine ⟨.inr (hp.trans hq.symm), ?_, ?_⟩
  · rw [hq]
    nofun
  · intro b rest h
    rw [hq] at h
    cases h
    exact le_rfl

lemma settles_pure (a : α) : Settles n 0 (pure a) (pure a) :=
  fun _ _ => settlesOn_ok rfl rfl

lemma settlesOn_error {e : Halt} (hp : p.run ts = .error e) (hq : q.run ts = .error e)
    (he : e ≠ .tooDeep) : SettlesOn ts gain p q := by
  refine ⟨.inr (hp.trans hq.symm), ?_, ?_⟩
  · rw [hq]
    exact fun h => he (Except.error.inj h)
  · rw [hq]
    nofun

lemma settles_miss (slot : Slot) : Settles n gain (miss slot : Parse α) (miss slot) := by
  intro ts _
  cases ts with
  | nil => exact settlesOn_error rfl rfl nofun
  | cons t rest => exact settlesOn_error rfl rfl nofun

/-- The second of two parsers gets what the first leaves. -/
lemma SettlesOn.bind (h : SettlesOn ts gain p q)
    (hk : ∀ a us, us.length + gain ≤ ts.length → SettlesOn us gain' (k a) (k' a)) :
    SettlesOn ts (gain + gain') (p >>= k) (q >>= k') := by
  have hdeep : p.run ts = .error .tooDeep → (p >>= k).run ts = .error .tooDeep := run_bind_error
  cases hq : q.run ts with
  | error e =>
    have hrun : (q >>= k').run ts = .error e := run_bind_error hq
    refine ⟨h.same.imp hdeep fun hp => ?_, ?_, ?_⟩
    · rw [hrun]
      exact run_bind_error (hp.trans hq)
    · rw [hrun]
      rintro ⟨⟩
      exact h.shallow hq
    · rw [hrun]
      nofun
  | ok r =>
    obtain ⟨a, us⟩ := r
    have hrun : (q >>= k').run ts = (k' a).run us := run_bind_ok hq
    have hus := h.takes hq
    obtain ⟨hsame, hshallow, htakes⟩ := hk a us hus
    refine ⟨?_, by rwa [hrun], fun hb => ?_⟩
    · rw [hrun]
      rcases h.same with hp | hp
      · exact .inl (hdeep hp)
      · rw [run_bind_ok (hp.trans hq)]
        exact hsame
    · rw [hrun] at hb
      have := htakes hb
      omega

lemma Settles.bind (h : Settles n gain p q)
    (hk : ∀ a m, m + gain ≤ n → Settles m gain' (k a) (k' a)) :
    Settles n (gain + gain') (p >>= k) (q >>= k') := by
  intro ts hts
  exact (h ts hts).bind fun a us hus => hk a us.length (hus.trans hts) us le_rfl

/-- A first parser that need not take any token. -/
lemma Settles.bind₀ (h : Settles n 0 p q) (hk : ∀ a, Settles n gain (k a) (k' a)) :
    Settles n gain (p >>= k) (q >>= k') := by
  have := h.bind fun a m (hm : m + 0 ≤ n) => (hk a).mono hm le_rfl
  rwa [Nat.zero_add] at this

/-- A first parser that takes a token. -/
lemma Settles.bind₁ (h : Settles n 1 p q) (hk : ∀ a m, m < n → Settles m 0 (k a) (k' a)) :
    Settles n 1 (p >>= k) (q >>= k') :=
  h.bind hk

lemma SettlesOn.ite {c : Prop} [Decidable c] (h : SettlesOn ts gain p q)
    (h' : SettlesOn ts gain p' q') :
    SettlesOn ts gain (if c then p else p') (if c then q else q') := by
  split
  · exact h
  · exact h'

lemma Settles.ite {c : Prop} [Decidable c] (h : Settles n gain p q) (h' : Settles n gain p' q') :
    Settles n gain (if c then p else p') (if c then q else q') :=
  fun ts hts => (h ts hts).ite (h' ts hts)

/-- One of two parsers, and what follows either. -/
lemma Settles.iteBind {c : Prop} [Decidable c] (h : Settles n 0 p q) (h' : Settles n 0 p' q')
    (hk : ∀ a, Settles n gain (k a) (k' a)) :
    Settles n gain (if c then p >>= k else p' >>= k) (if c then q >>= k' else q' >>= k') :=
  (h.bind₀ hk).ite (h'.bind₀ hk)

/-- A check that may stop the parser before what follows. -/
lemma Settles.unlessMiss {c : Prop} [Decidable c] {slot : Slot} {p q : Parse β}
    (h : Settles n gain p q) :
    Settles n gain (if c then (miss slot : Parse α) >>= fun _ => p else p)
      (if c then (miss slot : Parse α) >>= fun _ => q else q) :=
  ((settles_miss slot).bind₀ fun _ => h).ite h

lemma settles_get {k k' : List Token → Parse α}
    (h : ∀ ts : List Token, ts.length ≤ n → SettlesOn ts gain (k ts) (k' ts)) :
    Settles n gain (get >>= k) (get >>= k') :=
  fun ts hts => ⟨(h ts hts).same, (h ts hts).shallow, (h ts hts).takes⟩

lemma settlesOn_set {t : Token} (h : SettlesOn rest 0 p q) :
    SettlesOn (t :: rest) 1 (set rest >>= fun _ => p) (set rest >>= fun _ => q) :=
  ⟨h.same, h.shallow, fun hrun => Nat.succ_le_succ (h.takes hrun)⟩

/-! ### Reading tokens -/

section

variable {s : String} {slot : Slot}

lemma settles_here : Settles n 0 here here := by
  refine settles_get fun ts hts => ?_
  cases ts with
  | nil => exact settles_pure _ [] hts
  | cons t rest => exact settles_pure _ (t :: rest) hts

lemma settles_peekText : Settles n 0 (peekText s) (peekText s) := by
  refine settles_get fun ts hts => ?_
  cases ts with
  | nil => exact settles_pure _ [] hts
  | cons t rest => exact settles_pure _ (t :: rest) hts

/-- What follows a token that is taken has fewer tokens. -/
lemma settles_acceptWhere {test : Token → Bool} {k k' : Option Token → Parse α}
    (hsome : ∀ t m, m < n → Settles m 0 (k (some t)) (k' (some t)))
    (hnone : Settles n gain (k none) (k' none)) (hgain : gain ≤ 1) :
    Settles n gain (acceptWhere test >>= k) (acceptWhere test >>= k') := by
  intro ts hts
  cases ts with
  | nil => exact ⟨(hnone [] hts).same, (hnone [] hts).shallow, (hnone [] hts).takes⟩
  | cons t rest =>
    have hrest : SettlesOn rest 0 (k (some t)) (k' (some t)) := hsome t rest.length hts rest le_rfl
    cases htest : test t with
    | true =>
      have hrun : ∀ l : Option Token → Parse α,
          (acceptWhere test >>= l).run (t :: rest) = (l (some t)).run rest :=
        fun l => run_bind_ok (run_acceptWhere_fit htest)
      refine ⟨?_, ?_, fun h => ?_⟩
      · rw [hrun, hrun]
        exact hrest.same
      · rw [hrun]
        exact hrest.shallow
      · rw [hrun] at h
        exact Nat.add_le_add (hrest.takes h) hgain
    | false =>
      have hrun : ∀ l : Option Token → Parse α,
          (acceptWhere test >>= l).run (t :: rest) = (l none).run (t :: rest) :=
        fun l => run_bind_ok (run_acceptWhere_unfit htest)
      obtain ⟨hsame, hshallow, htakes⟩ := hnone (t :: rest) hts
      exact ⟨by rwa [hrun, hrun], by rwa [hrun], fun h => htakes (by rwa [hrun] at h)⟩

lemma settles_acceptText {k k' : Bool → Parse α}
    (htrue : ∀ m, m < n → Settles m 0 (k true) (k' true))
    (hfalse : Settles n gain (k false) (k' false)) (hgain : gain ≤ 1) :
    Settles n gain (acceptText s >>= k) (acceptText s >>= k') := by
  unfold acceptText
  simp only [bind_assoc, pure_bind]
  exact settles_acceptWhere (fun _ => htrue) hfalse hgain

/-- A word that may be left out before what follows. -/
lemma settles_optional {k k' : Bool → Parse α} (h : ∀ found, Settles n 0 (k found) (k' found)) :
    Settles n 0 (acceptText s >>= k) (acceptText s >>= k') :=
  settles_acceptText (fun _ hm => (h true).mono hm.le le_rfl) (h false) (Nat.zero_le 1)

lemma settles_take : Settles n 1 (take slot) (take slot) :=
  settles_acceptWhere (fun t _ _ => settles_pure t) (settles_miss slot) le_rfl

/-- A token that ends a rule. -/
lemma settles_last (f : Token → α) :
    Settles n 1 (take slot >>= fun t => pure (f t)) (take slot >>= fun t => pure (f t)) :=
  settles_take.bind₁ fun t _ _ => settles_pure (f t)

lemma settles_nameAfter : Settles n 0 (nameAfter s slot) (nameAfter s slot) :=
  settles_acceptText (fun _ _ => (settles_last fun t => some t.lexeme).slack) (settles_pure none)
    (by decide)

lemma Settles.partAfter {p q : Parse Node} (h : ∀ m, m < n → Settles m 0 p q) :
    Settles n 0 (partAfter s p) (partAfter s q) :=
  settles_acceptText h (settles_pure _) (by decide)

end

/-! ### Repetitions -/

section

variable {width width' : Nat}

lemma commaList_eq_bind (p : Parse α) (width : Nat) : ∃ f, commaList p width = p >>= f := by
  cases width with
  | zero => exact ⟨_, rfl⟩
  | succ width => exact ⟨_, rfl⟩

lemma Settles.commaList (h : Settles n 1 p q) (hw : n ≤ width) (hw' : n ≤ width') :
    Settles n 1 (commaList p width) (commaList q width') := by
  induction n generalizing width width' with
  | zero =>
    intro ts hts
    -- Without tokens no first item is read, so it does not matter how many may follow.
    obtain ⟨f, hf⟩ := commaList_eq_bind p width
    obtain ⟨f', hf'⟩ := commaList_eq_bind q width'
    rw [hf, hf']
    exact (h.bind₁ fun a m hm => absurd hm (Nat.not_lt_zero m)) ts hts
  | succ n ih =>
    obtain ⟨width, rfl⟩ : ∃ w, width = w + 1 := ⟨width - 1, by omega⟩
    obtain ⟨width', rfl⟩ : ∃ w, width' = w + 1 := ⟨width' - 1, by omega⟩
    refine h.bind₁ fun a m hm => ?_
    refine settles_acceptText (fun m' hm' => ?_) (settles_pure [a]) (by decide)
    have hmore := ih (h.mono (by omega) le_rfl) (Nat.le_of_succ_le_succ hw)
      (Nat.le_of_succ_le_succ hw')
    exact (hmore.bind₁ fun as _ _ => settles_pure (a :: as)).slack.mono (by omega) le_rfl

lemma Settles.operatorChain {p q : Parse Node} (h : Settles n 0 p q) (operators : List String)
    (hw : n ≤ width) (hw' : n ≤ width') (left : Node) :
    Settles n 0 (operatorChain operators p width left) (operatorChain operators q width' left) := by
  induction n generalizing width width' left with
  | zero =>
    intro ts hts
    obtain rfl := List.length_eq_zero_iff.mp (Nat.le_zero.mp hts)
    have hrun : ∀ p w, (Parser.operatorChain operators p w left).run [] = .ok (left, []) := by
      intro p w
      cases w <;> rfl
    exact settlesOn_ok (hrun p width) (hrun q width')
  | succ n ih =>
    obtain ⟨width, rfl⟩ : ∃ w, width = w + 1 := ⟨width - 1, by omega⟩
    obtain ⟨width', rfl⟩ : ∃ w, width' = w + 1 := ⟨width' - 1, by omega⟩
    refine settles_acceptWhere (fun t m hm => ?_) (settles_pure left) (by decide)
    have hchain : Settles n 0 _ _ := (h.mono (Nat.le_succ n) le_rfl).bind₀ fun right =>
      ih (h.mono (Nat.le_succ n) le_rfl) (Nat.le_of_succ_le_succ hw) (Nat.le_of_succ_le_succ hw')
        (.binary { position := left.mark.position } t.lexeme left right)
    exact hchain.mono (Nat.le_of_lt_succ hm) le_rfl

lemma Settles.memberChain {p q : Parse (List Node)} (h : ∀ m, m < n → Settles m 0 p q)
    (hw : n ≤ width) (hw' : n ≤ width') (e : Node) :
    Settles n 0 (memberChain p width e) (memberChain q width' e) := by
  induction n generalizing width width' e with
  | zero =>
    intro ts hts
    obtain rfl := List.length_eq_zero_iff.mp (Nat.le_zero.mp hts)
    have hrun : ∀ p w, (Parser.memberChain p w e).run [] = .ok (e, []) := by
      intro p w
      cases w <;> rfl
    exact settlesOn_ok (hrun p width) (hrun q width')
  | succ n ih =>
    obtain ⟨width, rfl⟩ : ∃ w, width = w + 1 := ⟨width - 1, by omega⟩
    obtain ⟨width', rfl⟩ : ∃ w, width' = w + 1 := ⟨width' - 1, by omega⟩
    have hchain : ∀ {m}, m ≤ n → ∀ e, Settles m 0 (memberChain p width e)
        (memberChain q width' e) := fun hm e =>
      (ih (fun m hm => h m (by omega)) (Nat.le_of_succ_le_succ hw) (Nat.le_of_succ_le_succ hw')
        e).mono hm le_rfl
    refine settles_acceptText (fun m hm => ?_) (settles_pure e) (by decide)
    refine (settles_take.bind₁ fun name m' hm' => ?_).slack
    refine settles_acceptText (fun m'' hm'' => ?_) (hchain (by omega) _) (by decide)
    exact (h m'' (by omega)).bind₀ fun arguments => hchain (by omega) _

lemma Settles.statementsUntil {p q : Parse Node} (h : Settles n 1 p q) (terminators : List String)
    (hw : n < width) (hw' : n < width') :
    Settles n 0 (statementsUntil terminators p width) (statementsUntil terminators q width') := by
  induction n generalizing width width' with
  | zero =>
    obtain ⟨width, rfl⟩ : ∃ w, width = w + 1 := ⟨width - 1, by omega⟩
    obtain ⟨width', rfl⟩ : ∃ w, width' = w + 1 := ⟨width' - 1, by omega⟩
    refine settles_get fun ts hts => ?_
    obtain rfl := List.length_eq_zero_iff.mp (Nat.le_zero.mp hts)
    exact settles_miss _ [] hts
  | succ n ih =>
    obtain ⟨width, rfl⟩ : ∃ w, width = w + 1 := ⟨width - 1, by omega⟩
    obtain ⟨width', rfl⟩ : ∃ w, width' = w + 1 := ⟨width' - 1, by omega⟩
    refine settles_get fun ts hts => ?_
    cases ts with
    | nil => exact settles_miss _ [] hts
    | cons t rest =>
      refine SettlesOn.ite (settles_pure [] _ hts) ?_
      have hmore := ih (h.mono (Nat.le_succ n) le_rfl) (Nat.lt_of_succ_lt_succ hw)
        (Nat.lt_of_succ_lt_succ hw')
      have hfirst := h.bind₁ fun first m hm => (hmore.bind₀ fun others =>
        settles_pure (first :: others)).mono (Nat.le_of_lt_succ hm) le_rfl
      exact hfirst.slack _ hts

lemma Settles.declarations {item item' : Mark → Parse α} (word : String)
    (h : ∀ mark m, m < n → Settles m 0 (item mark) (item' mark)) (hw : n ≤ width)
    (hw' : n ≤ width') :
    Settles n 0 (declarations word item width) (declarations word item' width') := by
  induction n generalizing width width' with
  | zero =>
    intro ts hts
    obtain rfl := List.length_eq_zero_iff.mp (Nat.le_zero.mp hts)
    have hrun : ∀ item w, (Parser.declarations (α := α) word item w).run [] = .ok ([], []) := by
      intro item w
      cases w <;> rfl
    exact settlesOn_ok (hrun item width) (hrun item' width')
  | succ n ih =>
    obtain ⟨width, rfl⟩ : ∃ w, width = w + 1 := ⟨width - 1, by omega⟩
    obtain ⟨width', rfl⟩ : ∃ w, width' = w + 1 := ⟨width' - 1, by omega⟩
    refine settles_here.bind₀ fun mark => ?_
    refine settles_acceptText (fun m hm => ?_) (settles_pure []) (by decide)
    have hmore := ih (fun mark m hm => h mark m (by omega)) (Nat.le_of_succ_le_succ hw)
      (Nat.le_of_succ_le_succ hw')
    exact (h mark m hm).bind₀ fun first => (hmore.bind₀ fun others =>
      settles_pure (first :: others)).mono (Nat.le_of_lt_succ hm) le_rfl

end

/-! ### Expressions -/

section

variable {width width' depth depth' : Nat}

lemma settles_literal {t : Token} {p : Parse Node} (hp : literalOfKind? t = some p) :
    Settles n 0 p p := by
  intro ts _
  rcases literal_yields_or_halts hp with ⟨m, hm⟩ | ⟨e, he, hrun⟩
  · exact settlesOn_ok (hm ts) (hm ts)
  · exact settlesOn_error (hrun ts) (hrun ts) he

/-- The parsers of expressions settle where the second has the depth for the tokens. Eleven rules
are entered before an expression takes its first token, and one more before its arguments do. -/
structure ExpressionsSettle (depth' : Nat) : Prop where
  expression : ∀ {n width width' depth : Nat}, n ≤ width → n ≤ width' → 12 * n + 11 ≤ depth' →
    Settles n 1 (expression width depth) (expression width' depth')
  operation : ∀ {n width width' depth : Nat} (level : Level), n ≤ width → n ≤ width' →
    12 * n + 11 ≤ depth' + level.spent →
    Settles n 1 (operation width level depth) (operation width' level depth')
  secondary : ∀ {n width width' depth : Nat}, n ≤ width → n ≤ width' → 12 * n + 2 ≤ depth' →
    Settles n 1 (secondary width depth) (secondary width' depth')
  primary : ∀ {n width width' depth : Nat}, n ≤ width → n ≤ width' → 12 * n + 1 ≤ depth' →
    Settles n 1 (primary width depth) (primary width' depth')
  arguments : ∀ {n width width' depth : Nat}, n ≤ width → n ≤ width' → 12 * n + 12 ≤ depth' →
    Settles n 1 (arguments width depth) (arguments width' depth')

lemma settles_expression (ih : ExpressionsSettle depth') (hw : n ≤ width) (hw' : n ≤ width')
    (hd : 12 * n + 11 ≤ depth' + 1) :
    Settles n 1 (expression width depth) (expression width' (depth' + 1)) := by
  refine settles_of_succ (fun depth => ?_) rfl
  rw [expression, expression]
  exact ih.operation .logical hw hw' hd

lemma settles_operand (ih : ExpressionsSettle depth') {level : Level} (hw : n ≤ width)
    (hw' : n ≤ width') (hd : 12 * n + 11 ≤ depth' + 2 + level.spent) :
    Settles n 1 (operandParser width level depth) (operandParser width' level depth') := by
  unfold operandParser
  cases hn : level.tighter? with
  | some tighter => exact ih.operation tighter hw hw' (by rw [spent_tighter hn]; omega)
  | none =>
    refine ih.secondary hw hw' ?_
    have := spent_le level
    omega

lemma settles_operation (ih : ExpressionsSettle depth') {level : Level} (hw : n ≤ width)
    (hw' : n ≤ width') (hd : 12 * n + 11 ≤ depth' + 2 + level.spent) :
    Settles n 1 (operation width level depth) (operation width' level (depth' + 2)) := by
  refine settles_of_succ (fun depth => ?_) rfl
  refine settles_of_succ (f := fun d => operation width level (d + 1)) (fun depth => ?_) rfl
  have hoperand :
      Settles n 1 (operandParser width level depth) (operandParser width' level depth') :=
    settles_operand ih hw hw' hd
  rw [operation, operation]
  refine hoperand.bind₁ fun left m hm => ?_
  exact (hoperand.slack.mono (Nat.le_of_lt hm) le_rfl).operatorChain _ (by omega) (by omega) left

lemma settles_secondary (ih : ExpressionsSettle depth') (hw : n ≤ width) (hw' : n ≤ width')
    (hd : 12 * n + 2 ≤ depth' + 1) :
    Settles n 1 (secondary width depth) (secondary width' (depth' + 1)) := by
  refine settles_of_succ (fun depth => ?_) rfl
  rw [secondary, secondary]
  refine (ih.primary hw hw' (by omega)).bind₁ fun e m hm => ?_
  exact Settles.memberChain (fun m' hm' => (ih.arguments (by omega) (by omega) (by omega)).slack)
    (by omega) (by omega) e

lemma settles_arguments (ih : ExpressionsSettle depth') (hw : n ≤ width) (hw' : n ≤ width')
    (hd : 12 * n + 12 ≤ depth' + 1) :
    Settles n 1 (arguments width depth) (arguments width' (depth' + 1)) := by
  refine settles_of_succ (fun depth => ?_) rfl
  rw [arguments, arguments]
  refine settles_peekText.bind₀ fun closes => ?_
  have hitem : Settles n 1 (expression width depth) (expression width' depth') :=
    ih.expression hw hw' (by omega)
  exact Settles.iteBind (settles_pure []) (hitem.commaList hw hw').slack fun items =>
    settles_last fun _ => items

lemma settles_primary (ih : ExpressionsSettle depth') (hw : n ≤ width) (hw' : n ≤ width')
    (hd : 12 * n + 1 ≤ depth' + 1) :
    Settles n 1 (primary width depth) (primary width' (depth' + 1)) := by
  refine settles_of_succ (fun depth => ?_) rfl
  rw [primary, primary]
  refine settles_get fun ts hts => ?_
  cases ts with
  | nil => exact settles_miss _ [] hts
  | cons t rest =>
    have hword : ∀ n : Node, SettlesOn (t :: rest) 1 (do set rest; pure n) (do set rest; pure n) :=
      fun n => settlesOn_set (settles_pure n rest le_rfl)
    have hliteral : ∀ {p : Parse Node}, literalOfKind? t = some p →
        SettlesOn (t :: rest) 1 (do set rest; p) (do set rest; p) :=
      fun hp => settlesOn_set (settles_literal hp rest le_rfl)
    rw [List.length_cons] at hts
    -- The words for values and the literals take one token and settle at once.
    refine SettlesOn.ite (hword _) (SettlesOn.ite (hword _) (SettlesOn.ite (hword _) ?_))
    split
    · next hkind => exact hliteral (by rw [literalOfKind?, hkind])
    · next hkind => exact hliteral (by rw [literalOfKind?, hkind])
    · next hkind => exact hliteral (by rw [literalOfKind?, hkind])
    · next hkind => exact hliteral (by rw [literalOfKind?, hkind])
    · refine SettlesOn.ite (settlesOn_set ?_) (SettlesOn.ite (settlesOn_set ?_) ?_)
      · -- Inside a group or a call there is at least one token less, which pays for the levels
        -- below.
        have hgroup : Settles rest.length 1 (expression width depth) (expression width' depth') :=
          ih.expression (by omega) (by omega) (by omega)
        exact (hgroup.slack.bind₀ fun body => (settles_last fun _ => _).slack) rest le_rfl
      · refine (?_ : Settles rest.length 0 _ _) rest le_rfl
        refine settles_acceptText (fun m hm => ?_) (settles_pure _) (by decide)
        have harguments : Settles m 1 (arguments width depth) (arguments width' depth') :=
          ih.arguments (by omega) (by omega) (by omega)
        exact harguments.slack.bind₀ fun items => settles_pure _
      · exact settles_miss _ (t :: rest) le_rfl

/-- The parsers of expressions settle at every depth that is enough for the tokens. -/
lemma expressionsSettle (depth' : Nat) : ExpressionsSettle depth' := by
  induction depth' using Nat.strongRecOn with
  | ind depth' ih =>
    cases depth' with
    | zero =>
      constructor <;> intros
      case operation level _ _ hd =>
        have := spent_le level
        omega
      all_goals omega
    | succ depth' =>
      have ih₁ := ih depth' (Nat.lt_succ_self _)
      refine ⟨settles_expression ih₁, fun {n _ _ _} level hw hw' hd => ?_, settles_secondary ih₁,
        settles_primary ih₁, settles_arguments ih₁⟩
      -- An operator level takes two units, so it rests on the rules two levels below.
      cases depth' with
      | zero =>
        have := spent_le level
        omega
      | succ depth' => exact settles_operation (ih depth' (by omega)) hw hw' hd

end

/-! ### Statements -/

section

variable {width width' depth depth' : Nat}

lemma settles_declaration (mark : Mark) (hw : n ≤ width) (hw' : n ≤ width')
    (hd : 12 * n + 12 ≤ depth') :
    Settles n 1 (declaration width mark depth) (declaration width' mark depth') := by
  obtain ⟨depth', rfl⟩ : ∃ d, depth' = d + 1 := ⟨depth' - 1, by omega⟩
  have he := expressionsSettle depth'
  refine settles_of_succ (fun depth => ?_) rfl
  refine settles_take.bind₁ fun name m hm => settles_nameAfter.bind₀ fun typeName => ?_
  refine (Settles.partAfter fun m' hm' => ?_).bind₀ fun value => (settles_last fun _ => _).slack
  exact (he.expression (by omega) (by omega) (by omega)).slack

lemma settles_giveBack (mark : Mark) (hw : n ≤ width) (hw' : n ≤ width')
    (hd : 12 * n + 12 ≤ depth') :
    Settles n 1 (giveBack width mark depth) (giveBack width' mark depth') := by
  obtain ⟨depth', rfl⟩ : ∃ d, depth' = d + 1 := ⟨depth' - 1, by omega⟩
  have he := expressionsSettle depth'
  refine settles_of_succ (fun depth => ?_) rfl
  exact (he.expression hw hw' (by omega)).bind₁ fun value m hm => (settles_last fun _ => _).slack

lemma settles_simpleStatement (hw : n ≤ width) (hw' : n ≤ width') (hd : 12 * n + 11 ≤ depth') :
    Settles n 1 (simpleStatement width depth) (simpleStatement width' depth') := by
  have he := expressionsSettle depth'
  refine settles_here.bind₀ fun mark => (he.expression hw hw' hd).bind₁ fun receiver m hm => ?_
  refine settles_acceptText (fun m' hm' => ?_) (settles_last fun _ => _).slack (by decide)
  exact (he.expression (by omega) (by omega) (by omega)).slack.bind₀ fun value =>
    (settles_last fun _ => _).slack

lemma settles_initializer (hw : n ≤ width) (hw' : n ≤ width') (hd : 12 * n + 11 ≤ depth') :
    Settles n 1 (initializer width depth) (initializer width' depth') := by
  have he := expressionsSettle depth'
  refine settles_here.bind₀ fun mark => ?_
  refine settles_acceptText (fun m hm => ?_) ?_ le_rfl
  · exact (settles_declaration mark (by omega) (by omega) (by omega)).slack
  · refine settles_acceptText (fun m hm => settles_pure _) ?_ le_rfl
    refine (he.expression hw hw' hd).bind₁ fun receiver m hm => ?_
    refine (settles_take.bind₁ fun _ m' hm' => ?_).slack
    exact (he.expression (by omega) (by omega) (by omega)).slack.bind₀ fun value =>
      (settles_last fun _ => _).slack

lemma settles_increment (hw : n ≤ width) (hw' : n ≤ width') (hd : 12 * n + 12 ≤ depth') :
    Settles n 1 (increment width depth) (increment width' depth') := by
  obtain ⟨depth', rfl⟩ : ∃ d, depth' = d + 1 := ⟨depth' - 1, by omega⟩
  have he := expressionsSettle depth'
  refine settles_of_succ (fun depth => ?_) rfl
  refine settles_here.bind₀ fun mark => ?_
  refine (he.expression hw hw' (by omega)).bind₁ fun receiver m hm => ?_
  refine Settles.unlessMiss (settles_take.bind₁ fun _ m' hm' => ?_).slack
  exact (he.expression (by omega) (by omega) (by omega)).slack.bind₀ fun value => settles_pure _

/-- The parsers of statements settle where the second has the depth for the tokens. -/
structure StatementsSettle (depth' : Nat) : Prop where
  block : ∀ {n width width' depth : Nat} (terminators : List String), n ≤ width → n ≤ width' →
    12 * n + 13 ≤ depth' →
    Settles n 0 (block width terminators depth) (block width' terminators depth')
  statement : ∀ {n width width' depth : Nat}, n ≤ width → n ≤ width' → 12 * n + 12 ≤ depth' →
    Settles n 1 (statement width depth) (statement width' depth')
  branch : ∀ {n width width' depth : Nat} (mark : Mark), n ≤ width → n ≤ width' →
    12 * n + 12 ≤ depth' → Settles n 1 (branch width mark depth) (branch width' mark depth')
  forLoop : ∀ {n width width' depth : Nat} (mark : Mark), n ≤ width → n ≤ width' →
    12 * n + 12 ≤ depth' → Settles n 1 (forLoop width mark depth) (forLoop width' mark depth')
  whileLoop : ∀ {n width width' depth : Nat} (mark : Mark), n ≤ width → n ≤ width' →
    12 * n + 12 ≤ depth' → Settles n 1 (whileLoop width mark depth) (whileLoop width' mark depth')

lemma settles_block (ih : StatementsSettle depth') (terminators : List String) (hw : n ≤ width)
    (hw' : n ≤ width') (hd : 12 * n + 13 ≤ depth' + 1) :
    Settles n 0 (block width terminators depth) (block width' terminators (depth' + 1)) := by
  refine settles_of_succ (fun depth => ?_) rfl
  rw [block, block]
  exact (ih.statement hw hw' (by omega)).statementsUntil _ (by omega) (by omega)

lemma settles_statement (ih : StatementsSettle depth') (hw : n ≤ width) (hw' : n ≤ width')
    (hd : 12 * n + 12 ≤ depth' + 1) :
    Settles n 1 (statement width depth) (statement width' (depth' + 1)) := by
  refine settles_of_succ (fun depth => ?_) rfl
  rw [statement, statement]
  refine settles_here.bind₀ fun mark => ?_
  refine settles_acceptText (fun m hm => ?_) ?_ le_rfl
  · exact (settles_declaration mark (by omega) (by omega) (by omega)).slack
  refine settles_acceptText (fun m hm => ?_) ?_ le_rfl
  · exact (ih.branch mark (by omega) (by omega) (by omega)).slack
  refine settles_acceptText (fun m hm => ?_) ?_ le_rfl
  · exact (ih.forLoop mark (by omega) (by omega) (by omega)).slack
  refine settles_acceptText (fun m hm => ?_) ?_ le_rfl
  · exact (ih.whileLoop mark (by omega) (by omega) (by omega)).slack
  refine settles_acceptText (fun m hm => ?_) ?_ le_rfl
  · exact (settles_giveBack mark (by omega) (by omega) (by omega)).slack
  exact settles_simpleStatement hw hw' (by omega)

lemma settles_branch (ih : StatementsSettle depth') (mark : Mark) (hw : n ≤ width)
    (hw' : n ≤ width') (hd : 12 * n + 12 ≤ depth' + 1) :
    Settles n 1 (branch width mark depth) (branch width' mark (depth' + 1)) := by
  have he := expressionsSettle depth'
  refine settles_of_succ (fun depth => ?_) rfl
  rw [branch, branch]
  refine (he.expression hw hw' (by omega)).bind₁ fun condition m hm => ?_
  refine (settles_take.bind₁ fun _ m' hm' => ?_).slack
  refine (ih.block _ (by omega) (by omega) (by omega)).bind₀ fun thenBody => ?_
  refine settles_acceptText (fun m'' hm'' => ?_) ?_ (by decide)
  · exact (ih.block _ (by omega) (by omega) (by omega)).bind₀ fun elseBody =>
      (settles_last fun _ => _).slack
  · exact (settles_pure []).bind₀ fun elseBody => (settles_last fun _ => _).slack

lemma settles_forLoop (ih : StatementsSettle depth') (mark : Mark) (hw : n ≤ width)
    (hw' : n ≤ width') (hd : 12 * n + 12 ≤ depth' + 1) :
    Settles n 1 (forLoop width mark depth) (forLoop width' mark (depth' + 1)) := by
  have he := expressionsSettle depth'
  refine settles_of_succ (fun depth => ?_) rfl
  rw [forLoop, forLoop]
  refine settles_take.bind₁ fun _ m hm => ?_
  refine (settles_initializer (by omega) (by omega) (by omega)).slack.bind₀ fun first => ?_
  refine settles_peekText.bind₀ fun noCondition => ?_
  refine Settles.iteBind (settles_pure _) (he.expression (by omega) (by omega) (by omega)).slack
    fun condition => (settles_take.bind₁ fun _ m' hm' => ?_).slack
  refine settles_peekText.bind₀ fun noIncrement => ?_
  refine Settles.iteBind (settles_pure _)
    (settles_increment (by omega) (by omega) (by omega)).slack fun last => ?_
  refine (settles_take.bind₁ fun _ k hk => (settles_take.bind₁ fun _ k' hk' => ?_).slack).slack
  exact (ih.block _ (by omega) (by omega) (by omega)).bind₀ fun body =>
    (settles_last fun _ => _).slack

lemma settles_whileLoop (ih : StatementsSettle depth') (mark : Mark) (hw : n ≤ width)
    (hw' : n ≤ width') (hd : 12 * n + 12 ≤ depth' + 1) :
    Settles n 1 (whileLoop width mark depth) (whileLoop width' mark (depth' + 1)) := by
  have he := expressionsSettle depth'
  refine settles_of_succ (fun depth => ?_) rfl
  rw [whileLoop, whileLoop]
  refine (he.expression hw hw' (by omega)).bind₁ fun condition m hm => ?_
  refine (settles_take.bind₁ fun _ m' hm' => ?_).slack
  exact (ih.block _ (by omega) (by omega) (by omega)).bind₀ fun body =>
    (settles_last fun _ => _).slack

/-- The parsers of statements settle at every depth that is enough for the tokens. -/
lemma statementsSettle (depth' : Nat) : StatementsSettle depth' := by
  induction depth' with
  | zero => constructor <;> intros <;> omega
  | succ depth' ih =>
    exact ⟨settles_block ih, settles_statement ih, settles_branch ih, settles_forLoop ih,
      settles_whileLoop ih⟩

end

/-! ### Programs -/

section

variable {width width' depth depth' : Nat}

lemma settles_field (mark : Mark) (hw : n ≤ width) (hw' : n ≤ width') (hd : 12 * n + 12 ≤ depth') :
    Settles n 0 (field width mark depth) (field width' mark depth') := by
  obtain ⟨depth', rfl⟩ : ∃ d, depth' = d + 1 := ⟨depth' - 1, by omega⟩
  have he := expressionsSettle depth'
  refine settles_of_succ (fun depth => ?_) rfl
  refine settles_optional fun constant => ?_
  refine (settles_take.bind₁ fun name m hm => settles_nameAfter.bind₀ fun typeName => ?_).slack
  refine (Settles.partAfter fun m' hm' => ?_).bind₀ fun value => (settles_last fun _ => _).slack
  exact (he.expression (by omega) (by omega) (by omega)).slack

lemma settles_parameter : Settles n 1 parameter parameter :=
  settles_take.bind₁ fun _ _ _ => settles_nameAfter.bind₀ fun _ => settles_pure _

lemma settles_method (mark : Mark) (hw : n ≤ width) (hw' : n ≤ width')
    (hd : 12 * n + 12 ≤ depth') :
    Settles n 0 (method width mark depth) (method width' mark depth') := by
  obtain ⟨depth', rfl⟩ : ∃ d, depth' = d + 1 := ⟨depth' - 1, by omega⟩
  refine settles_of_succ (fun depth => ?_) rfl
  refine (settles_take.bind₁ fun name m hm => (settles_take.bind₁ fun _ m' hm' => ?_).slack).slack
  refine settles_peekText.bind₀ fun closes => ?_
  have hparameters : Settles m' 1 (commaList parameter width) (commaList parameter width') :=
    settles_parameter.commaList (by omega) (by omega)
  refine Settles.iteBind (settles_pure []) hparameters.slack fun parameters => ?_
  refine (settles_take.bind₁ fun _ k hk => settles_nameAfter.bind₀ fun returnType => ?_).slack
  refine (settles_take.bind₁ fun _ k' hk' => ?_).slack
  have hbody : Settles k' 0 (block width ["END"] depth) (block width' ["END"] depth') :=
    (statementsSettle depth').block ["END"] (by omega) (by omega) (by omega)
  exact hbody.bind₀ fun body => (settles_last fun _ => _).slack

/-- The parser of programs settles where the second has the depth for the tokens. -/
theorem settles_program (hw : n ≤ width) (hw' : n ≤ width') (hd : 12 * n ≤ depth') :
    Settles n 0 (program width depth) (program width' depth') := by
  refine settles_here.bind₀ fun mark => ?_
  refine (Settles.declarations _ (fun mark m hm => ?_) hw hw').bind₀ fun fields => ?_
  · exact settles_field mark (by omega) (by omega) (by omega)
  refine (Settles.declarations _ (fun mark m hm => ?_) hw hw').bind₀ fun methods => ?_
  · exact settles_method mark (by omega) (by omega) (by omega)
  refine settles_get fun ts hts => ?_
  cases ts with
  | nil => exact settles_pure _ [] hts
  | cons t rest => exact settlesOn_error (e := .fault (.unexpected .topLevel t)) rfl rfl nofun

/-- With the depth for the tokens, the rules are not nested too deeply. -/
lemma run_program_ne_tooDeep (hw : ts.length ≤ width) (hd : 12 * ts.length ≤ depth) :
    (program width depth).run ts ≠ .error .tooDeep := by
  have h : Settles ts.length 0 (program width depth) (program width depth) :=
    settles_program hw hw hd
  exact (h ts le_rfl).shallow

/-- Tokens have one outcome at all limits that are enough for them. -/
lemma run_program_eq (hw : ts.length ≤ width) (hw' : ts.length ≤ width')
    (hd : 12 * ts.length ≤ depth) (hd' : 12 * ts.length ≤ depth') :
    (program width depth).run ts = (program width' depth').run ts :=
  (settles_program hw hw' hd' ts le_rfl).same.resolve_left (run_program_ne_tooDeep hw hd)

end

end LetDef.Parser
