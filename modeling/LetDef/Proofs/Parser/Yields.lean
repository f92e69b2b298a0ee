import LetDef.Parser.Program
import Mathlib.Tactic.Common

/-!
# What a parser reads

`Yields p ts a rest` says that the parser `p` reads `a` from the tokens `ts` and leaves `rest`. Each
way to build a parser has a rule here that says exactly what it yields, so that the grammar's rules
can be compared with the parsers without running them.
-/

namespace LetDef.Parser

/-- The parser reads `a` from `ts` and leaves `rest`. -/
def Yields {α : Type} (p : Parse α) (ts : List Token) (a : α) (rest : List Token) : Prop :=
  p.run ts = .ok (a, rest)

variable {α β : Type} {ts us rest : List Token} {t : Token} {s : String}

/-! ### Combinators -/

lemma yields_pure {a b : α} : Yields (pure a) ts b rest ↔ b = a ∧ rest = ts := by
  constructor
  · intro h
    cases h
    exact ⟨rfl, rfl⟩
  · rintro ⟨rfl, rfl⟩
    rfl

lemma yields_bind {p : Parse α} {f : α → Parse β} {b : β} :
    Yields (p >>= f) ts b rest ↔ ∃ a us, Yields p ts a us ∧ Yields (f a) us b rest := by
  unfold Yields
  rw [StateT.run_bind]
  cases h : p.run ts with
  | error e =>
    constructor
    · intro h'
      cases h'
    · rintro ⟨a, us, h', _⟩
      cases h'
  | ok r =>
    constructor
    · intro h'
      exact ⟨r.1, r.2, rfl, h'⟩
    · rintro ⟨a, us, h', hf⟩
      cases h'
      exact hf

lemma run_bind_ok {p : Parse α} {f : α → Parse β} {a : α} (h : p.run ts = .ok (a, us)) :
    (p >>= f).run ts = (f a).run us := by
  rw [StateT.run_bind, h]
  rfl

lemma run_bind_error {p : Parse α} {f : α → Parse β} {e : Halt} (h : p.run ts = .error e) :
    (p >>= f).run ts = .error e := by
  rw [StateT.run_bind, h]
  rfl

/-- A result that is changed is an error only where it was this error before. -/
lemma eq_error_of_map {ε : Type} {e : ε} {x : Except ε α} {f : α → β} (h : x.map f = .error e) :
    x = .error e := by
  cases x with
  | ok a => cases h
  | error e' =>
    cases h
    rfl

lemma not_yields_fail {f : Fault} {a : α} : ¬ Yields (fail f) ts a rest := by
  intro h
  cases h

lemma not_yields_tooDeep {a : α} : ¬ Yields tooDeep ts a rest := by
  intro h
  cases h

lemma not_yields_throw {e : Halt} {a : α} : ¬ Yields (throw e) ts a rest := by
  intro h
  cases h

lemma not_yields_miss {slot : Slot} {a : α} : ¬ Yields (miss slot) ts a rest := by
  intro h
  cases ts <;> cases h

lemma yields_get {a : List Token} : Yields get ts a rest ↔ a = ts ∧ rest = ts := by
  constructor
  · intro h
    cases h
    exact ⟨rfl, rfl⟩
  · rintro ⟨rfl, rfl⟩
    rfl

lemma yields_set {a : PUnit} : Yields (set us) ts a rest ↔ rest = us := by
  constructor
  · intro h
    cases h
    rfl
  · rintro rfl
    rfl

/-! ### Single tokens -/

/-- Takes the next token if it passes the test. -/
def acceptWhere (p : Token → Bool) : Parse (Option Token) := do
  match ← get with
  | [] => pure none
  | t :: rest => if p t then set rest; pure (some t) else pure none

lemma run_acceptWhere_fit {p : Token → Bool} (h : p t = true) :
    (acceptWhere p).run (t :: ts) = .ok (some t, ts) := by
  simp [acceptWhere, h]
  rfl

lemma run_acceptWhere_unfit {p : Token → Bool} (h : p t = false) :
    (acceptWhere p).run (t :: ts) = .ok (none, t :: ts) := by
  simp [acceptWhere, h]
  rfl

lemma yields_acceptWhere {p : Token → Bool} {o : Option Token} :
    Yields (acceptWhere p) ts o rest ↔
      (∃ t, ts = t :: rest ∧ p t = true ∧ o = some t) ∨
      ((∀ t ∈ ts.head?, p t = false) ∧ o = none ∧ rest = ts) := by
  cases ts with
  | nil =>
    constructor
    · intro h
      cases h
      exact .inr ⟨by simp, rfl, rfl⟩
    · rintro (⟨t, h, _⟩ | ⟨_, rfl, rfl⟩)
      · cases h
      · rfl
  | cons t ts =>
    cases hfit : p t with
    | true =>
      unfold Yields
      rw [run_acceptWhere_fit hfit]
      constructor
      · intro h
        cases h
        exact .inl ⟨t, rfl, hfit, rfl⟩
      · rintro (⟨u, h, _, rfl⟩ | ⟨h, _⟩)
        · cases h
          rfl
        · rw [h t rfl] at hfit
          cases hfit
    | false =>
      unfold Yields
      rw [run_acceptWhere_unfit hfit]
      constructor
      · intro h
        cases h
        refine .inr ⟨?_, rfl, rfl⟩
        intro u hu
        cases hu
        exact hfit
      · rintro (⟨u, h, hu, _⟩ | ⟨_, rfl, rfl⟩)
        · cases h
          rw [hfit] at hu
          cases hu
        · rfl

lemma yields_accept? {p : Pattern} {o : Option Token} :
    Yields (accept? p) ts o rest ↔
      (∃ t, ts = t :: rest ∧ p.fits t = true ∧ o = some t) ∨
      ((∀ t ∈ ts.head?, p.fits t = false) ∧ o = none ∧ rest = ts) :=
  yields_acceptWhere

lemma yields_acceptOperator? {ops : List String} {o : Option Token} :
    Yields (acceptOperator? ops) ts o rest ↔
      (∃ t, ts = t :: rest ∧ t.lexeme ∈ ops ∧ o = some t) ∨
      ((∀ t ∈ ts.head?, t.lexeme ∉ ops) ∧ o = none ∧ rest = ts) := by
  have h : Yields (acceptOperator? ops) ts o rest ↔ _ := yields_acceptWhere
  rw [h]
  simp only [List.contains_iff_mem, Bool.eq_false_iff, ne_eq]

lemma fits_text : (Pattern.text s).fits t = true ↔ t.lexeme = s := by
  simp [Pattern.fits]

lemma fits_kind {k : Token.Kind} : (Pattern.kind k).fits t = true ↔ t.kind = k := by
  simp [Pattern.fits]

lemma yields_acceptText {b : Bool} :
    Yields (acceptText s) ts b rest ↔
      (∃ t, ts = t :: rest ∧ t.lexeme = s ∧ b = true) ∨
      ((∀ t ∈ ts.head?, t.lexeme ≠ s) ∧ b = false ∧ rest = ts) := by
  unfold acceptText
  simp only [yields_bind, yields_accept?, yields_pure]
  constructor
  · rintro ⟨o, us, ⟨t, rfl, hfit, rfl⟩ | ⟨hfit, rfl, rfl⟩, rfl, rfl⟩
    · exact .inl ⟨t, rfl, fits_text.mp hfit, rfl⟩
    · refine .inr ⟨fun t ht hs => ?_, rfl, rfl⟩
      have := hfit t ht
      rw [fits_text.mpr hs] at this
      cases this
  · rintro (⟨t, rfl, hs, rfl⟩ | ⟨hs, rfl, rfl⟩)
    · exact ⟨some t, rest, .inl ⟨t, rfl, fits_text.mpr hs, rfl⟩, rfl, rfl⟩
    · refine ⟨none, rest, .inr ⟨fun t ht => ?_, rfl, rfl⟩, rfl, rfl⟩
      rw [← Bool.not_eq_true, fits_text]
      exact hs t ht

lemma yields_peekText {b : Bool} :
    Yields (peekText s) ts b rest ↔ rest = ts ∧ (b = true ↔ ∃ t ∈ ts.head?, t.lexeme = s) := by
  cases ts with
  | nil =>
    constructor
    · intro h
      cases h
      exact ⟨rfl, by simp⟩
    · rintro ⟨rfl, h⟩
      have hb : b = false := by simpa using h
      rw [hb]
      rfl
  | cons t ts =>
    have hrun : (peekText s).run (t :: ts) = .ok ((Pattern.text s).fits t, t :: ts) := rfl
    unfold Yields
    rw [hrun]
    constructor
    · intro h
      cases h
      exact ⟨rfl, by simp [fits_text]⟩
    · rintro ⟨rfl, h⟩
      have hb : b = (Pattern.text s).fits t := by
        rw [Bool.eq_iff_iff, h, fits_text]
        simp
      rw [hb]

lemma yields_take {slot : Slot} :
    Yields (take slot) ts t rest ↔ ts = t :: rest ∧ slot.pattern.fits t = true := by
  unfold take
  simp only [yields_bind, yields_accept?]
  constructor
  · rintro ⟨o, us, ⟨u, rfl, hfit, rfl⟩ | ⟨_, rfl, rfl⟩, h⟩
    · obtain ⟨rfl, rfl⟩ := yields_pure.mp h
      exact ⟨rfl, hfit⟩
    · exact absurd h not_yields_miss
  · rintro ⟨rfl, hfit⟩
    exact ⟨some t, rest, .inl ⟨t, rfl, hfit, rfl⟩, yields_pure.mpr ⟨rfl, rfl⟩⟩

/-- The mark of the first of some tokens. -/
def firstMark : List Token → Mark
  | [] => {}
  | t :: _ => markOf t

lemma yields_here {m : Mark} : Yields here ts m rest ↔ m = firstMark ts ∧ rest = ts := by
  cases ts <;>
  · constructor
    · intro h
      cases h
      exact ⟨rfl, rfl⟩
    · rintro ⟨rfl, rfl⟩
      rfl

end LetDef.Parser
