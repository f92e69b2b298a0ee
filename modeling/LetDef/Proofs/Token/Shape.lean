import LetDef.Token.Scan
import Mathlib.Tactic.Common

/-!
# The shapes of tokens

`Shape` says which texts are tokens of a kind, and `Bounded` what may not follow one. A lexeme that
is read is the start of the text, has the shape of its kind and is bounded by what follows it.
-/

namespace LetDef

/-- A kind of token and a text. -/
abbrev Word := Token.Kind × String

namespace Token

/-- A token without its place. -/
def word (t : Token) : Word := (t.kind, t.lexeme)

/-! ### Shapes -/

/-- Nothing, or one sign. -/
inductive SignPart : List Char → Prop
  | none : SignPart []
  | sign {c : Char} (hc : isSign c = true) : SignPart [c]

/-- Digits, at least one, of which the first is not a redundant zero. -/
structure WholePart (ds : List Char) : Prop where
  ne_nil : ds ≠ []
  digits : ∀ c ∈ ds, isDigit c = true
  no_redundant_zero : ∀ d rest, ds ≠ '0' :: d :: rest

/-- Digits, at least one. -/
structure FractionPart (ds : List Char) : Prop where
  ne_nil : ds ≠ []
  digits : ∀ c ∈ ds, isDigit c = true

/-- The body of a literal between two quotes, and the characters that it stands for. -/
inductive Spells (quote : Char) : List Char → List Char → Prop
  | nil : Spells quote [] []
  | plain {c : Char} {body cs : List Char} (hq : c ≠ quote) (hb : c ≠ '\\')
      (hl : isLineEnd c = false) (h : Spells quote body cs) : Spells quote (c :: body) (c :: cs)
  | escape {e c : Char} {body cs : List Char} (he : unescape? e = some c)
      (h : Spells quote body cs) : Spells quote ('\\' :: e :: body) (c :: cs)

/-- The texts that are tokens of a kind. -/
inductive Shape : Kind → List Char → Prop
  | identifier {c : Char} {cs : List Char} (hc : isNameStart c = true)
      (hcs : ∀ d ∈ cs, isNamePart d = true) : Shape .identifier (c :: cs)
  | integer {sign ds : List Char} (hs : SignPart sign) (hd : WholePart ds) :
      Shape .integer (sign ++ ds)
  | decimal {sign ds fs : List Char} (hs : SignPart sign) (hd : WholePart ds)
      (hf : FractionPart fs) : Shape .decimal (sign ++ ds ++ '.' :: fs)
  | character {body : List Char} {c : Char} (h : Spells '\'' body [c]) :
      Shape .character ('\'' :: body ++ ['\''])
  | string {body cs : List Char} (h : Spells '"' body cs) : Shape .string ('"' :: body ++ ['"'])
  | operator {s : String} (h : s ∈ operators) : Shape .operator s.toList

/-- What may not stand behind a token, for the token would have taken it too. -/
def Bounded : Kind → List Char → List Char → Prop
  | .identifier, _, rest => ∀ c ∈ rest.head?, isNamePart c = false
  | .integer, _, rest => ∀ c ∈ rest.head?, isDigit c = false ∧ c ≠ '.'
  | .decimal, _, rest => ∀ c ∈ rest.head?, isDigit c = false
  | .operator, lexeme, rest =>
    (lexeme = ['+'] ∨ lexeme = ['-'] → ∀ c ∈ rest.head?, isDigit c = false) ∧
    (lexeme = ['='] ∨ lexeme = ['!'] ∨ lexeme = ['<'] ∨ lexeme = ['>'] →
      ∀ c ∈ rest.head?, c ≠ '=')
  | .character, _, _ => True
  | .string, _, _ => True

/-- A digit or a quote, one of which every literal has and no word or sign. -/
def isLiteralMark (c : Char) : Bool :=
  isDigit c || c = '\'' || c = '"'

lemma WholePart.literalMark {ds : List Char} (h : WholePart ds) :
    ∃ c ∈ ds, isLiteralMark c = true := by
  obtain ⟨c, hc⟩ := List.exists_mem_of_ne_nil ds h.ne_nil
  exact ⟨c, hc, by simp [isLiteralMark, h.digits c hc]⟩

/-- A token without a digit or a quote is an identifier or an operator. -/
lemma Shape.literalMark {kind : Kind} {cs : List Char} (h : Shape kind cs)
    (hi : kind ≠ .identifier) (ho : kind ≠ .operator) : ∃ c ∈ cs, isLiteralMark c = true := by
  cases h with
  | identifier hc hcs => exact absurd rfl hi
  | @integer sign ds hs hd =>
    obtain ⟨c, hc, hmark⟩ := hd.literalMark
    exact ⟨c, List.mem_append_right sign hc, hmark⟩
  | @decimal sign ds fs hs hd hf =>
    obtain ⟨c, hc, hmark⟩ := hd.literalMark
    exact ⟨c, List.mem_append_left _ (List.mem_append_right sign hc), hmark⟩
  | character h => exact ⟨'\'', by simp, rfl⟩
  | string h => exact ⟨'"', by simp, rfl⟩
  | operator h => exact absurd rfl ho

/-! ### Digits and signs -/

lemma isDigit_iff {c : Char} : isDigit c = true ↔ '0' ≤ c ∧ c ≤ '9' := by
  simp [isDigit]

lemma not_isDigit_of_isSign {c : Char} (h : isSign c = true) : isDigit c = false := by
  simp only [isSign, Bool.or_eq_true, decide_eq_true_eq] at h
  rcases h with rfl | rfl <;> decide

lemma not_isSign_of_isDigit {c : Char} (h : isDigit c = true) : isSign c = false := by
  by_contra hc
  rw [Bool.not_eq_false] at hc
  rw [not_isDigit_of_isSign hc] at h
  cases h

/-- What is left behind the leading characters of a class does not start with one of the class. -/
lemma head?_dropWhile_not {p : Char → Bool} {cs : List Char} :
    ∀ c ∈ (cs.dropWhile p).head?, p c = false := by
  intro c hc
  have h := List.head?_dropWhile_not p cs
  rw [Option.mem_def.mp hc] at h
  simpa using h

lemma takeWhile_append_of_head {p : Char → Bool} {cs rest : List Char}
    (hcs : ∀ c ∈ cs, p c = true) (hrest : ∀ c ∈ rest.head?, p c = false) :
    (cs ++ rest).takeWhile p = cs := by
  rw [List.takeWhile_append_of_pos hcs]
  have hstop : rest.takeWhile p = [] := by
    cases rest with
    | nil => rfl
    | cons c cs => simp [hrest c (by simp)]
  rw [hstop, List.append_nil]

lemma dropWhile_append_of_head {p : Char → Bool} {cs rest : List Char}
    (hcs : ∀ c ∈ cs, p c = true) (hrest : ∀ c ∈ rest.head?, p c = false) :
    (cs ++ rest).dropWhile p = rest := by
  rw [List.dropWhile_append_of_pos hcs]
  cases rest with
  | nil => rfl
  | cons c cs => simp [hrest c (by simp)]

/-- The sign part of a text and the rest make up the text. -/
lemma splitSign_spec (cs : List Char) :
    SignPart (splitSign cs).1 ∧ (splitSign cs).1 ++ (splitSign cs).2 = cs := by
  cases cs with
  | nil => exact ⟨.none, rfl⟩
  | cons c cs =>
    rw [splitSign]
    split
    · next hc => exact ⟨.sign hc, rfl⟩
    · exact ⟨.none, rfl⟩

lemma splitSign_append {sign ds : List Char} (hs : SignPart sign)
    (hds : ∀ c ∈ ds.head?, isSign c = false) : splitSign (sign ++ ds) = (sign, ds) := by
  cases hs with
  | none =>
    cases ds with
    | nil => rfl
    | cons d ds => simp [splitSign, hds d (by simp)]
  | sign hc => simp [splitSign, hc]

/-! ### What is read has a shape -/

/-- A text starts with a token of the kind: shaped as such, and bounded by what follows it. -/
structure Reads (text : List Char) (kind : Kind) (lexeme : List Char) : Prop where
  shape : Shape kind lexeme
  split : ∃ rest, text = lexeme ++ rest ∧ Bounded kind lexeme rest

lemma readNumber_reads {cs lexeme : List Char} {kind : Kind}
    (hdigit : ∃ d ∈ (splitSign cs).2.head?, isDigit d = true)
    (h : readNumber cs = .ok (kind, lexeme)) : Reads cs kind lexeme := by
  obtain ⟨hsign, hcs⟩ := splitSign_spec cs
  unfold readNumber at h
  rcases hsplit : splitSign cs with ⟨sign, body⟩
  rw [hsplit] at h hdigit hsign hcs
  simp only at h hdigit hsign hcs
  have hbody : body.takeWhile isDigit ++ body.dropWhile isDigit = body :=
    List.takeWhile_append_dropWhile
  obtain ⟨d, hd, hdd⟩ := hdigit
  have hwhole : body.takeWhile isDigit ≠ [] := by
    cases body with
    | nil => simp at hd
    | cons e body =>
      obtain rfl : e = d := by simpa using hd
      simp [hdd]
  have hdigits : ∀ c ∈ body.takeWhile isDigit, isDigit c = true :=
    fun c hc => List.all_eq_true.mp (List.all_takeWhile) c hc
  split at h
  · cases h
  · next hzero =>
    have hw : WholePart (body.takeWhile isDigit) :=
      ⟨hwhole, hdigits, fun d rest => hzero d rest⟩
    split at h
    · next rest hrest =>
      have hsplit : rest.takeWhile isDigit ++ rest.dropWhile isDigit = rest :=
        List.takeWhile_append_dropWhile
      split at h
      · cases h
      · next hfraction =>
        cases h
        refine ⟨.decimal hsign hw ⟨hfraction, ?_⟩, rest.dropWhile isDigit, ?_, head?_dropWhile_not⟩
        · exact fun c hc => List.all_eq_true.mp (List.all_takeWhile) c hc
        · rw [← hcs]
          conv_lhs => rw [← hbody, hrest, ← hsplit]
          simp
    · next hpoint =>
      cases h
      refine ⟨.integer hsign hw, body.dropWhile isDigit, ?_, ?_⟩
      · rw [List.append_assoc, hbody, hcs]
      · intro c hc
        refine ⟨head?_dropWhile_not c hc, ?_⟩
        rintro rfl
        obtain ⟨tail, htail⟩ := List.head?_eq_some_iff.mp hc
        exact hpoint tail htail

lemma readItem_spells {cs item : List Char} (h : readItem cs = .ok item) :
    (∃ c, Spells '\'' item [c]) ∧ ∃ rest, cs = item ++ rest := by
  cases cs with
  | nil => cases h
  | cons c cs =>
    rw [readItem] at h
    split at h
    · next hc =>
      subst hc
      cases cs with
      | nil => cases h
      | cons e cs =>
        rw [readEscape] at h
        split at h
        · next he =>
          obtain ⟨d, hd⟩ := Option.isSome_iff_exists.mp he
          cases h
          exact ⟨⟨d, .escape hd .nil⟩, cs, rfl⟩
        · cases h
    · next hb =>
      split at h
      · cases h
      · next hc =>
        rw [Bool.or_eq_true, not_or, decide_eq_true_eq, Bool.not_eq_true] at hc
        cases h
        exact ⟨⟨c, .plain hc.1 hb hc.2 .nil⟩, cs, rfl⟩

lemma readCharacter_reads {cs lexeme : List Char} (h : readCharacter cs = .ok lexeme) :
    Reads ('\'' :: cs) .character lexeme := by
  rw [readCharacter] at h
  cases hitem : readItem cs with
  | error e => rw [hitem] at h; cases h
  | ok item =>
    obtain ⟨⟨c, hc⟩, rest, rfl⟩ := readItem_spells hitem
    simp only [hitem, bind, Except.bind, List.drop_left] at h
    split at h
    · next tail =>
      cases h
      exact ⟨.character hc, tail, by simp, trivial⟩
    · cases h

lemma readStringRest_spells {cs lexeme : List Char} {skipped : Nat}
    (h : readStringRest skipped cs = .ok lexeme) :
    ∃ body ds rest, lexeme = body ++ ['"'] ∧ Spells '"' body ds ∧ cs = lexeme ++ rest := by
  -- The cases of the reader: the end of the text, the closing quote, escapes, line breaks and other
  -- characters.
  fun_induction readStringRest skipped cs generalizing lexeme with
  | case1 skipped => cases h
  | case2 skipped tail =>
    cases h
    exact ⟨[], [], tail, rfl, .nil, rfl⟩
  | case3 skipped => cases h
  | case4 skipped c cs hc ih =>
    cases hrest : readStringRest (skipped + 2) cs with
    | error e => rw [hrest] at h; cases h
    | ok rest =>
      rw [hrest] at h
      obtain ⟨body, ds, tail, rfl, hbody, rfl⟩ := ih hrest
      obtain ⟨d, hd⟩ := Option.isSome_iff_exists.mp hc
      cases h
      exact ⟨'\\' :: c :: body, d :: ds, tail, rfl, .escape hd hbody, by simp⟩
  | case5 skipped c cs hc => cases h
  | case6 skipped c cs hq hb hb' hl => cases h
  | case7 skipped c cs hq hb hb' hl ih =>
    have hback : c ≠ '\\' := by
      intro hc
      cases cs with
      | nil => exact hb hc rfl
      | cons d cs => exact hb' d cs hc rfl
    cases hrest : readStringRest (skipped + 1) cs with
    | error e => rw [hrest] at h; cases h
    | ok rest =>
      rw [hrest] at h
      obtain ⟨body, ds, tail, rfl, hbody, rfl⟩ := ih hrest
      cases h
      exact ⟨c :: body, c :: ds, tail, rfl, .plain hq hback (Bool.not_eq_true _ ▸ hl) hbody,
        by simp⟩

/-- An operator that starts a longer one is read only where the longer one does not stand. -/
lemma readOperator_maximal {cs rest lexeme : List Char} (h : readOperator cs = some lexeme)
    (hcs : cs = lexeme ++ rest)
    (hl : lexeme = ['='] ∨ lexeme = ['!'] ∨ lexeme = ['<'] ∨ lexeme = ['>']) :
    ∀ c ∈ rest.head?, c ≠ '=' := by
  rintro c hc rfl
  obtain ⟨tail, rfl⟩ := List.head?_eq_some_iff.mp hc
  rcases hl with rfl | rfl | rfl | rfl <;> (subst hcs; cases h)

lemma readOperator_reads {c : Char} {cs lexeme : List Char}
    (hsign : isSign c = true → ∀ d ∈ cs.head?, isDigit d = false)
    (h : readOperator (c :: cs) = some lexeme) : Reads (c :: cs) .operator lexeme := by
  obtain ⟨s, hs, rfl⟩ := List.mem_map.mp (List.mem_of_find?_eq_some h)
  have hstart := List.find?_some h
  obtain ⟨rest, hrest⟩ := List.isPrefixOf_iff_prefix.mp hstart
  refine ⟨.operator hs, rest, hrest.symm, ?_, readOperator_maximal h hrest.symm⟩
  intro hl
  have hc : isSign c = true ∧ rest = cs := by
    rcases hl with hl | hl <;> rw [hl] at hrest <;> cases hrest <;> exact ⟨rfl, rfl⟩
  rw [hc.2]
  exact hsign hc.1

/-- A lexeme that is read has the shape of its kind, starts the text and ends where it must. -/
theorem readLexeme_reads {c : Char} {cs lexeme : List Char} {kind : Kind}
    (h : readLexeme c cs = .ok (kind, lexeme)) : Reads (c :: cs) kind lexeme := by
  unfold readLexeme at h
  split at h
  -- The cases are tried in the order of the reader: a name, a number, a character, a string and at
  -- last an operator.
  · next hc =>
    cases h
    refine ⟨.identifier hc fun d hd => ?_, cs.dropWhile isNamePart, ?_, head?_dropWhile_not⟩
    · exact List.all_eq_true.mp (List.all_takeWhile) d hd
    · rw [List.cons_append, List.takeWhile_append_dropWhile]
  · split at h
    · next hnumber =>
      refine readNumber_reads ?_ h
      rw [Bool.or_eq_true, Bool.and_eq_true] at hnumber
      rcases hnumber with hd | ⟨hs, hd⟩
      · simp only [splitSign, not_isSign_of_isDigit hd]
        exact ⟨c, rfl, hd⟩
      · simp only [splitSign, hs]
        cases cs with
        | nil => cases hd
        | cons d cs => exact ⟨d, rfl, hd⟩
    · next hnumber =>
      split at h
      · next hq =>
        subst hq
        cases hread : readCharacter cs with
        | error e => rw [hread] at h; cases h
        | ok lexeme =>
          rw [hread] at h
          cases h
          exact readCharacter_reads hread
      · split at h
        · next hq =>
          subst hq
          cases hread : readStringRest 1 cs with
          | error e => rw [hread] at h; cases h
          | ok lexeme =>
            rw [hread] at h
            cases h
            obtain ⟨body, ds, rest, rfl, hbody, rfl⟩ := readStringRest_spells hread
            exact ⟨.string hbody, rest, by simp, trivial⟩
        · split at h
          · next lexeme hread =>
            cases h
            refine readOperator_reads ?_ hread
            -- A sign before a digit would have been read as a number.
            intro hs d hd
            by_contra hdigit
            rw [Bool.not_eq_false] at hdigit
            apply hnumber
            rw [Option.mem_def.mp hd, hs]
            simp [hdigit]
          · cases h

/-- Every token of a text that is scanned has the shape of its kind. -/
theorem scanFrom_shape {p : Position} {skip : Nat} {cs : List Char} {tokens : List Token}
    (h : scanFrom p skip cs = .ok tokens) : ∀ t ∈ tokens, Shape t.kind t.lexeme.toList := by
  fun_induction scanFrom p skip cs generalizing tokens with
  | case1 p skip =>
    cases h
    simp
  | case2 p c cs skip ih => exact ih h
  | case3 p c cs hblank ih => exact ih h
  | case4 p c cs hblank e hread => cases h
  | case5 p c cs hblank kind lexeme hread e hrest ih => cases h
  | case6 p c cs hblank kind lexeme hread rest hrest ih =>
    cases h
    intro t ht
    rcases List.mem_cons.mp ht with rfl | ht
    · rw [String.toList_ofList]
      exact (readLexeme_reads hread).shape
    · exact ih hrest t ht

theorem scan_shape {file source : String} {tokens : List Token}
    (h : scan file source = .ok tokens) : ∀ t ∈ tokens, Shape t.kind t.lexeme.toList :=
  scanFrom_shape h

end Token

end LetDef
