import LetDef.Text.Quoted
import Mathlib.Algebra.Group.Nat.Defs
import Mathlib.Tactic.Common

/-!
# Quoted text can be read back

A quoted text tells where it ends: after it any other text may follow, and both can still be told
apart. It is read character by character, where a backslash and what comes behind it stand for one.
-/

namespace LetDef.Text

variable {α : Type} {q c : Char} {r : List Char} {n width : Nat}

/-- Of two texts that begin with something written this way, the same was written if the texts are
the same, and the same comes behind it. -/
def SelfDelimiting (write : α → List Char) : Prop :=
  ∀ ⦃a b r s⦄, write a ++ r = write b ++ s → a = b ∧ r = s

lemma SelfDelimiting.injective {write : α → List Char} (h : SelfDelimiting write) :
    Function.Injective write := by
  intro a b hab
  exact (h (congrArg (· ++ []) hab)).1

/-- A text that has no `c` ends before the first one. -/
lemma append_cons_inj {xs ys r s : List Char} (hx : c ∉ xs) (hy : c ∉ ys)
    (h : xs ++ c :: r = ys ++ c :: s) : xs = ys ∧ r = s := by
  induction xs generalizing ys with
  | nil =>
    cases ys with
    | nil => exact ⟨rfl, (List.cons.inj h).2⟩
    | cons y ys => exact absurd (List.cons.inj h).1 (List.ne_of_not_mem_cons hy)
  | cons x xs ih =>
    cases ys with
    | nil => exact absurd (List.cons.inj h).1.symm (List.ne_of_not_mem_cons hx)
    | cons y ys =>
      obtain ⟨rfl, hrest⟩ := List.cons.inj h
      obtain ⟨rfl, hr⟩ :=
        ih (List.not_mem_of_not_mem_cons hx) (List.not_mem_of_not_mem_cons hy) hrest
      exact ⟨rfl, hr⟩

/-! ### Hexadecimal digits -/

/-- The last `width` hexadecimal digits of a number. -/
def hexPadded : Nat → Nat → List Char
  | 0, _ => []
  | width + 1, n => hexPadded width (n / 16) ++ [Nat.digitChar (n % 16)]

/-- The number that a hexadecimal digit stands for. -/
def hexDigitValue (c : Char) : Nat :=
  ((List.range 16).find? (Nat.digitChar · = c)).getD 0

/-- The number that hexadecimal digits stand for. -/
def hexValue (cs : List Char) : Nat :=
  cs.foldl (fun n c => 16 * n + hexDigitValue c) 0

lemma length_hexPadded (width n : Nat) : (hexPadded width n).length = width := by
  induction width generalizing n with
  | zero => rfl
  | succ width ih => rw [hexPadded, List.length_append, ih, List.length_singleton]

lemma hexPadded_zero (width : Nat) : hexPadded width 0 = List.replicate width '0' := by
  induction width with
  | zero => rfl
  | succ width ih => rw [hexPadded, Nat.zero_div, ih, List.replicate_succ']; rfl

lemma hexValue_hexPadded (h : n < 16 ^ width) : hexValue (hexPadded width n) = n := by
  induction width generalizing n with
  | zero =>
    rw [Nat.pow_zero, Nat.lt_one_iff] at h
    rw [h]
    rfl
  | succ width ih =>
    have hdigit : ∀ d < 16, hexDigitValue (Nat.digitChar d) = d := by decide
    have hquotient : n / 16 < 16 ^ width := by
      rw [Nat.div_lt_iff_lt_mul (by decide), ← Nat.pow_succ]
      exact h
    have hfirst := ih hquotient
    unfold hexValue at hfirst ⊢
    rw [hexPadded, List.foldl_append, hfirst, List.foldl_cons, List.foldl_nil,
      hdigit _ (Nat.mod_lt n (by decide))]
    exact Nat.div_add_mod n 16

/-- Digits are padded to the width if there are no more. -/
lemma hexDigits_eq (h : n < 16 ^ (width + 1)) :
    hexDigits (width + 1) n = hexPadded (width + 1) n := by
  induction width generalizing n with
  | zero =>
    have hn : n < 16 := by simpa using h
    rw [hexDigits, Nat.toDigits_of_lt_base hn, hexPadded, Nat.mod_eq_of_lt hn]
    rfl
  | succ width ih =>
    rcases Nat.lt_or_ge n 16 with hn | hn
    · rw [hexDigits, Nat.toDigits_of_lt_base hn, hexPadded, Nat.div_eq_of_lt hn, hexPadded_zero,
        Nat.mod_eq_of_lt hn]
      rfl
    · have hquotient : n / 16 < 16 ^ (width + 1) := by
        rw [Nat.div_lt_iff_lt_mul (by decide), ← Nat.pow_succ]
        exact h
      rw [hexPadded, ← ih hquotient, hexDigits, hexDigits, Nat.toDigits_of_base_le (by decide) hn,
        List.length_append, List.length_singleton, Nat.add_sub_add_right, List.append_assoc]

lemma newline_notMem_hexPadded (width n : Nat) : '\n' ∉ hexPadded width n := by
  have hdigit : ∀ d < 16, Nat.digitChar d ≠ '\n' := by decide
  induction width generalizing n with
  | zero => exact List.not_mem_nil
  | succ width ih =>
    rw [hexPadded, List.mem_append, List.mem_singleton, not_or]
    exact ⟨ih _, (hdigit _ (Nat.mod_lt n (by decide))).symm⟩

/-! ### Characters -/

/-- The character that hexadecimal digits stand for, and what comes behind them. -/
def readHex (width : Nat) (cs : List Char) : Char × List Char :=
  (Char.ofNat (hexValue (cs.take width)), cs.drop width)

/-- The character behind a backslash, and what comes behind its form. -/
def readEscape (e : Char) (r : List Char) : Char × List Char :=
  if e = 'n' then ('\n', r)
  else if e = 'r' then ('\r', r)
  else if e = 't' then ('\t', r)
  else if e = 'x' then readHex 2 r
  else if e = 'u' then readHex 4 r
  else if e = 'U' then readHex 8 r
  else (e, r)

/-- The first character of quoted text, and what comes behind its form. -/
def readChar : List Char → Option (Char × List Char)
  | [] => none
  | c :: r => if c = '\\' then r.head?.map (readEscape · r.tail) else some (c, r)

lemma readHex_hexDigits (hc : c.toNat < 16 ^ (width + 1)) :
    readHex (width + 1) (hexDigits (width + 1) c.toNat ++ r) = (c, r) := by
  rw [hexDigits_eq hc, readHex, List.take_left' (length_hexPadded _ _),
    List.drop_left' (length_hexPadded _ _), hexValue_hexPadded hc, Char.ofNat_toNat]

lemma toNat_lt_hex (c : Char) : c.toNat < 16 ^ 8 :=
  Nat.lt_of_lt_of_le c.val.toNat_lt (by decide)

/-- A character that has a form behind a backslash because of its role is a quote or a backslash. -/
lemma eq_of_enclosing (hq : q = '\'' ∨ q = '"') (h : (c = q || c = '\\') = true) :
    c = '\'' ∨ c = '"' ∨ c = '\\' := by
  rw [Bool.or_eq_true, decide_eq_true_iff, decide_eq_true_iff] at h
  rcases h with rfl | rfl
  · exact hq.imp_right .inl
  · exact .inr (.inr rfl)

/-- A character is read from its form. -/
lemma readChar_quoteChar (hq : q = '\'' ∨ q = '"') (c : Char) (r : List Char) :
    readChar (quoteChar q c ++ r) = some (c, r) := by
  unfold quoteChar
  split_ifs with hself hn hr ht hplain hx hu
  · rcases eq_of_enclosing hq hself with rfl | rfl | rfl <;> rfl
  · subst hn
    rfl
  · subst hr
    rfl
  · subst ht
    rfl
  · have hc : c ≠ '\\' := by
      rintro rfl
      exact hself (by simp)
    exact if_neg hc
  · exact congrArg some (readHex_hexDigits hx)
  · exact congrArg some (readHex_hexDigits hu)
  · exact congrArg some (readHex_hexDigits (toNat_lt_hex c))

/-- The form of a character is the character itself or begins with a backslash. Either way it does
not begin with the quote, and it stays on the line. -/
lemma quoteChar_form (hq : q = '\'' ∨ q = '"') (c : Char) :
    (quoteChar q c = [c] ∧ c ≠ q ∧ c ≠ '\n') ∨
      ∃ ds, quoteChar q c = '\\' :: ds ∧ '\n' ∉ ds := by
  unfold quoteChar
  split_ifs with hself hn hr ht hplain hx hu
  · right
    rcases eq_of_enclosing hq hself with rfl | rfl | rfl <;> exact ⟨_, rfl, by decide⟩
  · exact .inr ⟨_, rfl, by decide⟩
  · exact .inr ⟨_, rfl, by decide⟩
  · exact .inr ⟨_, rfl, by decide⟩
  · refine .inl ⟨rfl, ?_, hn⟩
    rintro rfl
    exact hself (by simp)
  · rw [hexDigits_eq hx]
    exact .inr ⟨_, rfl, by simp [newline_notMem_hexPadded]⟩
  · rw [hexDigits_eq hu]
    exact .inr ⟨_, rfl, by simp [newline_notMem_hexPadded]⟩
  · rw [hexDigits_eq (toNat_lt_hex c)]
    exact .inr ⟨_, rfl, by simp [newline_notMem_hexPadded]⟩

lemma quoteChar_eq_cons (hq : q = '\'' ∨ q = '"') (c : Char) :
    ∃ d ds, quoteChar q c = d :: ds ∧ d ≠ q := by
  rcases quoteChar_form hq c with ⟨hself, hne, -⟩ | ⟨ds, hescape, -⟩
  · exact ⟨c, [], hself, hne⟩
  · exact ⟨_, ds, hescape, by rcases hq with rfl | rfl <;> decide⟩

lemma newline_notMem_quoteChar (hq : q = '\'' ∨ q = '"') (c : Char) : '\n' ∉ quoteChar q c := by
  rcases quoteChar_form hq c with ⟨hself, -, hne⟩ | ⟨ds, hescape, hds⟩
  · rw [hself]
    simpa using hne.symm
  · rw [hescape]
    simpa using hds

/-! ### Texts -/

lemma quoteFor_eq (cs : List Char) : quoteFor cs = '\'' ∨ quoteFor cs = '"' := by
  unfold quoteFor
  split
  · exact .inr rfl
  · exact .inl rfl

/-- What stands between quotes ends at the first quote that has no backslash. -/
lemma flatMap_quoteChar_inj (hq : q = '\'' ∨ q = '"') {cs ds r s : List Char}
    (h : cs.flatMap (quoteChar q) ++ q :: r = ds.flatMap (quoteChar q) ++ q :: s) :
    cs = ds ∧ r = s := by
  have hends (c : Char) (cs r s : List Char) :
      q :: r ≠ (c :: cs).flatMap (quoteChar q) ++ q :: s := by
    obtain ⟨d, ds, hform, hne⟩ := quoteChar_eq_cons hq c
    rw [List.flatMap_cons, hform]
    exact fun heq => hne (List.cons.inj heq).1.symm
  induction cs generalizing ds with
  | nil =>
    cases ds with
    | nil => exact ⟨rfl, (List.cons.inj h).2⟩
    | cons d ds => exact absurd h (hends d ds r s)
  | cons c cs ih =>
    cases ds with
    | nil => exact absurd h.symm (hends c cs s r)
    | cons d ds =>
      rw [List.flatMap_cons, List.flatMap_cons, List.append_assoc, List.append_assoc] at h
      have hread := congrArg readChar h
      rw [readChar_quoteChar hq, readChar_quoteChar hq, Option.some.injEq, Prod.mk.injEq] at hread
      obtain ⟨rfl, hrest⟩ := hread
      obtain ⟨rfl, hr⟩ := ih hrest
      exact ⟨rfl, hr⟩

lemma toList_quote (s : String) : (quote s).toList =
    quoteFor s.toList :: (s.toList.flatMap (quoteChar (quoteFor s.toList)) ++
      [quoteFor s.toList]) := by
  rw [quote, String.toList_ofList]
  rfl

/-- A quoted text tells where it ends. -/
theorem selfDelimiting_quote : SelfDelimiting fun s => (quote s).toList := by
  intro s t r u h
  dsimp only at h
  rw [toList_quote, toList_quote, List.cons_append, List.cons_append, List.cons.injEq] at h
  obtain ⟨hquote, h⟩ := h
  rw [← hquote, List.append_assoc, List.append_assoc] at h
  obtain ⟨hst, hr⟩ := flatMap_quoteChar_inj (quoteFor_eq _) h
  exact ⟨String.toList_inj.1 hst, hr⟩

lemma newline_notMem_quote (s : String) : '\n' ∉ (quote s).toList := by
  have hne : '\n' ≠ quoteFor s.toList := by
    rcases quoteFor_eq s.toList with hq | hq <;> rw [hq] <;> decide
  rw [toList_quote]
  simp [hne, newline_notMem_quoteChar (quoteFor_eq s.toList)]

end LetDef.Text
