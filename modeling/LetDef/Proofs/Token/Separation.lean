import LetDef.Proofs.Token.Segmentation
import Mathlib.Data.List.Induction

/-!
# Blanks between texts

Blanks end whatever stands before them: no token runs into them, and none behind them depends on
what came before. So a text, blanks and another text have the tokens of the first and then those of
the second, which is also the one to be at fault if any is.

The position that scanning keeps up to date is that of an offset, for tokens and for faults alike.
-/

namespace LetDef

/-! ### Positions by offset -/

/-- The position has the line and column of its offset in the text. -/
structure Position.LocatedIn (text : List Char) (p : Position) : Prop where
  offset_le : p.offset ≤ text.length
  line_eq : p.line = 1 + (text.take p.offset).count '\n'
  column_eq : p.column = ((text.take p.offset).reverse.takeWhile (· ≠ '\n')).length + 1

namespace Position

open Token (offset_next offset_after)

/-- What `next` does is what one more character does to the lines and columns of an offset. -/
lemma LocatedIn.snoc {p : Position} {pre : List Char} (h : p.LocatedIn pre)
    (hend : p.offset = pre.length) (c : Char) : (p.next c).LocatedIn (pre ++ [c]) := by
  have hoffset : (p.next c).offset = (pre ++ [c]).length := by
    rw [offset_next, hend, List.length_append, List.length_singleton]
  have hline := h.line_eq
  have hcolumn := h.column_eq
  rw [hend, List.take_length] at hline hcolumn
  refine ⟨Nat.le_of_eq hoffset, ?_, ?_⟩
  · rw [hoffset, List.take_length, List.count_append]
    by_cases hc : c = '\n'
    · simp only [next, hc, if_true, hline, List.count_singleton_self, Nat.add_assoc]
    · simp only [next, hc, if_false, hline, List.count_singleton, beq_iff_eq, Nat.add_zero]
  · rw [hoffset, List.take_length, List.reverse_append]
    by_cases hc : c = '\n'
    · simp [next, hc]
    · simp [next, hc, hcolumn]

lemma offset_start_after (file : String) (pre : List Char) :
    ((start file).after pre).offset = pre.length :=
  (offset_after _ pre).trans (Nat.zero_add _)

lemma locatedIn_after (file : String) (pre : List Char) :
    ((start file).after pre).LocatedIn pre := by
  induction pre using List.reverseRecOn with
  | nil => exact ⟨Nat.le_refl 0, rfl, rfl⟩
  | append_singleton pre c ih =>
    rw [after_append]
    exact ih.snoc (offset_start_after file pre) c

/-- Whatever follows, a position that was reached is located. -/
lemma locatedIn_after_of_append {file : String} {pre text : List Char} (h : pre <+: text) :
    ((start file).after pre).LocatedIn text := by
  have hlocated := locatedIn_after file pre
  have hoffset := offset_start_after file pre
  have htake : text.take pre.length = pre := (List.prefix_iff_eq_take.1 h).symm
  have hline := hlocated.line_eq
  have hcolumn := hlocated.column_eq
  rw [hoffset, List.take_length] at hline hcolumn
  exact ⟨hoffset ▸ h.length_le, by rw [hoffset, htake, hline], by rw [hoffset, htake, hcolumn]⟩

end Position

namespace Token

variable {p q : Position} {cs rest text : List Char} {ts us : List Token} {file : String}
  {e : ScanError} {skip : Nat}

/-- A fault stands behind some of the text. -/
lemma exists_prefix_of_scanFrom (h : scanFrom p skip cs = .error e) :
    ∃ pre, pre <+: cs ∧ e.position = p.after pre := by
  fun_induction scanFrom p skip cs with
  | case1 p skip => cases h
  | case2 p c cs skip ih =>
    obtain ⟨pre, hpre, hposition⟩ := ih h
    exact ⟨c :: pre, (List.prefix_cons_inj c).2 hpre, hposition⟩
  | case3 p c cs hblank ih =>
    obtain ⟨pre, hpre, hposition⟩ := ih h
    exact ⟨c :: pre, (List.prefix_cons_inj c).2 hpre, hposition⟩
  | case4 p c cs hblank misread hread =>
    cases h
    exact ⟨_, List.take_prefix misread.skipped (c :: cs), rfl⟩
  | case5 p c cs hblank kind lexeme hread e' hrest ih =>
    cases h
    obtain ⟨pre, hpre, hposition⟩ := ih hrest
    exact ⟨c :: pre, (List.prefix_cons_inj c).2 hpre, hposition⟩
  | case6 p c cs hblank kind lexeme hread rest hrest ih => cases h

/-- Tokens are located. -/
lemma locatedIn_of_scan {source : String} (h : scan file source = .ok ts) :
    ∀ t ∈ ts, t.position.LocatedIn source.toList := by
  intro t ht
  have hplaced : Placed file source.toList t := ((scan_eq_ok_iff file source ts).1 h).2 t ht
  rw [hplaced]
  exact Position.locatedIn_after_of_append (List.take_prefix _ _)

/-- Faults are located. -/
lemma locatedIn_of_scan_error {source : String} (h : scan file source = .error e) :
    e.position.LocatedIn source.toList := by
  obtain ⟨pre, hpre, hposition⟩ := exists_prefix_of_scanFrom h
  rw [hposition]
  exact Position.locatedIn_after_of_append hpre

/-! ### Tokens before blanks -/

/-- Only the next character decides whether a token may end. -/
lemma Bounded.of_head? {kind : Kind} {lexeme rest' : List Char} (h : Bounded kind lexeme rest)
    (hhead : rest'.head? = rest.head?) : Bounded kind lexeme rest' := by
  cases kind <;> simp only [Bounded, hhead] at h ⊢ <;> exact h

/-- A text that is cut is scanned as such also before blanks, and then the rest is scanned. -/
lemma Cut.scanFrom_append (h : Cut p cs ts) (hrest : ∀ c ∈ rest.head?, isBlank c = true) :
    scanFrom p 0 (cs ++ rest) = (scanFrom (p.after cs) 0 rest).map (ts ++ ·) := by
  induction h with
  | @done p =>
    rw [List.nil_append, Position.after_nil]
    cases scanFrom p 0 rest <;> rfl
  | blank hc _ ih =>
    rw [List.cons_append, scanFrom, if_pos hc]
    exact ih
  | @token p kind lexeme behind ts hs hb _ ih =>
    have hbounded : Bounded kind lexeme (behind ++ rest) := by
      cases behind with
      | nil => exact bounded_of_blank hrest
      | cons d ds => exact hb.of_head? rfl
    obtain ⟨c, cs, rfl⟩ := List.exists_cons_of_ne_nil hs.ne_nil
    have hskip : scanFrom (p.next c) cs.length (cs ++ (behind ++ rest))
        = (scanFrom (p.after (c :: cs ++ behind)) 0 rest).map (ts ++ ·) := by
      rw [scanFrom_skip, Position.after_append]
      exact ih
    rw [List.append_assoc, List.cons_append, scanFrom]
    simp only [hs.not_isBlank, Bool.false_eq_true, if_false, readLexeme_of_shape hs hbounded,
      List.length_cons, Nat.add_sub_cancel, hskip]
    cases scanFrom (p.after (c :: cs ++ behind)) 0 rest <;> rfl

/-- Blanks are skipped. -/
lemma scanFrom_blanks {gap : List Char} (hgap : ∀ c ∈ gap, isBlank c = true) :
    scanFrom p 0 (gap ++ rest) = scanFrom (p.after gap) 0 rest := by
  induction gap generalizing p with
  | nil => rfl
  | cons c gap ih =>
    rw [List.forall_mem_cons] at hgap
    rw [List.cons_append, scanFrom, if_pos hgap.1]
    exact ih hgap.2

/-! ### Texts further on -/

/-- What a token is but for its line and column, `n` characters further on. -/
def shiftedKey (n : Nat) (t : Token) : Kind × String × Nat :=
  (t.kind, t.lexeme, t.position.offset + n)

/-- The same is found, `n` characters further on. -/
inductive Shifted (n : Nat) : Except ScanError (List Token) → Except ScanError (List Token) → Prop
  | ok {ts us : List Token} (h : us.map key = ts.map (shiftedKey n)) : Shifted n (.ok ts) (.ok us)
  | error {e e' : ScanError} (hf : e'.fault = e.fault)
      (ho : e'.position.offset = e.position.offset + n) : Shifted n (.error e) (.error e')

lemma Shifted.exists_ok {n : Nat} {r : Except ScanError (List Token)} (h : Shifted n (.ok ts) r) :
    ∃ us, r = .ok us ∧ us.map key = ts.map (shiftedKey n) := by
  cases h with
  | ok hkeys => exact ⟨_, rfl, hkeys⟩

lemma Shifted.exists_error {n : Nat} {r : Except ScanError (List Token)}
    (h : Shifted n (.error e) r) :
    ∃ e', r = .error e' ∧ e'.fault = e.fault ∧ e'.position.offset = e.position.offset + n := by
  cases h with
  | error hf ho => exact ⟨_, rfl, hf, ho⟩

/-- Where a text begins has no part in what is read. -/
lemma scanFrom_shifted {n : Nat} (h : q.offset = p.offset + n) :
    Shifted n (scanFrom p skip cs) (scanFrom q skip cs) := by
  have hnext {p q : Position} (h : q.offset = p.offset + n) (c : Char) :
      (q.next c).offset = (p.next c).offset + n := by
    rw [offset_next, offset_next, h, Nat.add_right_comm]
  fun_induction scanFrom p skip cs generalizing q with
  | case1 p skip => exact .ok rfl
  | case2 p c cs skip ih => exact ih (hnext h c)
  | case3 p c cs hblank ih =>
    rw [scanFrom, if_pos hblank]
    exact ih (hnext h c)
  | case4 p c cs hblank misread hread =>
    rw [scanFrom, if_neg hblank, hread]
    refine .error rfl ?_
    rw [offset_after, offset_after, h, Nat.add_right_comm]
  | case5 p c cs hblank kind lexeme hread e hrest ih =>
    have hshifted := ih (hnext h c)
    rw [hrest] at hshifted
    obtain ⟨e', hscan, hfault, hposition⟩ := hshifted.exists_error
    simp only [scanFrom, if_neg hblank, hread, hscan]
    exact .error hfault hposition
  | case6 p c cs hblank kind lexeme hread ts hrest ih =>
    have hshifted := ih (hnext h c)
    rw [hrest] at hshifted
    obtain ⟨us, hscan, hkeys⟩ := hshifted.exists_ok
    simp only [scanFrom, if_neg hblank, hread, hscan]
    refine .ok ?_
    rw [List.map_cons, List.map_cons, hkeys, key, shiftedKey, h]

/-- A text, blanks and another text. -/
lemma scan_append_blanks {source gap source' : String} (h : scan file source = .ok ts)
    (hne : gap ≠ "") (hgap : ∀ c ∈ gap.toList, isBlank c = true) :
    scan file (source ++ gap ++ source') =
      (scanFrom ((Position.start file).after (source ++ gap).toList) 0 source'.toList).map
        (ts ++ ·) := by
  have hcut : Cut (Position.start file) source.toList ts := cut_of_scanFrom h
  have hhead : ∀ c ∈ (gap.toList ++ source'.toList).head?, isBlank c = true := by
    obtain ⟨c, cs, hcs⟩ := List.exists_cons_of_ne_nil (mt String.toList_eq_nil_iff.1 hne)
    rw [hcs] at hgap ⊢
    rintro d hd
    cases hd
    exact hgap c (List.mem_cons_self ..)
  rw [scan, String.toList_append, String.toList_append, List.append_assoc,
    hcut.scanFrom_append hhead, scanFrom_blanks hgap, Position.after_append]

/-- Blanks separate: behind a text that has tokens and at least one blank, a second text is scanned
as if it stood alone, its tokens or its fault as many characters further on. And every token and
every fault of a text has the line and column of its offset. -/
theorem scan_separated (file : String) :
    (∀ source gap source' ts, scan file source = .ok ts → gap ≠ "" →
      (∀ c ∈ gap.toList, isBlank c = true) →
      (∀ us, scan file source' = .ok us →
        ∃ us', scan file (source ++ gap ++ source') = .ok (ts ++ us') ∧
          us'.map key = us.map (shiftedKey (source.length + gap.length))) ∧
      ∀ e, scan file source' = .error e →
        ∃ e', scan file (source ++ gap ++ source') = .error e' ∧
          e'.report = { e.report with position := some e'.position } ∧
          e'.position.offset = e.position.offset + (source.length + gap.length)) ∧
    ∀ source,
      (∀ ts, scan file source = .ok ts → ∀ t ∈ ts, t.position.LocatedIn source.toList) ∧
      ∀ e, scan file source = .error e → e.position.LocatedIn source.toList := by
  refine ⟨fun source gap source' ts h hne hgap => ?_, fun source =>
    ⟨fun ts h => locatedIn_of_scan h, fun e h => locatedIn_of_scan_error h⟩⟩
  have hoffset : ((Position.start file).after (source ++ gap).toList).offset
      = (Position.start file).offset + (source.length + gap.length) := by
    rw [offset_after, String.length_toList, String.length_append]
  -- Scanning does not look back, so the second text is scanned as at the start, only further on.
  have hshifted : Shifted (source.length + gap.length) (scan file source')
      (scanFrom ((Position.start file).after (source ++ gap).toList) 0 source'.toList) :=
    scanFrom_shifted hoffset
  rw [scan_append_blanks h hne hgap]
  constructor
  · intro us hus
    rw [hus] at hshifted
    obtain ⟨us', hscan, hkeys⟩ := hshifted.exists_ok
    exact ⟨us', by rw [hscan]; rfl, hkeys⟩
  · intro e he
    rw [he] at hshifted
    obtain ⟨e', hscan, hfault, hposition⟩ := hshifted.exists_error
    refine ⟨e', by rw [hscan]; rfl, ?_, hposition⟩
    rw [ScanError.report, ScanError.report, hfault]

/-- A sign that blanks keep from the number behind it, and an unknown escape in a second line. -/
theorem scan_separated_sign :
    ∃ ts us e, scan "" "a +" = .ok ts ∧ scan "" "1" = .ok us ∧ scan "" "'\\q'" = .error e ∧
      (∃ us', scan "" ("a +" ++ " \n" ++ "1") = .ok (ts ++ us') ∧
        us'.map key = [(.integer, "1", 5)]) ∧
      ∃ e', scan "" ("a +" ++ " \n" ++ "'\\q'") = .error e' ∧ e'.report.code = some "L004" ∧
        e'.position.offset = 6 ∧ e'.position.LocatedIn "a + \n'\\q'".toList := by
  obtain ⟨ts, hts⟩ : ∃ ts, scan "" "a +" = .ok ts := ⟨_, rfl⟩
  obtain ⟨us, hus, hkeys⟩ :
      ∃ us, scan "" "1" = .ok us ∧ us.map (shiftedKey 5) = [(.integer, "1", 5)] :=
    ⟨_, rfl, by decide +kernel⟩
  obtain ⟨e, he, hcode, hoffset⟩ :
      ∃ e, scan "" "'\\q'" = .error e ∧ e.report.code = some "L004" ∧ e.position.offset = 1 :=
    ⟨_, rfl, rfl, rfl⟩
  obtain ⟨hseparated, hlocated⟩ := scan_separated ""
  have hblank : ∀ c ∈ " \n".toList, isBlank c = true := List.all_eq_true.1 (by decide)
  obtain ⟨us', hscan, hus'⟩ := (hseparated "a +" " \n" "1" ts hts (by decide) hblank).1 us hus
  obtain ⟨e', hscan', hreport, hposition⟩ :=
    (hseparated "a +" " \n" "'\\q'" ts hts (by decide) hblank).2 e he
  refine ⟨ts, us, e, hts, hus, he, ⟨us', hscan, hus'.trans hkeys⟩, e', hscan', ?_, ?_,
    (hlocated _).2 e' hscan'⟩
  · rw [hreport]
    exact hcode
  · rw [hposition, hoffset]
    rfl

end Token

end LetDef
