import LetDef.Proofs.Token.Reading

/-!
# Segmentation

A text is cut into tokens in at most one way, and scanning finds it. What a segmentation is says
nothing about scanning: every token is a slice of the text with the shape of its kind and nothing
behind it that it would have taken, and whatever no token covers is blank.
-/

namespace LetDef.Token

/-! ### Pieces of a text -/

/-- The offset behind a token. -/
def finish (t : Token) : Nat :=
  t.position.offset + t.lexeme.length

/-- The character at the index belongs to the token. -/
def Covers (t : Token) (i : Nat) : Prop :=
  t.position.offset ≤ i ∧ i < t.finish

/-- What a token is but for its line and column. -/
def key (t : Token) : Kind × String × Nat :=
  (t.kind, t.lexeme, t.position.offset)

/-- The token is a slice of the text, of the shape of its kind, and ends where it must. -/
structure PieceOf (text : List Char) (t : Token) : Prop where
  nonempty : t.lexeme ≠ ""
  slice : t.lexeme.toList = (text.drop t.position.offset).take t.lexeme.length
  shape : Shape t.kind t.lexeme.toList
  bounded : Bounded t.kind t.lexeme.toList (text.drop t.finish)

/-- The tokens are pieces of the text one behind the other, and all that is left is blank. -/
structure Segmentation (text : List Char) (tokens : List Token) : Prop where
  pieces : ∀ t ∈ tokens, PieceOf text t
  ordered : tokens.Pairwise fun t u => t.finish ≤ u.position.offset
  blanks : ∀ i c, text[i]? = some c → (∀ t ∈ tokens, ¬ t.Covers i) → isBlank c = true

/-- The token has the line and column of its offset. -/
def Placed (file : String) (text : List Char) (t : Token) : Prop :=
  t.position = (Position.start file).after (text.take t.position.offset)

/-! ### From left to right -/

/-- The text from a position on is cut into the tokens. -/
inductive Cut : Position → List Char → List Token → Prop
  | done {p : Position} : Cut p [] []
  | blank {p : Position} {c : Char} {cs : List Char} {ts : List Token} (hc : isBlank c = true)
      (h : Cut (p.next c) cs ts) : Cut p (c :: cs) ts
  | token {p : Position} {kind : Kind} {lexeme rest : List Char} {ts : List Token}
      (hs : Shape kind lexeme) (hb : Bounded kind lexeme rest) (h : Cut (p.after lexeme) rest ts) :
      Cut p (lexeme ++ rest) (⟨kind, String.ofList lexeme, p⟩ :: ts)

variable {p : Position} {cs text : List Char} {ts us : List Token} {t : Token} {file : String}

lemma cut_of_scanFrom {skip : Nat} (h : scanFrom p skip cs = .ok ts) :
    Cut (p.after (cs.take skip)) (cs.drop skip) ts := by
  fun_induction scanFrom p skip cs generalizing ts with
  | case1 p skip =>
    cases h
    simpa using Cut.done
  | case2 p c cs skip ih => exact ih h
  | case3 p c cs hblank ih => exact .blank hblank (ih h)
  | case4 p c cs hblank e hread => cases h
  | case5 p c cs hblank kind lexeme hread e hrest ih => cases h
  | case6 p c cs hblank kind lexeme hread rest hrest ih =>
    cases h
    obtain ⟨hshape, tail, hsplit, hbounded⟩ := readLexeme_reads hread
    obtain ⟨d, ds, rfl⟩ := List.exists_cons_of_ne_nil hshape.ne_nil
    rw [List.cons_append] at hsplit
    obtain ⟨rfl, rfl⟩ := List.cons_eq_cons.mp hsplit
    have hcut := ih hrest
    rw [List.length_cons, Nat.add_sub_cancel, List.take_left, List.drop_left] at hcut
    exact .token hshape hbounded hcut

lemma scanFrom_of_cut (h : Cut p cs ts) : scanFrom p 0 cs = .ok ts := by
  induction h with
  | done => rfl
  | blank hc _ ih =>
    rw [scanFrom, if_pos hc]
    exact ih
  | @token p kind lexeme rest ts hs hb _ ih =>
    obtain ⟨c, cs, rfl⟩ := List.exists_cons_of_ne_nil hs.ne_nil
    have hrest : scanFrom (p.next c) cs.length (cs ++ rest) = .ok ts := by
      rw [scanFrom_skip]
      exact ih
    rw [List.cons_append, scanFrom]
    simp only [hs.not_isBlank, Bool.false_eq_true, if_false, readLexeme_of_shape hs hb,
      List.length_cons, Nat.add_sub_cancel, hrest]

/-- Blanks may stand before a text that is cut. -/
lemma Cut.blanks {gap : List Char} (hgap : ∀ c ∈ gap, isBlank c = true)
    (h : Cut (p.after gap) cs ts) : Cut p (gap ++ cs) ts := by
  induction gap generalizing p with
  | nil => exact h
  | cons c gap ih =>
    rw [List.forall_mem_cons] at hgap
    exact .blank hgap.1 (ih hgap.2 h)

/-! ### From pieces to a cut and back -/

/-- The tokens are a segmentation of what the text has from an offset on. -/
structure SegmentationFrom (k : Nat) (text : List Char) (tokens : List Token) : Prop where
  start : ∀ t ∈ tokens, k ≤ t.position.offset
  pieces : ∀ t ∈ tokens, PieceOf text t
  ordered : tokens.Pairwise fun t u => t.finish ≤ u.position.offset
  blanks : ∀ i c, k ≤ i → text[i]? = some c → (∀ t ∈ tokens, ¬ t.Covers i) → isBlank c = true

lemma segmentationFrom_zero : SegmentationFrom 0 text ts ↔ Segmentation text ts := by
  constructor
  · intro h
    exact ⟨h.pieces, h.ordered, fun i c => h.blanks i c (Nat.zero_le i)⟩
  · intro h
    exact ⟨fun _ _ => Nat.zero_le _, h.pieces, h.ordered, fun i c _ => h.blanks i c⟩

lemma offset_next (p : Position) (c : Char) : (p.next c).offset = p.offset + 1 := by
  unfold Position.next
  split <;> rfl

lemma offset_after (p : Position) (cs : List Char) :
    (p.after cs).offset = p.offset + cs.length := by
  induction cs generalizing p with
  | nil => rfl
  | cons c cs ih =>
    rw [Position.after_cons, ih, offset_next, List.length_cons, Nat.add_assoc, Nat.add_comm 1]

/-- A token that is read behind `pre` is a piece of the whole text. -/
lemma pieceOf_append {pre lexeme rest : List Char} {kind : Kind} (hs : Shape kind lexeme)
    (hb : Bounded kind lexeme rest) (hp : p.offset = pre.length) :
    PieceOf (pre ++ (lexeme ++ rest)) ⟨kind, String.ofList lexeme, p⟩ where
  nonempty := by simpa using hs.ne_nil
  slice := by simp [hp]
  shape := by simpa using hs
  bounded := by simpa [finish, hp] using hb

/-- What is cut from left to right is a segmentation. -/
lemma Cut.segmentationFrom (h : Cut p cs ts) :
    ∀ pre, p = (Position.start file).after pre →
      SegmentationFrom pre.length (pre ++ cs) ts ∧ ∀ t ∈ ts, Placed file (pre ++ cs) t := by
  induction h with
  | done =>
    intro pre hp
    refine ⟨⟨by simp, by simp, .nil, ?_⟩, by simp⟩
    intro i c hi hc
    rw [List.append_nil, List.getElem?_eq_none hi] at hc
    cases hc
  | @blank p c cs ts hc _ ih =>
    intro pre hp
    obtain ⟨hseg, hplaced⟩ := ih (pre ++ [c]) (by rw [hp, Position.after_append]; rfl)
    rw [List.append_assoc, List.singleton_append] at hseg hplaced
    rw [List.length_append, List.length_singleton] at hseg
    refine ⟨⟨fun t ht => Nat.le_of_succ_le (hseg.start t ht), hseg.pieces, hseg.ordered, ?_⟩,
      hplaced⟩
    intro i d hi hd hnot
    rcases Nat.eq_or_lt_of_le hi with rfl | hi
    · rw [List.getElem?_append_right (Nat.le_refl _), Nat.sub_self] at hd
      cases hd
      exact hc
    · exact hseg.blanks i d hi hd hnot
  | @token p kind lexeme rest ts hs hb _ ih =>
    intro pre hp
    have hoffset : p.offset = pre.length := by
      rw [hp, offset_after]
      exact Nat.zero_add _
    -- The token is moved over to what has been read, where its position is counted from.
    obtain ⟨hseg, hplaced⟩ := ih (pre ++ lexeme) (by rw [hp, Position.after_append])
    rw [List.append_assoc] at hseg hplaced
    rw [List.length_append] at hseg
    have hfinish : finish ⟨kind, String.ofList lexeme, p⟩ = pre.length + lexeme.length := by
      simp [finish, hoffset]
    refine ⟨⟨?_, ?_, ?_, ?_⟩, ?_⟩
    · rw [List.forall_mem_cons]
      exact ⟨Nat.le_of_eq hoffset.symm, fun t ht => Nat.le_of_add_right_le (hseg.start t ht)⟩
    · rw [List.forall_mem_cons]
      exact ⟨pieceOf_append hs hb hoffset, hseg.pieces⟩
    · refine .cons (fun t ht => ?_) hseg.ordered
      rw [hfinish]
      exact hseg.start t ht
    · intro i c hi hc hnot
      rw [List.forall_mem_cons] at hnot
      refine hseg.blanks i c ?_ hc hnot.2
      -- An index before the end of the first token would be covered by it.
      by_contra hlt
      exact hnot.1 ⟨hoffset ▸ hi, hfinish ▸ Nat.lt_of_not_le hlt⟩
    · rw [List.forall_mem_cons]
      refine ⟨?_, hplaced⟩
      unfold Placed
      rw [hoffset, List.take_left, hp]

/-- A piece of a text splits it. -/
lemma PieceOf.drop (h : PieceOf text t) :
    text.drop t.position.offset = t.lexeme.toList ++ text.drop t.finish := by
  have hdrop : (text.drop t.position.offset).drop t.lexeme.length = text.drop t.finish :=
    List.drop_drop
  rw [h.slice, ← hdrop, List.take_append_drop]

/-- A segmentation with lines and columns is cut from left to right. -/
lemma SegmentationFrom.cut {k : Nat} (h : SegmentationFrom k text ts)
    (hplaced : ∀ t ∈ ts, Placed file text t) :
    Cut ((Position.start file).after (text.take k)) (text.drop k) ts := by
  induction ts generalizing k with
  | nil =>
    rw [← List.append_nil (text.drop k)]
    refine Cut.blanks ?_ .done
    intro c hc
    obtain ⟨i, hi⟩ := List.getElem?_of_mem hc
    rw [List.getElem?_drop] at hi
    exact h.blanks (k + i) c (Nat.le_add_right k i) hi (by simp)
  | cons t ts ih =>
    have hpiece := h.pieces t (List.mem_cons_self ..)
    have hat := hplaced t (List.mem_cons_self ..)
    obtain ⟨n, hn⟩ := Nat.exists_eq_add_of_le (h.start t (List.mem_cons_self ..))
    obtain ⟨hbefore, hordered⟩ := List.pairwise_cons.1 h.ordered
    have hsplit : text.drop k = (text.drop k).take n ++ text.drop t.position.offset := by
      rw [hn, ← List.drop_drop, List.take_append_drop]
    have hposition : ((Position.start file).after (text.take k)).after ((text.drop k).take n)
        = t.position := by
      rw [← Position.after_append, ← List.take_add, ← hn]
      exact hat.symm
    rw [hsplit]
    refine Cut.blanks ?_ ?_
    · -- The gap before the first token is covered by none.
      intro c hc
      obtain ⟨i, hi⟩ := List.getElem?_of_mem hc
      rw [List.getElem?_take] at hi
      split at hi
      · next hlt =>
        rw [List.getElem?_drop] at hi
        have hbelow : k + i < t.position.offset := by omega
        refine h.blanks (k + i) c (Nat.le_add_right k i) hi ?_
        rw [List.forall_mem_cons]
        refine ⟨fun hcover => Nat.not_le.2 hbelow hcover.1, fun u hu hcover => ?_⟩
        have hle : t.position.offset ≤ u.position.offset :=
          Nat.le_trans (Nat.le_add_right _ _) (hbefore u hu)
        exact Nat.not_le.2 hbelow (Nat.le_trans hle hcover.1)
      · cases hi
    · rw [hposition, hpiece.drop]
      have hrest : SegmentationFrom t.finish text ts := by
        refine ⟨hbefore, fun u hu => h.pieces u (List.mem_cons_of_mem _ hu), hordered, ?_⟩
        intro i c hi hc hnot
        refine h.blanks i c ?_ hc ?_
        · exact Nat.le_trans (h.start t (List.mem_cons_self ..))
            (Nat.le_trans (Nat.le_add_right _ _) hi)
        · rw [List.forall_mem_cons]
          exact ⟨fun hcover => Nat.not_lt.2 hi hcover.2, hnot⟩
      have hcut := ih hrest fun u hu => hplaced u (List.mem_cons_of_mem _ hu)
      have hafter : (Position.start file).after (text.take t.finish)
          = t.position.after t.lexeme.toList := by
        rw [finish, List.take_add, ← hpiece.slice, Position.after_append]
        exact congrArg (Position.after · _) hat.symm
      rw [hafter] at hcut
      have htoken := Cut.token hpiece.shape hpiece.bounded hcut
      rw [String.ofList_toList] at htoken
      exact htoken

/-- Scanning finds the tokens of a text exactly if they are a segmentation of it. -/
lemma scan_eq_ok_iff (file source : String) (tokens : List Token) :
    scan file source = .ok tokens ↔
      Segmentation source.toList tokens ∧ ∀ t ∈ tokens, Placed file source.toList t := by
  constructor
  · intro h
    have hcut : Cut (Position.start file) source.toList tokens := cut_of_scanFrom h
    obtain ⟨hseg, hplaced⟩ := hcut.segmentationFrom [] rfl
    exact ⟨segmentationFrom_zero.1 hseg, hplaced⟩
  · rintro ⟨hseg, hplaced⟩
    exact scanFrom_of_cut ((segmentationFrom_zero.2 hseg).cut hplaced)

/-! ### Lines and columns -/

/-- The token with the line and column of its offset. -/
def place (file : String) (text : List Char) (t : Token) : Token :=
  { t with position := (Position.start file).after (text.take t.position.offset) }

lemma offset_place (h : PieceOf text t) :
    (place file text t).position.offset = t.position.offset := by
  have hle : t.position.offset ≤ text.length := by
    by_contra hlt
    have hnil : t.lexeme.toList = [] := by
      rw [h.slice, List.drop_eq_nil_of_le (Nat.le_of_not_le hlt), List.take_nil]
    exact h.shape.ne_nil hnil
  rw [place, offset_after, List.length_take, Nat.min_eq_left hle]
  exact Nat.zero_add _

lemma key_place (h : PieceOf text t) : (place file text t).key = t.key := by
  rw [key, offset_place h]
  rfl

lemma finish_of_key {u : Token} (h : u.key = t.key) : u.finish = t.finish := by
  simp only [key, Prod.mk.injEq] at h
  rw [finish, finish, h.2.1, h.2.2]

lemma PieceOf.of_key {u : Token} (h : PieceOf text t) (hkey : u.key = t.key) : PieceOf text u := by
  have hfinish := finish_of_key hkey
  simp only [key, Prod.mk.injEq] at hkey
  obtain ⟨hkind, hlexeme, hoffset⟩ := hkey
  constructor
  · rw [hlexeme]
    exact h.nonempty
  · rw [hlexeme, hoffset]
    exact h.slice
  · rw [hkind, hlexeme]
    exact h.shape
  · rw [hkind, hlexeme, hfinish]
    exact h.bounded

/-- Lines and columns have no part in a segmentation. -/
lemma Segmentation.place (h : Segmentation text ts) :
    Segmentation text (ts.map (Token.place file text)) := by
  have hkey : ∀ t ∈ ts, (Token.place file text t).key = t.key :=
    fun t ht => key_place (h.pieces t ht)
  constructor
  · rw [List.forall_mem_map]
    exact fun t ht => (h.pieces t ht).of_key (hkey t ht)
  · rw [List.pairwise_map]
    refine h.ordered.imp_of_mem fun {t u} ht hu hle => ?_
    rw [finish_of_key (hkey t ht), offset_place (h.pieces u hu)]
    exact hle
  · intro i c hc hnot
    rw [List.forall_mem_map] at hnot
    refine h.blanks i c hc fun t ht hcover => hnot t ht ?_
    rw [Covers, finish_of_key (hkey t ht), offset_place (h.pieces t ht)]
    exact hcover

/-- A text has tokens as soon as it has a segmentation, and they are its pieces. -/
lemma Segmentation.scan {source : String} (h : Segmentation source.toList ts) :
    scan file source = .ok (ts.map (Token.place file source.toList)) := by
  rw [scan_eq_ok_iff]
  refine ⟨h.place, ?_⟩
  rw [List.forall_mem_map]
  intro t ht
  rw [Placed, offset_place (h.pieces t ht)]
  rfl

lemma Segmentation.key_eq (hts : Segmentation text ts) (hus : Segmentation text us) :
    ts.map key = us.map key := by
  obtain ⟨source, rfl⟩ : ∃ source : String, text = source.toList :=
    ⟨String.ofList text, String.toList_ofList.symm⟩
  have hplaced : ts.map (Token.place "" source.toList) = us.map (Token.place "" source.toList) :=
    Except.ok.inj (hts.scan.symm.trans hus.scan)
  have hkeys : ∀ {vs : List Token}, Segmentation source.toList vs →
      (vs.map (Token.place "" source.toList)).map key = vs.map key := by
    intro vs hvs
    rw [List.map_map]
    exact List.map_congr_left fun t ht => key_place (hvs.pieces t ht)
  rw [← hkeys hts, hplaced, hkeys hus]

/-- Scanning accepts exactly the texts that have a segmentation, and answers with the only one. -/
theorem scan_segmentation (file source : String) :
    (∀ tokens, scan file source = .ok tokens ↔
      Segmentation source.toList tokens ∧ ∀ t ∈ tokens, Placed file source.toList t) ∧
    (∀ ts us, Segmentation source.toList ts → Segmentation source.toList us →
      ts.map key = us.map key) ∧
    ((∃ e, scan file source = .error e) ↔ ¬ ∃ ts, Segmentation source.toList ts) := by
  refine ⟨scan_eq_ok_iff file source, fun ts us => Segmentation.key_eq, ?_⟩
  constructor
  · rintro ⟨e, he⟩ ⟨ts, hts⟩
    rw [hts.scan] at he
    cases he
  · intro hnone
    cases h : scan file source with
    | error e => exact ⟨e, rfl⟩
    | ok tokens => exact absurd ⟨tokens, ((scan_eq_ok_iff file source tokens).1 h).1⟩ hnone

/-- A hyphen in a name, a sign before a number and one before a name. -/
theorem scan_segmentation_signs :
    ∃ tokens, scan "" "a-1 +2<=- b" = .ok tokens ∧ Segmentation "a-1 +2<=- b".toList tokens ∧
      tokens.map key = [(.identifier, "a-1", 0), (.integer, "+2", 4), (.operator, "<=", 6),
        (.operator, "-", 8), (.identifier, "b", 10)] := by
  obtain ⟨tokens, hscan, hkeys⟩ : ∃ tokens, scan "" "a-1 +2<=- b" = .ok tokens ∧
      tokens.map key = [(.identifier, "a-1", 0), (.integer, "+2", 4), (.operator, "<=", 6),
        (.operator, "-", 8), (.identifier, "b", 10)] := ⟨_, rfl, by decide +kernel⟩
  exact ⟨tokens, hscan, (((scan_segmentation "" _).1 tokens).1 hscan).1, hkeys⟩

end LetDef.Token
