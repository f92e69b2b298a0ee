import LetDef.Analysis.Listing
import LetDef.Proofs.Analysis.Completeness
import LetDef.Proofs.Analysis.Twins
import LetDef.Proofs.Phases
import LetDef.Proofs.Syntax.Equality

/-!
# Same trees, same analysis

Programs that are the same become twins with the same numbers when they are numbered. So analysis
comes to the same verdict on both, and their listings differ in positions only.
-/

namespace LetDef.Analysis

open Node (SameNumber Paired)

/-! ### Listings -/

/-- What a fault at the node of the row points at. -/
def Row.site (r : Row) : Site :=
  ⟨r.kind, r.position⟩

/-- The row but for the position of its node. -/
def Row.unplaced (r : Row) : Row :=
  { r with position := none }

variable {st : State} {depth : Nat} {n n' : Node} {p q : Program}

lemma site_row : (row st depth n).site = n.site := by
  cases n <;> rfl

lemma slotTexts_congr {kind : Node.Kind} {m m' : Mark} (h : SameNumber (some kind) m m') :
    slotTexts st kind m' = slotTexts st kind m := by
  rcases h with h | h
  · cases h
    rfl
  · unfold slotTexts Decorations.get?
    rw [h]

lemma unplaced_row (h : Node.Twins SameNumber n n') :
    (row st depth n').unplaced = (row st depth n).unplaced := by
  have hmark := h.mark
  unfold row
  rw [h.kind?]
  cases hkind : n.kind? with
  | none => rfl
  | some kind =>
    rw [hkind] at hmark
    dsimp only [Row.unplaced]
    rw [slotTexts_congr hmark]

/-- The sites are those of rows with the same index. Positions do not count in the comparison of
trees, so where each node has a position of its own this tells which node a fault is about. -/
def SamePlace (rows rows' : List Row) (site site' : Site) : Prop :=
  ∃ (i : Nat) (r r' : Row), rows[i]? = some r ∧ rows'[i]? = some r' ∧
    r.site = site ∧ r'.site = site'

section

variable (h : p.toNode.same q.toNode = true)

include h

lemma paired_preorder :
    List.Forall₂ (Paired SameNumber) p.numbered.toNode.preorder q.numbered.toNode.preorder :=
  (Program.twins_numbered h).listFrom .nil

lemma unplaced_listing :
    (listing st q).map Row.unplaced = (listing st p).map Row.unplaced := by
  have hpaired := paired_preorder h
  unfold listing
  rw [List.map_map, List.map_map]
  generalize p.numbered.toNode.preorder = l at hpaired ⊢
  generalize q.numbered.toNode.preorder = l' at hpaired ⊢
  induction hpaired with
  | nil => rfl
  | @cons e e' _ _ he _ ih =>
    obtain ⟨d, n⟩ := e
    obtain ⟨d', n'⟩ := e'
    obtain ⟨hdepth, htwins⟩ := he
    dsimp only at hdepth htwins
    rw [List.map_cons, List.map_cons, ih, hdepth]
    exact congrArg (· :: _) (unplaced_row htwins)

/-- Nodes in the same place of the numbered programs have the same number, and their rows have the
same index. -/
lemma twins_samePlace (st : State) :
    Node.Twins (Facing (SamePlace (listing st p) (listing st q))) p.numbered.toNode
      q.numbered.toNode := by
  have hcovered : Node.Covered (Facing (SamePlace (listing st p) (listing st q)))
      p.numbered.toNode.preorder q.numbered.toNode.preorder := by
    rintro ⟨⟨d, n⟩, d', n'⟩ he
    have htwins := ((List.forall₂_iff_zip.1 (paired_preorder h)).2 he).twins
    obtain ⟨i, hi⟩ := List.mem_iff_getElem?.1 he
    obtain ⟨hn, hn'⟩ := List.getElem?_zip_eq_some.1 hi
    refine ⟨htwins.mark, i, row st d n, row st d' n', ?_, ?_, site_row, ?_⟩
    · rw [listing, List.getElem?_map, hn]
      rfl
    · rw [listing, List.getElem?_map, hn']
      rfl
    · rw [site_row, Node.site, htwins.kind?]
  exact ((Program.twins_numbered h).strengthen hcovered).1

end

/-! ### Verdicts -/

/-- Both programs are accepted, or both are refused with the same report but for its position, and
the faults are in the same place of the listings. -/
inductive SameVerdict (rows rows' : List Row) : Except Halt Unit → Except Halt Unit → Prop
  | accepted : SameVerdict rows rows' (.ok ()) (.ok ())
  | refused {f f' : Fault} (hcause : f'.cause = f.cause)
      (hreport : f'.report = { f.report with position := f'.site.position })
      (hplace : SamePlace rows rows' f.site f'.site) :
      SameVerdict rows rows' (.error (.fault f)) (.error (.fault f'))

lemma Twinning.Alike.sameVerdict {rows rows' : List Row} {r r' : Except Halt Unit × State}
    (h : Twinning.Alike (SamePlace rows rows') r r')
    (hclean : r.1 = .ok () ∨ ∃ f, r.1 = .error (.fault f)) : SameVerdict rows rows' r.1 r'.1 := by
  cases h with
  | ok => exact .accepted
  | error halts =>
    obtain hok | ⟨f, hfault⟩ := hclean
    · cases hok
    · cases hfault
      cases halts with
      | fault hplace => exact .refused rfl rfl hplace

/-- To be the same is an equivalence of trees, which the comparison decides for all trees that are
not nested too deeply. Every analyser leaves the same scopes and decorations behind for undecorated
programs that are the same. Their listings differ in positions only, and so do the verdicts. -/
theorem structural_equality_sound :
    Equivalence (fun n n' : Node => n.same n' = true) ∧
    (∀ n n' : Node, n.same? n' = some true ↔
      n.same n' = true ∧ n.nesting ≤ Node.comparableNesting) ∧
    ∀ (a : Analyser) (p q : Program), p.toNode.same q.toNode = true →
      let st := (a.analyse p {}).2
      (a.analyse q {}).2 = st ∧
      (listing st q).map Row.unplaced = (listing st p).map Row.unplaced ∧
      SameVerdict (listing st p) (listing st q) (a.analyse p {}).1 (a.analyse q {}).1 := by
  refine ⟨Node.equivalence_same, fun n n' => Node.same?_eq_true_iff, fun a p q h => ?_⟩
  intro st
  have halike : Twinning.Alike (SamePlace (listing st p) (listing st q)) (a.analyse p {})
      (a.analyse q {}) :=
    Twinning.alike (fun _ => Twinning.analyze (twins_samePlace h st)) _
  exact ⟨halike.state, unplaced_listing h, halike.sameVerdict (analyze_clean fun _ => rfl)⟩

/-- A constant of the type with a literal that holds the value, and `main` that gives it back. -/
def constantProgram (typeName : String) (place : Option Position) (value : Value) : Program where
  fields :=
    [{ name := "x", typeName := some typeName, constant := true
       value := .literal { position := place } (.value value) "integer" }]
  methods :=
    [{ name := "main", parameters := [], parameterTypes := [], returnType := some "Integer"
       body := [.giveBack {} (.access {} .absent "x")] }]

/-- The data `1` and true agree, so a program with the one is accepted as the program with the other
is, and refused with the same report. -/
theorem structural_equality_sound_ones :
    let a := Analyser.fresh none {} 9
    (a.analyse (constantProgram "Integer" none (.boolean true)) {}).1 = .ok () ∧
    ∃ f, (a.analyse (constantProgram "String" none (.boolean true)) {}).1 = .error (.fault f) ∧
      f.cause = .typeMismatch .string .integer := by
  intro a
  let place : Position := ⟨"f", 1, 9, 8⟩
  have hparsed :
      (a.analyse (constantProgram "Integer" place (.integer 1)) {}).1 = .ok () ∧
      (a.analyse (constantProgram "String" place (.integer 1)) {}).1
        = .error (.fault ⟨.typeMismatch .string .integer, some .literal, place⟩) ∧
      ∀ typeName ∈ ["Integer", "String"],
        (constantProgram typeName place (.integer 1)).toNode.same
          (constantProgram typeName none (.boolean true)).toNode = true := by
    decide +kernel
  obtain ⟨hok, hfault, hsame⟩ := hparsed
  have haccepted := (structural_equality_sound.2.2 a _ _ (hsame "Integer" (by simp))).2.2
  have hrefused := (structural_equality_sound.2.2 a _ _ (hsame "String" (by simp))).2.2
  rw [hok] at haccepted
  rw [hfault] at hrefused
  generalize (a.analyse (constantProgram "Integer" none (.boolean true)) {}).1 = r at haccepted ⊢
  generalize (a.analyse (constantProgram "String" none (.boolean true)) {}).1 = r' at hrefused ⊢
  cases haccepted with
  | accepted =>
    cases hrefused with
    | refused hcause => exact ⟨rfl, _, rfl, hcause⟩

end LetDef.Analysis
