import LetDef.Proofs.Outline.Parsed
import LetDef.Proofs.Parser.Completeness
import LetDef.Proofs.Position.Move

/-!
# Outlines are faithful

What is read from tokens is a regular tree, and regular trees with the same outline are the same but
for their marks. Marks do not show in an outline, so this is all that it tells.
-/

namespace LetDef

/-! ### Marks do not show -/

namespace Node

lemma outlineLines_all_unmarked {ns : List Node}
    (h : ∀ n ∈ ns, ∀ depth, n.unmarked.outlineLines depth = n.outlineLines depth) (depth : Nat) :
    outlineLines.all depth (ns.map unmarked) = outlineLines.all depth ns := by
  induction ns with
  | nil => rfl
  | cons n ns ih =>
    rw [List.forall_mem_cons] at h
    rw [List.map_cons, outlineLines.all, outlineLines.all, h.1, ih h.2]

/-- The outline does not show marks. -/
lemma outlineLines_unmarked (n : Node) (depth : Nat) :
    n.unmarked.outlineLines depth = n.outlineLines depth := by
  induction n using nestedInduction generalizing depth with
  | absent => rfl
  | literal => rfl
  | group m body ih => simp only [unmarked, outlineLines, absence_unmarked, ih]
  | binary m operator left right ihl ihr =>
    simp only [unmarked, outlineLines, absence_unmarked, ihl, ihr]
  | access m receiver name ih => simp only [unmarked, outlineLines, absence_unmarked, ih]
  | call m receiver name arguments ih ihs =>
    simp only [unmarked, unmarked_all, outlineLines, absence_unmarked, ih,
      outlineLines_all_unmarked ihs]
  | perform m expression ih => simp only [unmarked, outlineLines, absence_unmarked, ih]
  | declare m name typeName value ih => simp only [unmarked, outlineLines, absence_unmarked, ih]
  | assign m receiver value ihr ihv =>
    simp only [unmarked, outlineLines, absence_unmarked, ihr, ihv]
  | branch m condition thenBody elseBody ihc iht ihe =>
    simp only [unmarked, unmarked_all, outlineLines, absence_unmarked, ihc,
      outlineLines_all_unmarked iht, outlineLines_all_unmarked ihe]
  | forLoop m initializer condition increment body ihf ihc ihl ihb =>
    simp only [unmarked, unmarked_all, outlineLines, absence_unmarked, ihf, ihc, ihl,
      outlineLines_all_unmarked ihb]
  | whileLoop m condition body ihc ihb =>
    simp only [unmarked, unmarked_all, outlineLines, absence_unmarked, ihc,
      outlineLines_all_unmarked ihb]
  | giveBack m value ih => simp only [unmarked, outlineLines, absence_unmarked, ih]
  | field m name typeName constant value ih =>
    simp only [unmarked, outlineLines, absence_unmarked, ih]
  | method m name parameters parameterTypes returnType body ihb =>
    simp only [unmarked, unmarked_all, outlineLines, outlineLines_all_unmarked ihb]
  | program m fields methods ihf ihm =>
    simp only [unmarked, unmarked_all, outlineLines, outlineLines_all_unmarked ihf,
      outlineLines_all_unmarked ihm]

@[simp] lemma outline_unmarked (n : Node) : n.unmarked.outline = n.outline := by
  rw [outline, outline, outlineLines_unmarked]

/-- Listings with the same depths, whatever the nodes. -/
def SameDepths (r s : List (Nat × Node)) : Prop :=
  r.map Prod.fst = s.map Prod.fst

variable {r s : List (Nat × Node)}

lemma SameDepths.cons (h : SameDepths r s) (depth : Nat) (n m : Node) :
    SameDepths ((depth, n) :: r) ((depth, m) :: s) :=
  congrArg (depth :: ·) h

/-- Listing the tree without its marks gives the same depths as listing the tree. -/
def ListedAlike (n : Node) : Prop :=
  ∀ depth r s, SameDepths r s → SameDepths (n.unmarked.listFrom depth r) (n.listFrom depth s)

lemma ListedAlike.optional {n : Node} (h : n.ListedAlike) {depth : Nat} (hrs : SameDepths r s) :
    SameDepths (n.unmarked.optional (n.unmarked.listFrom depth) r)
      (n.optional (n.listFrom depth) s) := by
  rw [Node.optional, Node.optional, isPresent_unmarked]
  split
  · exact h _ _ _ hrs
  · exact hrs

lemma sameDepths_all {ns : List Node} (h : ∀ n ∈ ns, n.ListedAlike) {depth : Nat}
    (hrs : SameDepths r s) :
    SameDepths (listFrom.all depth (unmarked.all ns) r) (listFrom.all depth ns s) := by
  induction ns with
  | nil => exact hrs
  | cons n ns ih =>
    rw [List.forall_mem_cons] at h
    exact h.1 _ _ _ (ih h.2)

lemma listedAlike (n : Node) : n.ListedAlike := by
  induction n using nestedInduction with
  | absent => exact fun _ _ _ hrs => hrs.cons _ _ _
  | literal => exact fun _ _ _ hrs => hrs.cons _ _ _
  | group m body ih => exact fun _ _ _ hrs => (ih _ _ _ hrs).cons _ _ _
  | binary m operator left right ihl ihr =>
    exact fun _ _ _ hrs => (ihl _ _ _ (ihr _ _ _ hrs)).cons _ _ _
  | access m receiver name ih => exact fun _ _ _ hrs => (ih.optional hrs).cons _ _ _
  | call m receiver name arguments ih ihs =>
    exact fun _ _ _ hrs => (ih.optional (sameDepths_all ihs hrs)).cons _ _ _
  | perform m expression ih => exact fun _ _ _ hrs => (ih _ _ _ hrs).cons _ _ _
  | declare m name typeName value ih => exact fun _ _ _ hrs => (ih.optional hrs).cons _ _ _
  | assign m receiver value ihr ihv =>
    exact fun _ _ _ hrs => (ihr _ _ _ (ihv _ _ _ hrs)).cons _ _ _
  | branch m condition thenBody elseBody ihc iht ihe =>
    exact fun _ _ _ hrs => (ihc _ _ _ (sameDepths_all iht (sameDepths_all ihe hrs))).cons _ _ _
  | forLoop m initializer condition increment body ihf ihc ihl ihb =>
    exact fun _ _ _ hrs =>
      (ihf.optional (ihc.optional (ihl.optional (sameDepths_all ihb hrs)))).cons _ _ _
  | whileLoop m condition body ihc ihb =>
    exact fun _ _ _ hrs => (ihc _ _ _ (sameDepths_all ihb hrs)).cons _ _ _
  | giveBack m value ih => exact fun _ _ _ hrs => (ih _ _ _ hrs).cons _ _ _
  | field m name typeName constant value ih =>
    exact fun _ _ _ hrs => (ih.optional hrs).cons _ _ _
  | method m name parameters parameterTypes returnType body ihb =>
    exact fun _ _ _ hrs => (sameDepths_all ihb hrs).cons _ _ _
  | program m fields methods ihf ihm =>
    exact fun _ _ _ hrs => (sameDepths_all ihf (sameDepths_all ihm hrs)).cons _ _ _

/-- The nesting is told by the depths of the listing. -/
lemma nesting_eq (n : Node) : n.nesting =
    (n.preorder.map Prod.fst).foldl (fun deepest depth => max deepest (depth + 1)) 0 := by
  rw [List.foldl_map]
  rfl

@[simp] lemma nesting_unmarked (n : Node) : n.unmarked.nesting = n.nesting := by
  have hdepths : n.unmarked.preorder.map Prod.fst = n.preorder.map Prod.fst :=
    n.listedAlike 0 [] [] rfl
  rw [nesting_eq, nesting_eq, hdepths]

lemma outline_of_outline? {n : Node} {text : String} (h : n.outline? = some text) :
    n.outline = text := by
  unfold outline? at h
  split at h
  · exact Option.some.inj h
  · cases h

@[simp] lemma outline?_unmarked (n : Node) : n.unmarked.outline? = n.outline? := by
  rw [outline?, outline?, nesting_unmarked, outline_unmarked]

end Node

/-! ### What an outline tells -/

section

variable {p q : Program} {ts us : List Token} {depth depth' : Nat}

lemma Program.regular_of_ofTokens (h : Program.ofTokens depth ts = .ok p) : p.toNode.Regular :=
  Parser.produces_program _ _ (ofTokens_eq_ok.1 h)

/-- Programs that are read, from whatever tokens, have the same outline just if they are the same
but for their marks, also where outlines are refused to trees that are nested too deeply. -/
theorem Program.outline_faithful (hp : Program.ofTokens depth ts = .ok p)
    (hq : Program.ofTokens depth' us = .ok q) :
    (p.toNode.outline = q.toNode.outline ↔ p.unmarked = q.unmarked) ∧
      ∀ text, p.toNode.outline? = some text →
        (q.toNode.outline? = some text ↔ p.unmarked = q.unmarked) := by
  have hfaithful : p.toNode.outline = q.toNode.outline ↔ p.unmarked = q.unmarked := by
    refine ⟨fun h => ?_, fun h => ?_⟩
    · exact (regular_of_ofTokens hp).unmarked_of_outline (regular_of_ofTokens hq) h
    · rw [← Node.outline_unmarked, ← Node.outline_unmarked q.toNode]
      exact congrArg Node.outline h
  refine ⟨hfaithful, fun text htext => ⟨fun h => hfaithful.1 ?_, fun h => ?_⟩⟩
  · rw [Node.outline_of_outline? htext, Node.outline_of_outline? h]
  · rw [← htext, ← Node.outline?_unmarked, ← Node.outline?_unmarked p.toNode]
    exact congrArg Node.outline? h.symm

lemma Program.ofTokens_of_map {α : Type} {f : Program → α} {a : α}
    (h : (Program.ofTokens depth ts).toOption.map f = some a) :
    ∃ p, Program.ofTokens depth ts = .ok p ∧ f p = a := by
  obtain ⟨p, hp, ha⟩ := Option.map_eq_some_iff.1 h
  cases hread : Program.ofTokens depth ts with
  | error e =>
    rw [hread] at hp
    cases hp
  | ok q =>
    rw [hread] at hp
    exact ⟨p, congrArg _ (Option.some.inj hp), ha⟩

/-- The outline of a field that has a negative value with two digits behind the point. -/
def fieldOutline : String :=
  "Source()\n  fields:\n    Field(name='x', type_name=None, is_constant=False)\n      value:\n" ++
  "        Literal(value=Decimal('-1.50'), literal_type='decimal')"

/-- The tokens of a field on the given line, with any text for its value. -/
def fieldTokens (line : Nat) (value : String) : List Token :=
  [⟨.identifier, "LET", ⟨"a", line, 1, 0⟩⟩, ⟨.identifier, "x", ⟨"a", line, 5, 4⟩⟩,
   ⟨.operator, "=", ⟨"a", line, 7, 6⟩⟩, ⟨.decimal, value, ⟨"a", line, 9, 8⟩⟩,
   ⟨.operator, ";", ⟨"a", line, 20, 19⟩⟩]

/-- Whether a program has that outline, and the lines on which its fields have their values. -/
def Program.seen (p : Program) : Bool × List (Option Nat) :=
  (p.toNode.outline? = some fieldOutline, p.fields.map (·.value.mark.position.map (·.line)))

/-- A zero before the number, which no text has, does not show in the outline and nor does the line,
but one digit fewer behind the point does. -/
theorem Program.outline_faithful_field : ∃ p q r,
    Program.ofTokens 99 (fieldTokens 1 "-1.50") = .ok p ∧
    Program.ofTokens 99 (fieldTokens 2 "-01.50") = .ok q ∧
    Program.ofTokens 99 (fieldTokens 1 "-1.5") = .ok r ∧
    p.toNode.outline? = some fieldOutline ∧ p.unmarked = q.unmarked ∧ p ≠ q ∧
    p.unmarked ≠ r.unmarked := by
  have hseen :
      (Program.ofTokens 99 (fieldTokens 1 "-1.50")).toOption.map seen = some (true, [some 1]) ∧
      (Program.ofTokens 99 (fieldTokens 2 "-01.50")).toOption.map seen = some (true, [some 2]) ∧
      (Program.ofTokens 99 (fieldTokens 1 "-1.5")).toOption.map seen = some (false, [some 1]) := by
    decide +kernel
  obtain ⟨p, hp, hpseen⟩ := Program.ofTokens_of_map hseen.1
  obtain ⟨q, hq, hqseen⟩ := Program.ofTokens_of_map hseen.2.1
  obtain ⟨r, hr, hrseen⟩ := Program.ofTokens_of_map hseen.2.2
  have hpq : p ≠ q := by
    rintro rfl
    exact absurd (hpseen.symm.trans hqseen) (by decide)
  have hptext := of_decide_eq_true (congrArg Prod.fst hpseen)
  have hqtext := of_decide_eq_true (congrArg Prod.fst hqseen)
  have hrtext := of_decide_eq_false (congrArg Prod.fst hrseen)
  have hsame := (Program.outline_faithful hp hq).2
  have hother := (Program.outline_faithful hp hr).2
  exact ⟨p, q, r, hp, hq, hr, hptext, (hsame _ hptext).1 hqtext, hpq,
    fun h => hrtext ((hother _ hptext).2 h)⟩

end

end LetDef
