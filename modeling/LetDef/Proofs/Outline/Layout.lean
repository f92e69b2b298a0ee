import LetDef.Proofs.Outline.Nodes

/-!
# The layout of an outline

How far a line is indented tells what it belongs to: the lines of a part are indented more than the
line of its node, and what comes behind a tree is not. So the lines of a tree can be told from those
that follow, and from them, by way of data and parts, the tree.
-/

namespace LetDef.Node

variable {n a b : Node} {ns ms : List Node} {k : Kind} {depth bound : Nat} {label line : String}
  {r s lines : List String} {ps qs : List (String × List Node)}

/-! ### Regular trees -/

/-- A tree that is present, as are all members of its lists, and has values for its literals. -/
inductive Regular : Node → Prop
  | intro {n : Node} (present : n.isPresent = true)
      (literal : ∀ m d s, n = .literal m d s → ∃ v, d = .value v)
      (parts : ∀ part ∈ n.parts, ∀ c ∈ part.2, Regular c) : Regular n

lemma Regular.kind (h : n.Regular) : ∃ k, n.kind? = some k := by
  obtain ⟨hpresent, -, -⟩ := h
  cases n with
  | absent => cases hpresent
  | _ => exact ⟨_, rfl⟩

/-! ### Labels -/

/-- The labels of parts. -/
def labels : List String :=
  ["expression", "left", "right", "receiver", "arguments", "value", "condition",
   "then_statements", "else_statements", "initialization", "increment", "statements", "fields",
   "methods"]

lemma label_mem (n : Node) : ∀ part ∈ n.parts, part.1 ∈ labels := by
  cases n <;> simp [parts, labels]

lemma labels_plain : ∀ label ∈ labels, '\n' ∉ label.toList ∧ label.toList.head? ≠ some ' ' := by
  decide

/-- Nodes of one kind have parts under the same labels. -/
lemma labels_eq (ha : a.kind? = some k) (hb : b.kind? = some k) :
    a.parts.map Prod.fst = b.parts.map Prod.fst := by
  cases a <;> cases ha <;> cases b <;> cases hb <;> rfl

lemma nodup_labels (n : Node) : (n.parts.map Prod.fst).Nodup := by
  cases n <;> simp [parts]

/-- The line of a label. -/
def labelLine (depth : Nat) (label : String) : String :=
  indent (depth + 1) ++ label ++ ":"

lemma toList_labelLine (depth : Nat) (label : String) :
    (labelLine depth label).toList =
      List.replicate (2 * (depth + 1)) ' ' ++ (label.toList ++ [':']) := by
  simp only [labelLine, indent, String.toList_append, String.toList_ofList, List.append_assoc]
  rfl

lemma labelLine_injective (depth : Nat) : Function.Injective (labelLine depth) := by
  intro label label' h
  have h := congrArg String.toList h
  rw [toList_labelLine, toList_labelLine] at h
  exact String.toList_inj.1 (List.append_cancel_right (List.append_cancel_left h))

/-! ### Indentation -/

/-- How many blanks a line begins with. -/
def blanks (line : String) : Nat :=
  (line.toList.takeWhile (· = ' ')).length

lemma blanks_eq {cs : List Char} {k : Nat} (h : line.toList = List.replicate k ' ' ++ cs)
    (hcs : cs.head? ≠ some ' ') : blanks line = k := by
  have hnone : cs.takeWhile (· = ' ') = [] := by
    cases cs with
    | nil => rfl
    | cons c cs =>
      have hc : c ≠ ' ' := by simpa using hcs
      simp [hc]
  unfold blanks
  rw [h, List.takeWhile_append_of_pos (by simp), hnone, List.append_nil, List.length_replicate]

lemma head?_append_ne {cs ds : List Char} (hcs : cs.head? ≠ some ' ') (hds : ds.head? ≠ some ' ') :
    (cs ++ ds).head? ≠ some ' ' := by
  cases cs with
  | nil => exact hds
  | cons c cs => exact hcs

lemma blanks_headLine (depth : Nat) (k : Kind) (data : List String) :
    blanks (headLine depth k data) = 2 * depth :=
  blanks_eq (toList_headLine depth k data) (head?_append_ne k.mem_name.2.2 (by simp))

lemma blanks_labelLine (h : label ∈ labels) : blanks (labelLine depth label) = 2 * (depth + 1) :=
  blanks_eq (toList_labelLine depth label)
    (head?_append_ne (labels_plain label h).2 (by simp))

/-- The lines begin with fewer blanks, if there are any lines. -/
def StartsBelow (bound : Nat) (lines : List String) : Prop :=
  ∀ line ∈ lines.head?, blanks line < bound

lemma StartsBelow.mono {bound' : Nat} (h : StartsBelow bound lines) (hle : bound ≤ bound') :
    StartsBelow bound' lines :=
  fun line hline => (h line hline).trans_le hle

/-- A regular tree has a line, and it is indented by the depth. -/
lemma Regular.outlineLines_eq_cons (h : n.Regular) (depth : Nat) :
    ∃ line lines, n.outlineLines depth = line :: lines ∧ blanks line = 2 * depth := by
  obtain ⟨k, hk⟩ := h.kind
  exact ⟨_, _, outlineLines_eq hk, blanks_headLine depth k n.data⟩

/-- Behind trees at a depth come trees at that depth or what comes behind them all. -/
lemma startsBelow_all (hns : ∀ n ∈ ns, n.Regular) (hr : StartsBelow (2 * depth + 1) r) :
    StartsBelow (2 * depth + 1) (outlineLines.all depth ns ++ r) := by
  cases ns with
  | nil => exact hr
  | cons n ns =>
    obtain ⟨first, lines, hfirst, hblanks⟩ :=
      (hns n (List.mem_cons_self ..)).outlineLines_eq_cons depth
    rw [outlineLines.all, hfirst]
    intro line hline
    cases hline
    rw [hblanks]
    exact Nat.lt_succ_self _

/-- Where there are parts, their label stands before them. -/
lemma labelled_all (hne : ns ≠ []) (hns : ∀ n ∈ ns, n.Regular) :
    labelled depth label (outlineLines.all (depth + 2) ns)
      = labelLine depth label :: outlineLines.all (depth + 2) ns := by
  obtain ⟨n, ns, rfl⟩ := List.exists_cons_of_ne_nil hne
  obtain ⟨first, lines, hfirst, -⟩ :=
    (hns n (List.mem_cons_self ..)).outlineLines_eq_cons (depth + 2)
  rw [outlineLines.all, hfirst]
  rfl

lemma sections_cons (part : String × List Node) (ps : List (String × List Node)) :
    sections depth (part :: ps) =
      labelled depth part.1 (outlineLines.all (depth + 2) part.2) ++ sections depth ps :=
  List.flatMap_cons

/-- Parts begin with the line of a label, unless there are none. -/
lemma head?_sections (hps : ∀ part ∈ ps, ∀ c ∈ part.2, c.Regular)
    (h : line ∈ (sections depth ps ++ r).head?) :
    (∃ label ∈ ps.map Prod.fst, line = labelLine depth label) ∨ line ∈ r.head? := by
  induction ps with
  | nil => exact .inr h
  | cons part ps ih =>
    rw [List.forall_mem_cons] at hps
    rw [sections_cons] at h
    by_cases hempty : part.2 = []
    · rw [hempty] at h
      refine (ih hps.2 h).imp_left fun ⟨label, hlabel, hline⟩ => ?_
      exact ⟨label, List.mem_cons_of_mem _ hlabel, hline⟩
    · rw [labelled_all hempty hps.1] at h
      cases h
      exact .inl ⟨part.1, List.mem_cons_self .., rfl⟩

/-- What begins with parts begins with fewer blanks than the parts of parts. -/
lemma startsBelow_sections (hps : ∀ part ∈ ps, ∀ c ∈ part.2, c.Regular)
    (hlabels : ∀ part ∈ ps, part.1 ∈ labels) (hr : StartsBelow (2 * depth + 1) r) :
    StartsBelow (2 * (depth + 2)) (sections depth ps ++ r) := by
  intro line hline
  rcases head?_sections hps hline with ⟨label, hlabel, rfl⟩ | hline
  · obtain ⟨part, hpart, rfl⟩ := List.mem_map.1 hlabel
    rw [blanks_labelLine (hlabels part hpart)]
    omega
  · have hbelow := hr line hline
    omega

/-- A label that is not there is not the first. -/
lemma sections_ne (hps : ∀ part ∈ ps, ∀ c ∈ part.2, c.Regular) (hlabel : label ∈ labels)
    (hnot : label ∉ ps.map Prod.fst) (hr : StartsBelow (2 * depth + 1) r) :
    sections depth ps ++ r ≠ labelLine depth label :: lines := by
  intro heq
  have hline : labelLine depth label ∈ (sections depth ps ++ r).head? := by
    rw [heq]
    rfl
  rcases head?_sections hps hline with ⟨label', hmem, hsame⟩ | hline
  · exact hnot (labelLine_injective depth hsame ▸ hmem)
  · have hbelow := hr _ hline
    rw [blanks_labelLine hlabel] at hbelow
    omega

/-! ### Telling trees apart -/

/-- The lines of the tree at any depth tell it without its marks, whatever comes behind it. -/
def Told (a : Node) : Prop :=
  ∀ ⦃depth : Nat⦄ ⦃b : Node⦄ ⦃r s : List String⦄, b.Regular →
    StartsBelow (2 * depth + 1) r → StartsBelow (2 * depth + 1) s →
    a.outlineLines depth ++ r = b.outlineLines depth ++ s → a.unmarked = b.unmarked ∧ r = s

/-- Trees one after the other are told one by one. -/
lemma told_all (hns : ∀ n ∈ ns, n.Regular ∧ n.Told) (hms : ∀ m ∈ ms, m.Regular)
    (hr : StartsBelow (2 * depth) r) (hs : StartsBelow (2 * depth) s)
    (h : outlineLines.all depth ns ++ r = outlineLines.all depth ms ++ s) :
    ns.map unmarked = ms.map unmarked ∧ r = s := by
  -- a tree begins with more blanks than what comes behind the last one
  have hends {n : Node} {ns : List Node} {r s : List String} (hn : n.Regular)
      (hr : StartsBelow (2 * depth) r) : r ≠ outlineLines.all depth (n :: ns) ++ s := by
    rintro rfl
    obtain ⟨line, lines, hfirst, hblanks⟩ := hn.outlineLines_eq_cons depth
    rw [outlineLines.all, hfirst] at hr
    exact (hr line rfl).ne hblanks
  induction ns generalizing ms with
  | nil =>
    cases ms with
    | nil => exact ⟨rfl, h⟩
    | cons m ms => exact absurd h (hends (hms m (List.mem_cons_self ..)) hr)
  | cons n ns ih =>
    rw [List.forall_mem_cons] at hns
    cases ms with
    | nil => exact absurd h.symm (hends hns.1.1 hs)
    | cons m ms =>
      rw [List.forall_mem_cons] at hms
      rw [outlineLines.all, outlineLines.all, List.append_assoc, List.append_assoc] at h
      obtain ⟨hfirst, hrest⟩ := hns.1.2 hms.1
        (startsBelow_all (fun n hn => (hns.2 n hn).1) (hr.mono (Nat.le_succ _)))
        (startsBelow_all hms.2 (hs.mono (Nat.le_succ _))) h
      obtain ⟨hall, hr⟩ := ih hns.2 hms.2 hrest
      exact ⟨by rw [List.map_cons, List.map_cons, hfirst, hall], hr⟩

/-- Parts under the same labels are told part by part. -/
lemma told_sections (hps : ∀ part ∈ ps, ∀ c ∈ part.2, c.Regular ∧ c.Told)
    (hqs : ∀ part ∈ qs, ∀ c ∈ part.2, c.Regular) (hlabels : ∀ part ∈ ps, part.1 ∈ labels)
    (hlabels' : ∀ part ∈ qs, part.1 ∈ labels)
    (hsame : ps.map Prod.fst = qs.map Prod.fst) (hnodup : (ps.map Prod.fst).Nodup)
    (hr : StartsBelow (2 * depth + 1) r) (hs : StartsBelow (2 * depth + 1) s)
    (h : sections depth ps ++ r = sections depth qs ++ s) :
    List.Forall₂ (fun x y => x.2.map unmarked = y.2.map unmarked) ps qs ∧ r = s := by
  induction ps generalizing qs with
  | nil =>
    cases qs with
    | nil => exact ⟨.nil, h⟩
    | cons q qs => cases hsame
  | cons p ps ih =>
    cases qs with
    | nil => cases hsame
    | cons q qs =>
      obtain ⟨label, ns⟩ := p
      obtain ⟨label', ms⟩ := q
      obtain ⟨rfl, htail⟩ := List.cons.inj hsame
      rw [List.map_cons, List.nodup_cons] at hnodup
      rw [List.forall_mem_cons] at hps hqs hlabels hlabels'
      rw [sections_cons, sections_cons, List.append_assoc, List.append_assoc] at h
      have hregular : ∀ part ∈ ps, ∀ c ∈ part.2, c.Regular :=
        fun part hpart c hc => (hps.2 part hpart c hc).1
      have hns : ∀ n ∈ ns, n.Regular := fun n hn => (hps.1 n hn).1
      -- A label is written only over a part that is not empty. If the part is empty on one side
      -- only, a label that comes later there would have to be this one.
      by_cases hnil : ns = [] <;> by_cases hnil' : ms = []
      · subst hnil hnil'
        obtain ⟨hparts, hrest⟩ := ih hps.2 hqs.2 hlabels.2 hlabels'.2 htail hnodup.2 h
        exact ⟨.cons rfl hparts, hrest⟩
      · subst hnil
        rw [labelled_all hnil' hqs.1] at h
        exact absurd h (sections_ne hregular hlabels.1 hnodup.1 hr)
      · subst hnil'
        rw [labelled_all hnil hns] at h
        exact absurd h.symm (sections_ne hqs.2 hlabels.1 (htail ▸ hnodup.1) hs)
      · rw [labelled_all hnil hns, labelled_all hnil' hqs.1] at h
        obtain ⟨hall, hrest⟩ := told_all hps.1 hqs.1
          (startsBelow_sections hregular hlabels.2 hr) (startsBelow_sections hqs.2 hlabels'.2 hs)
          (List.cons.inj h).2
        obtain ⟨hparts, hrest⟩ := ih hps.2 hqs.2 hlabels.2 hlabels'.2 htail hnodup.2 hrest
        exact ⟨.cons hall hparts, hrest⟩

/-- Every regular tree is told by its lines. -/
theorem Regular.told (h : a.Regular) : a.Told := by
  induction h with
  | @intro a hpresent hliteral hparts ih =>
    intro depth b r s hb hr hs h
    obtain ⟨k, ha⟩ := (Regular.intro hpresent hliteral hparts).kind
    obtain ⟨k', hb'⟩ := hb.kind
    obtain ⟨-, hliteral', hparts'⟩ := hb
    rw [outlineLines_eq ha, outlineLines_eq hb'] at h
    obtain ⟨hhead, hrest⟩ := List.cons.inj h
    obtain ⟨rfl, hdata⟩ := headLine_inj hhead
    have hboth : ∀ part ∈ a.parts, ∀ c ∈ part.2, c.Regular ∧ c.Told :=
      fun part hpart c hc => ⟨hparts part hpart c hc, ih part hpart c hc⟩
    obtain ⟨hsame, hrs⟩ := told_sections hboth hparts' a.label_mem b.label_mem (labels_eq ha hb')
      a.nodup_labels hr hs hrest
    exact ⟨unmarked_eq ha hb' hliteral hliteral' hdata hsame, hrs⟩

/-! ### Lines -/

/-- The text has no line end. -/
def Unbroken (text : String) : Prop :=
  '\n' ∉ text.toList

instance (text : String) : Decidable (Unbroken text) :=
  inferInstanceAs (Decidable ('\n' ∉ text.toList))

lemma unbroken_append {text text' : String} :
    Unbroken (text ++ text') ↔ Unbroken text ∧ Unbroken text' := by
  simp [Unbroken]

lemma unbroken_quoted (v : Value) : Unbroken v.quoted := by
  cases v with
  | text s => exact Text.newline_notMem_quote s
  | _ => exact Value.separator_notMem_quoted (fun h => by cases h) (.inr rfl)

lemma unbroken_quotedName (o : Option String) : Unbroken (quotedName? o) := by
  cases o with
  | none => decide
  | some s => exact Text.newline_notMem_quote s

lemma newline_notMem_listed {items : List String} (h : ∀ item ∈ items, Unbroken item) :
    '\n' ∉ listed items := by
  unfold Unbroken at h
  simpa [listed] using h

lemma newline_notMem_joined {items : List String} (h : ∀ item ∈ items, Unbroken item) :
    '\n' ∉ joined items := by
  cases items with
  | nil => decide
  | cons item items =>
    rw [List.forall_mem_cons] at h
    rw [joined_cons, List.mem_append, not_or]
    exact ⟨h.1, newline_notMem_listed h.2⟩

lemma newline_notMem_tupleRest {items : List String} (h : ∀ item ∈ items, Unbroken item) :
    '\n' ∉ tupleRest items := by
  cases items with
  | nil => decide
  | cons item items =>
    change '\n' ∉ listed (item :: items) ++ [')']
    rw [List.mem_append, not_or]
    exact ⟨newline_notMem_listed h, by decide⟩

lemma unbroken_tupleText {items : List String} (h : ∀ item ∈ items, Unbroken item) :
    Unbroken (tupleText items) := by
  cases items with
  | nil => decide
  | cons item items =>
    rw [List.forall_mem_cons] at h
    unfold Unbroken
    rw [toList_tupleText_cons, List.mem_cons, List.mem_append, not_or, not_or]
    exact ⟨by decide, h.1, newline_notMem_tupleRest h.2⟩

lemma unbroken_nameData (hlabel : Unbroken label) (names : List String) :
    ∀ item ∈ nameData label names, Unbroken item := by
  cases names with
  | nil => exact List.forall_mem_nil _
  | cons name names =>
    refine List.forall_mem_singleton.2 ?_
    rw [unbroken_append, unbroken_append]
    refine ⟨⟨hlabel, by decide⟩, unbroken_tupleText fun item hitem => ?_⟩
    obtain ⟨name, -, rfl⟩ := List.mem_map.1 hitem
    exact Text.newline_notMem_quote name

lemma unbroken_absence (hlabel : Unbroken label) : ∀ item ∈ absence label n, Unbroken item := by
  unfold absence
  split
  · exact List.forall_mem_nil _
  · exact List.forall_mem_singleton.2 (unbroken_append.2 ⟨hlabel, by decide⟩)

lemma unbroken_item {text : String} (hlabel : Unbroken label) (htext : Unbroken text) :
    Unbroken (label ++ text) :=
  unbroken_append.2 ⟨hlabel, htext⟩

/-- The data of a node stay on the line. -/
lemma unbroken_data (hliteral : ∀ m d s, n = .literal m d s → ∃ v, d = .value v) :
    ∀ item ∈ n.data, Unbroken item := by
  have hquote (name : String) : Unbroken (Text.quote name) := Text.newline_notMem_quote name
  cases n with
  | absent => exact List.forall_mem_nil _
  | literal m d sort =>
    obtain ⟨v, rfl⟩ := hliteral m d sort rfl
    simp only [data, List.forall_mem_cons]
    exact ⟨unbroken_item (by decide) (unbroken_quoted v),
      unbroken_item (by decide) (hquote sort), List.forall_mem_nil _⟩
  | group m body => exact unbroken_absence (by decide)
  | binary m operator left right =>
    simp only [data, List.forall_mem_cons, List.forall_mem_append]
    exact ⟨unbroken_item (by decide) (hquote operator), unbroken_absence (by decide),
      unbroken_absence (by decide)⟩
  | access m receiver name =>
    simp only [data, List.forall_mem_append, List.forall_mem_singleton]
    exact ⟨unbroken_absence (by decide), unbroken_item (by decide) (hquote name)⟩
  | call m receiver name arguments =>
    simp only [data, List.forall_mem_append, List.forall_mem_singleton]
    exact ⟨unbroken_absence (by decide), unbroken_item (by decide) (hquote name)⟩
  | perform m expression => exact unbroken_absence (by decide)
  | declare m name typeName value =>
    simp only [data, List.forall_mem_cons]
    exact ⟨unbroken_item (by decide) (hquote name),
      unbroken_item (by decide) (unbroken_quotedName typeName), unbroken_absence (by decide)⟩
  | assign m receiver value =>
    simp only [data, List.forall_mem_append]
    exact ⟨unbroken_absence (by decide), unbroken_absence (by decide)⟩
  | branch m condition thenBody elseBody => exact unbroken_absence (by decide)
  | forLoop m initializer condition increment body =>
    simp only [data, List.forall_mem_append]
    exact ⟨⟨unbroken_absence (by decide), unbroken_absence (by decide)⟩,
      unbroken_absence (by decide)⟩
  | whileLoop m condition body => exact unbroken_absence (by decide)
  | giveBack m value => exact unbroken_absence (by decide)
  | field m name typeName constant value =>
    simp only [data, List.forall_mem_cons]
    exact ⟨unbroken_item (by decide) (hquote name),
      unbroken_item (by decide) (unbroken_quotedName typeName),
      unbroken_item (by decide) (unbroken_quoted _), unbroken_absence (by decide)⟩
  | method m name parameters parameterTypes returnType body =>
    simp only [data, List.forall_mem_cons, List.forall_mem_append]
    exact ⟨unbroken_item (by decide) (hquote name), unbroken_nameData (by decide) parameters,
      unbroken_nameData (by decide) parameterTypes,
      unbroken_item (by decide) (unbroken_quotedName returnType), List.forall_mem_nil _⟩
  | program m fields methods => exact List.forall_mem_nil _

lemma unbroken_headLine {data : List String} (h : ∀ item ∈ data, Unbroken item) :
    Unbroken (headLine depth k data) := by
  unfold Unbroken
  rw [toList_headLine, headText]
  simp [k.mem_name.2.1, newline_notMem_joined h]

lemma unbroken_labelLine (h : label ∈ labels) : Unbroken (labelLine depth label) := by
  unfold Unbroken
  rw [toList_labelLine]
  simp [(labels_plain label h).1]

lemma mem_all : line ∈ outlineLines.all depth ns ↔ ∃ n ∈ ns, line ∈ n.outlineLines depth := by
  induction ns with
  | nil => simp [outlineLines.all]
  | cons n ns ih => simp [outlineLines.all, ih]

/-- No line of an outline has a line end. -/
lemma Regular.unbroken (h : n.Regular) : ∀ line ∈ n.outlineLines depth, Unbroken line := by
  induction h generalizing depth with
  | @intro n hpresent hliteral hparts ih =>
    obtain ⟨k, hk⟩ := (Regular.intro hpresent hliteral hparts).kind
    rw [outlineLines_eq hk, List.forall_mem_cons]
    refine ⟨unbroken_headLine (unbroken_data hliteral), fun line hline => ?_⟩
    obtain ⟨part, hpart, hline⟩ := List.mem_flatMap.1 hline
    by_cases hempty : part.2 = []
    · rw [hempty] at hline
      cases hline
    · rw [labelled_all hempty (hparts part hpart), List.mem_cons] at hline
      rcases hline with rfl | hline
      · exact unbroken_labelLine (n.label_mem part hpart)
      · obtain ⟨c, hc, hline⟩ := mem_all.1 hline
        exact ih part hpart c hc line hline

/-- The lines of an outline can be told from its text. -/
lemma outlineLines_of_outline (ha : a.Regular) (hb : b.Regular) (h : a.outline = b.outline) :
    a.outlineLines 0 = b.outlineLines 0 := by
  have hsplit {n : Node} (hn : n.Regular) :
      n.outline.toList.splitOn '\n' = (n.outlineLines 0).map String.toList := by
    obtain ⟨line, lines, heq, -⟩ := hn.outlineLines_eq_cons 0
    rw [outline, String.toList_intercalate]
    refine List.splitOn_intercalate '\n' (fun l hl => ?_) (by simp [heq])
    obtain ⟨line, hline, rfl⟩ := List.mem_map.1 hl
    exact hn.unbroken line hline
  have hlines := hsplit ha
  rw [h, hsplit hb] at hlines
  exact (List.map_injective_iff.2 (fun _ _ => String.toList_inj.1) hlines).symm

/-- A regular tree without its marks is told by its outline. -/
theorem Regular.unmarked_of_outline (ha : a.Regular) (hb : b.Regular) (h : a.outline = b.outline) :
    a.unmarked = b.unmarked := by
  have hlines := outlineLines_of_outline ha hb h
  have hnone : StartsBelow (2 * 0 + 1) [] := nofun
  exact (ha.told hb hnone hnone (congrArg (· ++ []) hlines)).1

end LetDef.Node
