import LetDef.Proofs.Store.Layout
import LetDef.Proofs.Syntax.Numbering

/-!
# FOR loops as WHILE loops

A FOR loop with a condition can be written with WHILE: its initializer and a loop stand in a block,
and in the loop the body stands in a block of its own before the increment. `Expands` relates trees
of which the second is the first with any of its loops written so, wherever they stand. The numbers
of nodes do not count, because the trees have different numbers of them.
-/

namespace LetDef

namespace Node

/-- The literal TRUE. -/
def truth (m : Mark) : Node :=
  .literal m (.value (.boolean true)) "boolean"

/-- The marks of the nodes that the expansion of a loop adds: of the two IF statements and their
conditions, and of the loop. -/
structure Scaffold where
  outer : Mark := {}
  outerTest : Mark := {}
  loop : Mark := {}
  inner : Mark := {}
  innerTest : Mark := {}

/-- The expansion of a FOR loop:
`IF TRUE DO first; WHILE c DO IF TRUE DO body END last; END END`. Absent clauses are left out. -/
def expansion (k : Scaffold) (first c last : Node) (body : List Node) : Node :=
  .branch k.outer (truth k.outerTest)
    ([first].filter isPresent ++
      [.whileLoop k.loop c
        (.branch k.inner (truth k.innerTest) body [] :: [last].filter isPresent)]) []

/-- The node is a declaration or an assignment, or absent. -/
def Initializes : Node → Prop
  | .absent | .declare .. | .assign .. => True
  | _ => False

/-- The node is an assignment, or absent. -/
def Increments : Node → Prop
  | .absent | .assign .. => True
  | _ => False

/-- Apart from numbers, the second tree is the first with some FOR loops expanded. Only where
`statement` is true the tree itself may be such a loop. -/
inductive Expands : (statement : Bool) → Node → Node → Prop
  | absent {b : Bool} : Expands b .absent .absent
  | literal {b : Bool} {m m' : Mark} {value : Datum} {sort : String}
      (hm : m'.position = m.position) : Expands b (.literal m value sort) (.literal m' value sort)
  | group {b : Bool} {m m' : Mark} {e e' : Node} (hm : m'.position = m.position)
      (he : Expands false e e') : Expands b (.group m e) (.group m' e')
  | binary {b : Bool} {m m' : Mark} {operator : String} {l l' r r' : Node}
      (hm : m'.position = m.position) (hl : Expands false l l') (hr : Expands false r r') :
      Expands b (.binary m operator l r) (.binary m' operator l' r')
  | access {b : Bool} {m m' : Mark} {r r' : Node} {name : String} (hm : m'.position = m.position)
      (hr : Expands false r r') : Expands b (.access m r name) (.access m' r' name)
  | call {b : Bool} {m m' : Mark} {r r' : Node} {name : String} {es es' : List Node}
      (hm : m'.position = m.position) (hr : Expands false r r')
      (hes : List.Forall₂ (Expands false) es es') :
      Expands b (.call m r name es) (.call m' r' name es')
  | perform {b : Bool} {m m' : Mark} {e e' : Node} (hm : m'.position = m.position)
      (he : Expands false e e') : Expands b (.perform m e) (.perform m' e')
  | declare {b : Bool} {m m' : Mark} {name : String} {typeName : Option String} {v v' : Node}
      (hm : m'.position = m.position) (hv : Expands false v v') :
      Expands b (.declare m name typeName v) (.declare m' name typeName v')
  | assign {b : Bool} {m m' : Mark} {r r' v v' : Node} (hm : m'.position = m.position)
      (hr : Expands false r r') (hv : Expands false v v') :
      Expands b (.assign m r v) (.assign m' r' v')
  | branch {b : Bool} {m m' : Mark} {c c' : Node} {body body' other other' : List Node}
      (hm : m'.position = m.position) (hc : Expands false c c')
      (hb : List.Forall₂ (Expands true) body body')
      (ho : List.Forall₂ (Expands true) other other') :
      Expands b (.branch m c body other) (.branch m' c' body' other')
  | forLoop {b : Bool} {m m' : Mark} {f f' c c' l l' : Node} {body body' : List Node}
      (hm : m'.position = m.position) (hf : Expands true f f') (hc : Expands false c c')
      (hl : Expands true l l') (hb : List.Forall₂ (Expands true) body body') :
      Expands b (.forLoop m f c l body) (.forLoop m' f' c' l' body')
  | whileLoop {b : Bool} {m m' : Mark} {c c' : Node} {body body' : List Node}
      (hm : m'.position = m.position) (hc : Expands false c c')
      (hb : List.Forall₂ (Expands true) body body') :
      Expands b (.whileLoop m c body) (.whileLoop m' c' body')
  | giveBack {b : Bool} {m m' : Mark} {v v' : Node} (hm : m'.position = m.position)
      (hv : Expands false v v') : Expands b (.giveBack m v) (.giveBack m' v')
  | field {b : Bool} {m m' : Mark} {name : String} {typeName : Option String} {constant : Bool}
      {v v' : Node} (hm : m'.position = m.position) (hv : Expands false v v') :
      Expands b (.field m name typeName constant v) (.field m' name typeName constant v')
  | method {b : Bool} {m m' : Mark} {name : String} {parameters types : List String}
      {returns : Option String} {body body' : List Node} (hm : m'.position = m.position)
      (hb : List.Forall₂ (Expands true) body body') :
      Expands b (.method m name parameters types returns body)
        (.method m' name parameters types returns body')
  | program {b : Bool} {m m' : Mark} {fs fs' ms ms' : List Node} (hm : m'.position = m.position)
      (hfs : List.Forall₂ (Expands false) fs fs') (hms : List.Forall₂ (Expands false) ms ms') :
      Expands b (.program m fs ms) (.program m' fs' ms')
  | expand {m : Mark} (k : Scaffold) {f f' c c' l l' : Node} {body body' : List Node}
      (hinitial : f.Initializes) (hpresent : c.isPresent = true) (hlast : l.Increments)
      (hf : Expands true f f') (hc : Expands false c c') (hl : Expands true l l')
      (hb : List.Forall₂ (Expands true) body body') :
      Expands true (.forLoop m f c l body) (expansion k f' c' l' body')

variable {b : Bool} {n n' : Node}

lemma Expands.isPresent (h : Expands b n n') : n'.isPresent = n.isPresent := by
  cases h <;> rfl

lemma Expands.kind? (h : Expands false n n') : n'.kind? = n.kind? := by
  cases h <;> rfl

lemma Expands.site (h : Expands false n n') : n'.site = n.site := by
  unfold Node.site
  rw [h.kind?]
  cases h with
  | absent => rfl
  | _ hm => rw [mark, mark, hm]

lemma Expands.kindName (h : Expands false n n') : n'.kindName = n.kindName := by
  unfold Node.kindName
  rw [h.kind?]

mutual

/-- A tree in which no loop is expanded. -/
theorem Expands.refl (b : Bool) : ∀ n, Expands b n n
  | .absent => .absent
  | .literal .. => .literal rfl
  | .group _ e => .group rfl (refl false e)
  | .binary _ _ l r => .binary rfl (refl false l) (refl false r)
  | .access _ r _ => .access rfl (refl false r)
  | .call _ r _ es => .call rfl (refl false r) (reflAll false es)
  | .perform _ e => .perform rfl (refl false e)
  | .declare _ _ _ v => .declare rfl (refl false v)
  | .assign _ r v => .assign rfl (refl false r) (refl false v)
  | .branch _ c body other => .branch rfl (refl false c) (reflAll true body) (reflAll true other)
  | .forLoop _ f c l body =>
    .forLoop rfl (refl true f) (refl false c) (refl true l) (reflAll true body)
  | .whileLoop _ c body => .whileLoop rfl (refl false c) (reflAll true body)
  | .giveBack _ v => .giveBack rfl (refl false v)
  | .field _ _ _ _ v => .field rfl (refl false v)
  | .method _ _ _ _ _ body => .method rfl (reflAll true body)
  | .program _ fs ms => .program rfl (reflAll false fs) (reflAll false ms)

/-- Trees in which no loop is expanded. -/
theorem Expands.reflAll (b : Bool) : ∀ ns, List.Forall₂ (Expands b) ns ns
  | [] => .nil
  | n :: ns => .cons (refl b n) (reflAll b ns)

end

/-- The first tree is a loop, and the second is an expansion of it. -/
inductive ExpandsLoop : Node → Node → Prop
  | intro {m : Mark} (k : Scaffold) {f f' c c' l l' : Node} {body body' : List Node}
      (hinitial : f.Initializes) (hpresent : c.isPresent = true) (hlast : l.Increments)
      (hf : Expands true f f') (hc : Expands false c c') (hl : Expands true l l')
      (hb : List.Forall₂ (Expands true) body body') :
      ExpandsLoop (.forLoop m f c l body) (expansion k f' c' l' body')

/-- A tree is kept as it is, apart from its parts, or it is a loop that is expanded. -/
lemma Expands.kept_or_loop (h : Expands b n n') : Expands false n n' ∨ ExpandsLoop n n' := by
  cases h with
  | absent => exact .inl .absent
  | literal hm => exact .inl (.literal hm)
  | group hm he => exact .inl (.group hm he)
  | binary hm hl hr => exact .inl (.binary hm hl hr)
  | access hm hr => exact .inl (.access hm hr)
  | call hm hr hes => exact .inl (.call hm hr hes)
  | perform hm he => exact .inl (.perform hm he)
  | declare hm hv => exact .inl (.declare hm hv)
  | assign hm hr hv => exact .inl (.assign hm hr hv)
  | branch hm hc hb ho => exact .inl (.branch hm hc hb ho)
  | forLoop hm hf hc hl hb => exact .inl (.forLoop hm hf hc hl hb)
  | whileLoop hm hc hb => exact .inl (.whileLoop hm hc hb)
  | giveBack hm hv => exact .inl (.giveBack hm hv)
  | field hm hv => exact .inl (.field hm hv)
  | method hm hb => exact .inl (.method hm hb)
  | program hm hfs hms => exact .inl (.program hm hfs hms)
  | expand k hinitial hpresent hlast hf hc hl hb =>
    exact .inr (.intro k hinitial hpresent hlast hf hc hl hb)

/-- An increment stays one. -/
lemma Expands.increments (h : Expands b n n') (hn : n.Increments) : n'.Increments := by
  cases h <;> exact hn

/-! ### Numbering -/

lemma Initializes.numberFrom (h : n.Initializes) (k : Nat) : (n.numberFrom k).1.Initializes := by
  cases n <;> exact h

lemma Increments.numberFrom (h : n.Increments) (k : Nat) : (n.numberFrom k).1.Increments := by
  cases n <;> exact h

lemma filter_numberFrom (k : Nat) (n : Node) :
    (numberFrom.all k ([n].filter isPresent)).1 = [(n.numberFrom k).1].filter isPresent := by
  cases n <;> rfl

lemma numberFrom_all_append (k : Nat) (ns ms : List Node) :
    (numberFrom.all k (ns ++ ms)).1
      = (numberFrom.all k ns).1 ++ (numberFrom.all (numberFrom.all k ns).2 ms).1 := by
  induction ns generalizing k with
  | nil => rfl
  | cons n ns ih => exact congrArg ((n.numberFrom k).1 :: ·) (ih _)

/-- Numbering an expansion numbers its parts. -/
lemma exists_numberFrom_expansion (k : Scaffold) (f c l : Node) (body : List Node) (i : Nat) :
    ∃ k' i₁ i₂ i₃ i₄, ((expansion k f c l body).numberFrom i).1 =
      expansion k' (f.numberFrom i₁).1 (c.numberFrom i₂).1 (l.numberFrom i₃).1
        (numberFrom.all i₄ body).1 := by
  let j := (numberFrom.all (i + 2) ([f].filter isPresent)).2
  let j' := (c.numberFrom (j + 1)).2
  refine ⟨⟨k.outer.numbered i, k.outerTest.numbered (i + 1), k.loop.numbered j,
    k.inner.numbered j', k.innerTest.numbered (j' + 1)⟩, i + 2, j + 1,
    (numberFrom.all (j' + 2) body).2, j' + 2, ?_⟩
  unfold expansion
  rw [← filter_numberFrom, ← filter_numberFrom]
  exact congrArg (Node.branch _ _ · []) (numberFrom_all_append (i + 2) _ _)

mutual

/-- Numbering keeps a tree and its expansion related, from whatever numbers on. -/
theorem Expands.numberFrom : ∀ {b n n'}, Expands b n n' → ∀ k k',
    Expands b (n.numberFrom k).1 (n'.numberFrom k').1
  | _, _, _, .absent, _, _ => .absent
  | _, _, _, .literal hm, _, _ => .literal hm
  | _, _, _, .group hm he, _, _ => .group hm (numberFrom he _ _)
  | _, _, _, .binary hm hl hr, _, _ => .binary hm (numberFrom hl _ _) (numberFrom hr _ _)
  | _, _, _, .access hm hr, _, _ => .access hm (numberFrom hr _ _)
  | _, _, _, .call hm hr hes, _, _ => .call hm (numberFrom hr _ _) (numberFromAll hes _ _)
  | _, _, _, .perform hm he, _, _ => .perform hm (numberFrom he _ _)
  | _, _, _, .declare hm hv, _, _ => .declare hm (numberFrom hv _ _)
  | _, _, _, .assign hm hr hv, _, _ => .assign hm (numberFrom hr _ _) (numberFrom hv _ _)
  | _, _, _, .branch hm hc hb ho, _, _ =>
    .branch hm (numberFrom hc _ _) (numberFromAll hb _ _) (numberFromAll ho _ _)
  | _, _, _, .forLoop hm hf hc hl hb, _, _ =>
    .forLoop hm (numberFrom hf _ _) (numberFrom hc _ _) (numberFrom hl _ _) (numberFromAll hb _ _)
  | _, _, _, .whileLoop hm hc hb, _, _ => .whileLoop hm (numberFrom hc _ _) (numberFromAll hb _ _)
  | _, _, _, .giveBack hm hv, _, _ => .giveBack hm (numberFrom hv _ _)
  | _, _, _, .field hm hv, _, _ => .field hm (numberFrom hv _ _)
  | _, _, _, .method hm hb, _, _ => .method hm (numberFromAll hb _ _)
  | _, _, _, .program hm hfs hms, _, _ =>
    .program hm (numberFromAll hfs _ _) (numberFromAll hms _ _)
  | _, _, _, @Expands.expand _ k _ f' _ c' _ l' _ body' hinitial hpresent hlast hf hc hl hb,
      _, i' => by
    -- The numbers of the added nodes make another scaffold, and the parts go on from where those
    -- stop.
    obtain ⟨k', i₁, i₂, i₃, i₄, heq⟩ := exists_numberFrom_expansion k f' c' l' body' i'
    rw [heq]
    refine .expand k' (hinitial.numberFrom _) ?_ (hlast.numberFrom _) (numberFrom hf _ _)
      (numberFrom hc _ _) (numberFrom hl _ _) (numberFromAll hb _ _)
    rw [isPresent_numberFrom, hpresent]

/-- Numbering keeps lists of trees and their expansions related. -/
theorem Expands.numberFromAll : ∀ {b ns ns'}, List.Forall₂ (Expands b) ns ns' → ∀ k k',
    List.Forall₂ (Expands b) (numberFrom.all k ns).1 (numberFrom.all k' ns').1
  | _, _, _, .nil, _, _ => .nil
  | _, _, _, .cons hn hns, _, _ => .cons (numberFrom hn _ _) (numberFromAll hns _ _)

end

end Node

/-! ### Programs -/

/-- The second field is the first with loops expanded. -/
structure Field.Expands (f f' : Field) : Prop where
  position : f'.mark.position = f.mark.position
  name : f'.name = f.name
  typeName : f'.typeName = f.typeName
  constant : f'.constant = f.constant
  value : Node.Expands false f.value f'.value

/-- The second method is the first with loops expanded. -/
structure Method.Expands (m m' : Method) : Prop where
  position : m'.mark.position = m.mark.position
  name : m'.name = m.name
  parameters : m'.parameters = m.parameters
  parameterTypes : m'.parameterTypes = m.parameterTypes
  returnType : m'.returnType = m.returnType
  body : List.Forall₂ (Node.Expands true) m.body m'.body

/-- The second program is the first with loops expanded. -/
structure Program.Expands (p p' : Program) : Prop where
  position : p'.mark.position = p.mark.position
  fields : List.Forall₂ Field.Expands p.fields p'.fields
  methods : List.Forall₂ Method.Expands p.methods p'.methods

lemma Field.Expands.site {f f' : Field} (h : f.Expands f') : f'.site = f.site := by
  rw [Field.site, Field.site, h.position]

lemma Method.Expands.refl (m : Method) : m.Expands m :=
  ⟨rfl, rfl, rfl, rfl, rfl, Node.Expands.reflAll true m.body⟩

lemma Method.Expands.site {m m' : Method} (h : m.Expands m') : m'.site = m.site := by
  rw [Method.site, Method.site, h.position]

lemma Field.Expands.numberFrom {f f' : Field} (h : f.Expands f') (k k' : Nat) :
    (f.numberFrom k).1.Expands (f'.numberFrom k').1 :=
  ⟨h.position, h.name, h.typeName, h.constant, h.value.numberFrom _ _⟩

lemma Method.Expands.numberFrom {m m' : Method} (h : m.Expands m') (k k' : Nat) :
    (m.numberFrom k).1.Expands (m'.numberFrom k').1 :=
  ⟨h.position, h.name, h.parameters, h.parameterTypes, h.returnType,
    Node.Expands.numberFromAll h.body _ _⟩

lemma forall₂_numberAll {α : Type} {R : α → α → Prop} {number : Nat → α → α × Nat}
    (hR : ∀ {a a'}, R a a' → ∀ k k', R (number k a).1 (number k' a').1) {as as' : List α}
    (h : List.Forall₂ R as as') (k k' : Nat) :
    List.Forall₂ R (numberAll number k as).1 (numberAll number k' as').1 := by
  induction h generalizing k k' with
  | nil => exact .nil
  | cons ha _ ih => exact .cons (hR ha k k') (ih _ _)

/-- A program stays related to its expansion when both are numbered. -/
theorem Program.Expands.numbered {p p' : Program} (h : p.Expands p') :
    p.numbered.Expands p'.numbered where
  position := h.position
  fields := forall₂_numberAll Field.Expands.numberFrom h.fields _ _
  methods := forall₂_numberAll Method.Expands.numberFrom h.methods _ _

lemma Program.Expands.site {p p' : Program} (h : p.Expands p') : p'.site = p.site := by
  rw [Program.site, Program.site, h.position]

end LetDef
