import LetDef.Parser.Fault
import LetDef.Proofs.Token.Shape
import LetDef.Syntax.Equality

/-!
# Moving positions

A map `φ` of positions moves all that carries positions: tokens, trees and what faults point at. Two
lists of tokens with the same words become the same list when all positions are moved to one place,
so a function that commutes with moving makes the same of both but for positions.

Numbering commutes with moving, and trees are the same as before.
-/

namespace LetDef

/-! ### Marks, tokens and sites -/

/-- The mark with its position moved. -/
def Mark.move (φ : Position → Position) (m : Mark) : Mark :=
  { m with position := m.position.map φ }

/-- The token with its position moved. -/
def Token.move (φ : Position → Position) (t : Token) : Token :=
  { t with position := φ t.position }

/-- The site with its position moved. -/
def Site.move (φ : Position → Position) (s : Site) : Site :=
  { s with position := s.position.map φ }

variable {φ : Position → Position}

@[simp] lemma Token.kind_move (t : Token) : (t.move φ).kind = t.kind :=
  rfl

@[simp] lemma Token.lexeme_move (t : Token) : (t.move φ).lexeme = t.lexeme :=
  rfl

/-- Moved to one place, lists of tokens with the same words are the same. -/
lemma Token.map_move_of_words {ts us : List Token} {p : Position}
    (h : ts.map Token.word = us.map Token.word) :
    ts.map (Token.move fun _ => p) = us.map (Token.move fun _ => p) := by
  have hmove : Token.move (fun _ => p) = (fun w => ⟨w.1, w.2, p⟩) ∘ Token.word := rfl
  rw [hmove, ← List.map_map, ← List.map_map, h]

/-! ### Trees -/

namespace Node

/-- An induction over a tree and the lists of trees in it. -/
@[elab_as_elim]
theorem nestedInduction {motive : Node → Prop} (absent : motive .absent)
    (literal : ∀ m value sort, motive (.literal m value sort))
    (group : ∀ m body, motive body → motive (.group m body))
    (binary : ∀ m operator left right, motive left → motive right →
      motive (.binary m operator left right))
    (access : ∀ m receiver name, motive receiver → motive (.access m receiver name))
    (call : ∀ m receiver name arguments, motive receiver → (∀ n ∈ arguments, motive n) →
      motive (.call m receiver name arguments))
    (perform : ∀ m expression, motive expression → motive (.perform m expression))
    (declare : ∀ m name typeName value, motive value → motive (.declare m name typeName value))
    (assign : ∀ m receiver value, motive receiver → motive value →
      motive (.assign m receiver value))
    (branch : ∀ m condition thenBody elseBody, motive condition → (∀ n ∈ thenBody, motive n) →
      (∀ n ∈ elseBody, motive n) → motive (.branch m condition thenBody elseBody))
    (forLoop : ∀ m initializer condition increment body, motive initializer → motive condition →
      motive increment → (∀ n ∈ body, motive n) →
      motive (.forLoop m initializer condition increment body))
    (whileLoop : ∀ m condition body, motive condition → (∀ n ∈ body, motive n) →
      motive (.whileLoop m condition body))
    (giveBack : ∀ m value, motive value → motive (.giveBack m value))
    (field : ∀ m name typeName constant value, motive value →
      motive (.field m name typeName constant value))
    (method : ∀ m name parameters parameterTypes returnType body, (∀ n ∈ body, motive n) →
      motive (.method m name parameters parameterTypes returnType body))
    (program : ∀ m fields methods, (∀ n ∈ fields, motive n) → (∀ n ∈ methods, motive n) →
      motive (.program m fields methods)) (n : Node) : motive n :=
  @Node.rec motive (fun ns => ∀ n ∈ ns, motive n) absent literal group binary access call perform
    declare assign branch forLoop whileLoop giveBack field method program
    (List.forall_mem_nil motive) (fun _ _ hn hns => List.forall_mem_cons.2 ⟨hn, hns⟩) n

/-- The tree with all its positions moved. -/
def move (φ : Position → Position) : Node → Node
  | .absent => .absent
  | .literal m value sort => .literal (m.move φ) value sort
  | .group m body => .group (m.move φ) (body.move φ)
  | .binary m operator left right => .binary (m.move φ) operator (left.move φ) (right.move φ)
  | .access m receiver name => .access (m.move φ) (receiver.move φ) name
  | .call m receiver name arguments => .call (m.move φ) (receiver.move φ) name (all arguments)
  | .perform m expression => .perform (m.move φ) (expression.move φ)
  | .declare m name typeName value => .declare (m.move φ) name typeName (value.move φ)
  | .assign m receiver value => .assign (m.move φ) (receiver.move φ) (value.move φ)
  | .branch m condition thenBody elseBody =>
    .branch (m.move φ) (condition.move φ) (all thenBody) (all elseBody)
  | .forLoop m initializer condition increment body =>
    .forLoop (m.move φ) (initializer.move φ) (condition.move φ) (increment.move φ) (all body)
  | .whileLoop m condition body => .whileLoop (m.move φ) (condition.move φ) (all body)
  | .giveBack m value => .giveBack (m.move φ) (value.move φ)
  | .field m name typeName constant value =>
    .field (m.move φ) name typeName constant (value.move φ)
  | .method m name parameters parameterTypes returnType body =>
    .method (m.move φ) name parameters parameterTypes returnType (all body)
  | .program m fields methods => .program (m.move φ) (all fields) (all methods)
where
  /-- The trees with all their positions moved. -/
  all : List Node → List Node
    | [] => []
    | n :: ns => n.move φ :: all ns

@[simp] lemma move_all (ns : List Node) : move.all φ ns = ns.map (move φ) := by
  induction ns with
  | nil => rfl
  | cons n ns ih => rw [move.all, ih, List.map_cons]

@[simp] lemma kind?_move (n : Node) : (n.move φ).kind? = n.kind? := by
  cases n <;> rfl

@[simp] lemma isPresent_move (n : Node) : (n.move φ).isPresent = n.isPresent := by
  cases n <;> rfl

@[simp] lemma mark_move (n : Node) : (n.move φ).mark = n.mark.move φ := by
  cases n <;> rfl

@[simp] lemma site_move (n : Node) : (n.move φ).site = n.site.move φ := by
  rw [site, site, kind?_move, mark_move]
  rfl

/-! ### Numbering -/

lemma numberFrom_all_move {ns : List Node}
    (h : ∀ n ∈ ns, ∀ k, (n.move φ).numberFrom k = ((n.numberFrom k).1.move φ, (n.numberFrom k).2))
    (k : Nat) : numberFrom.all k (ns.map (move φ)) =
      ((numberFrom.all k ns).1.map (move φ), (numberFrom.all k ns).2) := by
  induction ns generalizing k with
  | nil => rfl
  | cons n ns ih =>
    rw [List.forall_mem_cons] at h
    simp only [List.map_cons, numberFrom.all, h.1, ih h.2]

/-- Numbering commutes with moving. -/
lemma numberFrom_move (n : Node) (k : Nat) :
    (n.move φ).numberFrom k = ((n.numberFrom k).1.move φ, (n.numberFrom k).2) := by
  induction n using nestedInduction generalizing k with
  | absent => rfl
  | literal => rfl
  | group m body ih => simp only [move, numberFrom, ih, Mark.move, Mark.numbered]
  | binary m operator left right ihl ihr =>
    simp only [move, numberFrom, ihl, ihr, Mark.move, Mark.numbered]
  | access m receiver name ih => simp only [move, numberFrom, ih, Mark.move, Mark.numbered]
  | call m receiver name arguments ih ihs =>
    simp only [move, move_all, numberFrom, ih, numberFrom_all_move ihs, Mark.move, Mark.numbered]
  | perform m expression ih => simp only [move, numberFrom, ih, Mark.move, Mark.numbered]
  | declare m name typeName value ih => simp only [move, numberFrom, ih, Mark.move, Mark.numbered]
  | assign m receiver value ihr ihv =>
    simp only [move, numberFrom, ihr, ihv, Mark.move, Mark.numbered]
  | branch m condition thenBody elseBody ihc iht ihe =>
    simp only [move, move_all, numberFrom, ihc, numberFrom_all_move iht, numberFrom_all_move ihe,
      Mark.move, Mark.numbered]
  | forLoop m initializer condition increment body ihf ihc ihl ihb =>
    simp only [move, move_all, numberFrom, ihf, ihc, ihl, numberFrom_all_move ihb, Mark.move,
      Mark.numbered]
  | whileLoop m condition body ihc ihb =>
    simp only [move, move_all, numberFrom, ihc, numberFrom_all_move ihb, Mark.move, Mark.numbered]
  | giveBack m value ih => simp only [move, numberFrom, ih, Mark.move, Mark.numbered]
  | field m name typeName constant value ih =>
    simp only [move, numberFrom, ih, Mark.move, Mark.numbered]
  | method m name parameters parameterTypes returnType body ihb =>
    simp only [move, move_all, numberFrom, numberFrom_all_move ihb, Mark.move, Mark.numbered]
  | program m fields methods ihf ihm =>
    simp only [move, move_all, numberFrom, numberFrom_all_move ihf, numberFrom_all_move ihm,
      Mark.move, Mark.numbered]

/-! ### Equality -/

lemma same_all_move {ns : List Node} (h : ∀ n ∈ ns, ∀ m, (n.move φ).same m = n.same m)
    (ms : List Node) : same.all (ns.map (move φ)) ms = same.all ns ms := by
  induction ns generalizing ms with
  | nil => cases ms <;> rfl
  | cons n ns ih =>
    rw [List.forall_mem_cons] at h
    cases ms with
    | nil => rfl
    | cons m ms => simp only [List.map_cons, same.all, h.1, ih h.2]

/-- A moved tree is the same as what the tree is the same as. -/
lemma same_move (n m : Node) : (n.move φ).same m = n.same m := by
  induction n using nestedInduction generalizing m with
  | absent => rfl
  | literal => cases m <;> rfl
  | group _ _ ih =>
    cases m with
    | group _ body => exact ih body
    | _ => rfl
  | binary _ _ _ _ ihl ihr =>
    cases m with
    | binary => simp only [move, same, ihl, ihr]
    | _ => rfl
  | access _ _ _ ih =>
    cases m with
    | access => simp only [move, same, ih]
    | _ => rfl
  | call _ _ _ _ ih ihs =>
    cases m with
    | call => simp only [move, move_all, same, ih, same_all_move ihs]
    | _ => rfl
  | perform _ _ ih =>
    cases m with
    | perform _ expression => exact ih expression
    | _ => rfl
  | declare _ _ _ _ ih =>
    cases m with
    | declare => simp only [move, same, ih]
    | _ => rfl
  | assign _ _ _ ihr ihv =>
    cases m with
    | assign => simp only [move, same, ihr, ihv]
    | _ => rfl
  | branch _ _ _ _ ihc iht ihe =>
    cases m with
    | branch => simp only [move, move_all, same, ihc, same_all_move iht, same_all_move ihe]
    | _ => rfl
  | forLoop _ _ _ _ _ ihf ihc ihl ihb =>
    cases m with
    | forLoop => simp only [move, move_all, same, ihf, ihc, ihl, same_all_move ihb]
    | _ => rfl
  | whileLoop _ _ _ ihc ihb =>
    cases m with
    | whileLoop => simp only [move, move_all, same, ihc, same_all_move ihb]
    | _ => rfl
  | giveBack _ _ ih =>
    cases m with
    | giveBack _ value => exact ih value
    | _ => rfl
  | field _ _ _ _ _ ih =>
    cases m with
    | field => simp only [move, same, ih]
    | _ => rfl
  | method _ _ _ _ _ _ ihb =>
    cases m with
    | method => simp only [move, move_all, same, same_all_move ihb]
    | _ => rfl
  | program _ _ _ ihf ihm =>
    cases m with
    | program => simp only [move, move_all, same, same_all_move ihf, same_all_move ihm]
    | _ => rfl

lemma same_all_self {ns : List Node} (h : ∀ n ∈ ns, n.same n = true) : same.all ns ns = true := by
  induction ns with
  | nil => rfl
  | cons n ns ih =>
    rw [List.forall_mem_cons] at h
    rw [same.all, h.1, ih h.2]
    rfl

end Node

lemma Value.agrees_self (v : Value) : v.agrees v = true := by
  unfold agrees
  cases hnumber : v.number? with
  | none => simp
  | some d => simp [Decimal.sameValue, Decimal.compareValue]

lemma Datum.agrees_self (d : Datum) : d.agrees d = true :=
  @Datum.rec (fun d => d.agrees d = true) (fun ds => agrees.go ds ds = true) Value.agrees_self
    (fun _ ih => ih) rfl (fun _ _ ih ihs => by rw [agrees.go, ih, ihs]; rfl) d

namespace Node

/-- A tree is the same as itself. -/
lemma same_self (n : Node) : n.same n = true := by
  induction n using nestedInduction with
  | absent => rfl
  | literal _ value _ => simp [same, value.agrees_self]
  | call _ _ _ _ ih ihs => simp [same, ih, same_all_self ihs]
  | branch _ _ _ _ ihc iht ihe => simp [same, ihc, same_all_self iht, same_all_self ihe]
  | forLoop _ _ _ _ _ ihf ihc ihl ihb => simp [same, ihf, ihc, ihl, same_all_self ihb]
  | whileLoop _ _ _ ihc ihb => simp [same, ihc, same_all_self ihb]
  | method _ _ _ _ _ _ ihb => simp [same, same_all_self ihb]
  | program _ _ _ ihf ihm => simp [same, same_all_self ihf, same_all_self ihm]
  | _ => simp [same, *]

/-- Trees that differ in their positions only are the same. -/
lemma same_of_move_eq {n m : Node} (h : n.move φ = m.move φ) : n.same m = true := by
  rw [← same_move n m, h, same_move, same_self]

end Node

/-! ### Programs -/

/-- The field with all its positions moved. -/
def Field.move (φ : Position → Position) (f : Field) : Field :=
  { f with mark := f.mark.move φ, value := f.value.move φ }

/-- The method with all its positions moved. -/
def Method.move (φ : Position → Position) (m : Method) : Method :=
  { m with mark := m.mark.move φ, body := m.body.map (Node.move φ) }

/-- The program with all its positions moved. -/
def Program.move (φ : Position → Position) (p : Program) : Program :=
  ⟨p.mark.move φ, p.fields.map (Field.move φ), p.methods.map (Method.move φ)⟩

lemma Field.toNode_move (f : Field) : (f.move φ).toNode = f.toNode.move φ :=
  rfl

lemma Method.toNode_move (m : Method) : (m.move φ).toNode = m.toNode.move φ := by
  rw [toNode, toNode, Node.move, Node.move_all]
  rfl

lemma Program.toNode_move (p : Program) : (p.move φ).toNode = p.toNode.move φ := by
  simp only [toNode, Node.move, Node.move_all, move, List.map_map, Function.comp_def,
    Field.toNode_move, Method.toNode_move]

lemma Field.numberFrom_move (f : Field) (k : Nat) :
    (f.move φ).numberFrom k = ((f.numberFrom k).1.move φ, (f.numberFrom k).2) := by
  simp only [numberFrom, move, Node.numberFrom_move]
  rfl

lemma Method.numberFrom_move (m : Method) (k : Nat) :
    (m.move φ).numberFrom k = ((m.numberFrom k).1.move φ, (m.numberFrom k).2) := by
  have hbody : Node.numberFrom.all (k + 1) (m.body.map (Node.move φ)) = _ :=
    Node.numberFrom_all_move (fun n _ => n.numberFrom_move) (k + 1)
  simp only [numberFrom, move, hbody]
  rfl

lemma numberAll_map {α : Type} {number : Nat → α → α × Nat} {f : α → α}
    (h : ∀ a k, number k (f a) = (f (number k a).1, (number k a).2)) (k : Nat) (as : List α) :
    numberAll number k (as.map f) =
      ((numberAll number k as).1.map f, (numberAll number k as).2) := by
  induction as generalizing k with
  | nil => rfl
  | cons a as ih => simp only [List.map_cons, numberAll, h, ih]

lemma Program.numbered_move (p : Program) : (p.move φ).numbered = p.numbered.move φ := by
  simp only [numbered, move, numberAll_map Field.numberFrom_move,
    numberAll_map Method.numberFrom_move]

@[simp] lemma Field.site_move (f : Field) : (f.move φ).site = f.site.move φ :=
  rfl

@[simp] lemma Method.site_move (m : Method) : (m.move φ).site = m.site.move φ :=
  rfl

@[simp] lemma Program.site_move (p : Program) : (p.move φ).site = p.site.move φ :=
  rfl

end LetDef
