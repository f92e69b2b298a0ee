import LetDef.Proofs.Outline.Data
import LetDef.Proofs.Syntax.WellFormed

/-!
# A node in an outline

In an outline a node is its data and its parts, which stand under labels. Both together tell the
node but for its mark, where the parts may be known only without their marks.
-/

namespace LetDef.Node

variable {n a b : Node} {k : Kind} {depth : Nat}

/-! ### Trees without marks -/

@[simp] lemma unmarked_all (ns : List Node) : unmarked.all ns = ns.map unmarked := by
  induction ns with
  | nil => rfl
  | cons n ns ih => rw [unmarked.all, ih, List.map_cons]

@[simp] lemma isPresent_unmarked (n : Node) : n.unmarked.isPresent = n.isPresent := by
  cases n <;> rfl

/-! ### Data and parts -/

/-- The data in the line of a node. -/
def data : Node → List String
  | .absent => []
  | .literal _ value sort => ["value=" ++ value.quoted, "literal_type=" ++ Text.quote sort]
  | .group _ body => absence "expression" body
  | .binary _ operator left right =>
    ("operator=" ++ Text.quote operator) :: (absence "left" left ++ absence "right" right)
  | .access _ receiver name => absence "receiver" receiver ++ ["name=" ++ Text.quote name]
  | .call _ receiver name _ => absence "receiver" receiver ++ ["name=" ++ Text.quote name]
  | .perform _ expression => absence "expression" expression
  | .declare _ name typeName value =>
    ("name=" ++ Text.quote name) :: ("type_name=" ++ quotedName? typeName)
      :: absence "value" value
  | .assign _ receiver value => absence "receiver" receiver ++ absence "value" value
  | .branch _ condition _ _ => absence "condition" condition
  | .forLoop _ initializer condition increment _ =>
    absence "initialization" initializer ++ absence "condition" condition
      ++ absence "increment" increment
  | .whileLoop _ condition _ => absence "condition" condition
  | .giveBack _ value => absence "value" value
  | .field _ name typeName constant value =>
    ("name=" ++ Text.quote name) :: ("type_name=" ++ quotedName? typeName)
      :: ("is_constant=" ++ (Value.boolean constant).quoted) :: absence "value" value
  | .method _ name parameters parameterTypes returnType _ =>
    ("name=" ++ Text.quote name) :: (nameData "parameters" parameters
      ++ (nameData "parameter_type_names" parameterTypes
        ++ ["return_type_name=" ++ quotedName? returnType]))
  | .program _ _ _ => []

/-- A part that may be absent, as a list. -/
def present (n : Node) : List Node :=
  [n].filter isPresent

/-- The parts of a node under their labels. -/
def parts : Node → List (String × List Node)
  | .absent => []
  | .literal _ _ _ => []
  | .group _ body => [("expression", body.present)]
  | .binary _ _ left right => [("left", left.present), ("right", right.present)]
  | .access _ receiver _ => [("receiver", receiver.present)]
  | .call _ receiver _ arguments => [("receiver", receiver.present), ("arguments", arguments)]
  | .perform _ expression => [("expression", expression.present)]
  | .declare _ _ _ value => [("value", value.present)]
  | .assign _ receiver value => [("receiver", receiver.present), ("value", value.present)]
  | .branch _ condition thenBody elseBody =>
    [("condition", condition.present), ("then_statements", thenBody),
      ("else_statements", elseBody)]
  | .forLoop _ initializer condition increment body =>
    [("initialization", initializer.present), ("condition", condition.present),
      ("increment", increment.present), ("statements", body)]
  | .whileLoop _ condition body => [("condition", condition.present), ("statements", body)]
  | .giveBack _ value => [("value", value.present)]
  | .field _ _ _ _ value => [("value", value.present)]
  | .method _ _ _ _ _ body => [("statements", body)]
  | .program _ fields methods => [("fields", fields), ("methods", methods)]

/-- The lines of the parts of a node at a depth. -/
def sections (depth : Nat) (parts : List (String × List Node)) : List String :=
  parts.flatMap fun part => labelled depth part.1 (outlineLines.all (depth + 2) part.2)

lemma outlineLines_present (depth : Nat) (n : Node) :
    outlineLines.all depth n.present = n.outlineLines depth := by
  cases n with
  | absent => rfl
  | _ => exact List.append_nil _

/-- The outline of a node is its line and the lines of its parts. -/
lemma outlineLines_eq (h : n.kind? = some k) :
    n.outlineLines depth = headLine depth k n.data :: sections depth n.parts := by
  cases n <;> cases h <;>
    simp only [outlineLines, data, parts, sections, List.flatMap_cons, List.flatMap_nil,
      outlineLines_present, List.append_nil, List.cons_append, List.nil_append, List.append_assoc]

/-! ### What data and parts tell -/

lemma unmarked_of_present (h : a.present.map unmarked = b.present.map unmarked) :
    a.unmarked = b.unmarked := by
  cases ha : a.isPresent <;> cases hb : b.isPresent <;>
    simp only [present, List.filter_cons, ha, hb, if_true, List.filter_nil, List.map_cons,
      List.map_nil, List.cons.injEq, and_true, reduceCtorEq, Bool.false_eq_true, if_false] at h
  · cases a <;> cases ha
    cases b <;> cases hb
    rfl
  · exact h

@[simp] lemma absence_unmarked (label : String) (n : Node) :
    absence label n.unmarked = absence label n := by
  rw [absence, absence, isPresent_unmarked]

/-- The name behind the part that may be absent. -/
lemma name_of_data {name name' : String} (hab : a.unmarked = b.unmarked)
    (h : joined (absence "receiver" a ++ ["name=" ++ Text.quote name])
      = joined (absence "receiver" b ++ ["name=" ++ Text.quote name'])) : name = name' := by
  rw [← absence_unmarked _ a, hab, absence_unmarked] at h
  have hitem := congrArg String.toList (joined_snoc_inj h)
  rw [String.toList_append, String.toList_append] at hitem
  exact Text.selfDelimiting_quote.injective (List.append_cancel_left hitem)

/-- The value of a literal and its sort. -/
lemma literal_of_data {m m' : Mark} {v w : Value} {sort sort' : String}
    (h : joined (literal m (.value v) sort).data = joined (literal m' (.value w) sort').data) :
    v = w ∧ sort = sort' := by
  simp only [data, Datum.quoted, joined_cons, listed, List.flatMap_cons, List.flatMap_nil,
    String.toList_append, List.append_assoc, List.append_nil] at h
  obtain ⟨hvalue, hrest⟩ := Value.quoted_append_comma_inj (List.append_cancel_left h)
  have hsort := List.append_cancel_left (List.cons.inj hrest).2
  exact ⟨hvalue, Text.selfDelimiting_quote.injective hsort⟩

/-- The data of a method. -/
lemma method_of_data {m m' : Mark} {name name' : String} {parameters parameters' : List String}
    {types types' : List String} {returns returns' : Option String} {body body' : List Node}
    (h : joined (method m name parameters types returns body).data
      = joined (method m' name' parameters' types' returns' body').data) :
    name = name' ∧ parameters = parameters' ∧ types = types' ∧ returns = returns' := by
  have hlast (returns : Option String) : ¬ listed ["parameter_type_names" ++ "="] <+:
      listed ["return_type_name=" ++ quotedName? returns] :=
    not_label_prefix (by decide) (by decide)
  have hmiddle (types : List String) (returns : Option String) : ¬ listed ["parameters" ++ "="] <+:
      listed (nameData "parameter_type_names" types
        ++ ["return_type_name=" ++ quotedName? returns]) := by
    cases types with
    | nil => exact not_label_prefix (by decide) (by decide)
    | cons name types => exact not_label_prefix (by decide) (by decide)
  obtain ⟨hname, h₁⟩ := joined_cons_inj Text.selfDelimiting_quote h
  obtain ⟨hparameters, h₂⟩ := nameData_append_inj (hmiddle _ _) (hmiddle _ _) h₁
  obtain ⟨htypes, h₃⟩ := nameData_append_inj (hlast _) (hlast _) h₂
  obtain ⟨hreturns, -⟩ := listed_cons_inj selfDelimiting_quotedName h₃
  exact ⟨hname, hparameters, htypes, hreturns⟩

/-- The same data and, without marks, the same parts: so without marks the nodes are the same. -/
lemma unmarked_eq (ha : a.kind? = some k) (hb : b.kind? = some k)
    (hla : ∀ m d s, a = .literal m d s → ∃ v, d = .value v)
    (hlb : ∀ m d s, b = .literal m d s → ∃ v, d = .value v)
    (hdata : joined a.data = joined b.data)
    (hparts : List.Forall₂ (fun x y => x.2.map unmarked = y.2.map unmarked) a.parts b.parts) :
    a.unmarked = b.unmarked := by
  -- Only nodes of one kind are left, and each kind has its own data to read back from the text.
  cases a <;> cases ha <;> cases b <;> cases hb <;>
    simp only [parts, List.forall₂_cons, and_true, List.Forall₂.nil] at hparts
  case literal.refl.literal.refl m d sort m' d' sort' =>
    obtain ⟨v, rfl⟩ := hla m d sort rfl
    obtain ⟨w, rfl⟩ := hlb m' d' sort' rfl
    obtain ⟨rfl, rfl⟩ := literal_of_data hdata
    rfl
  case group.refl.group.refl => rw [unmarked, unmarked, unmarked_of_present hparts]
  case binary.refl.binary.refl =>
    have hleft := unmarked_of_present hparts.1
    have hright := unmarked_of_present hparts.2
    obtain ⟨rfl, -⟩ := joined_cons_inj Text.selfDelimiting_quote hdata
    rw [unmarked, unmarked, hleft, hright]
  case access.refl.access.refl =>
    have hreceiver := unmarked_of_present hparts
    rw [unmarked, unmarked, hreceiver, name_of_data hreceiver hdata]
  case call.refl.call.refl =>
    have hreceiver := unmarked_of_present hparts.1
    rw [unmarked, unmarked, unmarked_all, unmarked_all, hreceiver, name_of_data hreceiver hdata,
      hparts.2]
  case perform.refl.perform.refl => rw [unmarked, unmarked, unmarked_of_present hparts]
  case declare.refl.declare.refl =>
    obtain ⟨rfl, h₁⟩ := joined_cons_inj Text.selfDelimiting_quote hdata
    obtain ⟨rfl, -⟩ := listed_cons_inj selfDelimiting_quotedName h₁
    rw [unmarked, unmarked, unmarked_of_present hparts]
  case assign.refl.assign.refl =>
    rw [unmarked, unmarked, unmarked_of_present hparts.1, unmarked_of_present hparts.2]
  case branch.refl.branch.refl =>
    simp only [unmarked, unmarked_all, unmarked_of_present hparts.1, hparts.2.1, hparts.2.2]
  case forLoop.refl.forLoop.refl =>
    simp only [unmarked, unmarked_all, unmarked_of_present hparts.1, unmarked_of_present hparts.2.1,
      unmarked_of_present hparts.2.2.1, hparts.2.2.2]
  case whileLoop.refl.whileLoop.refl =>
    simp only [unmarked, unmarked_all, unmarked_of_present hparts.1, hparts.2]
  case giveBack.refl.giveBack.refl => rw [unmarked, unmarked, unmarked_of_present hparts]
  case field.refl.field.refl =>
    obtain ⟨rfl, h₁⟩ := joined_cons_inj Text.selfDelimiting_quote hdata
    obtain ⟨rfl, h₂⟩ := listed_cons_inj selfDelimiting_quotedName h₁
    obtain ⟨rfl, -⟩ := listed_cons_inj Value.selfDelimiting_boolean h₂
    rw [unmarked, unmarked, unmarked_of_present hparts]
  case method.refl.method.refl =>
    obtain ⟨rfl, rfl, rfl, rfl⟩ := method_of_data hdata
    rw [unmarked, unmarked, unmarked_all, unmarked_all, hparts]
  case program.refl.program.refl => simp only [unmarked, unmarked_all, hparts.1, hparts.2]

end LetDef.Node
