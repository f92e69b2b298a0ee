import LetDef.Proofs.Parser.Grammar

/-!
# Well-formed trees

Which trees are programs, said without tokens: a name or a literal's data stands where one belongs,
and the operands of a binary operator bind tightly enough to need no group. Every tree that the
grammar derives is of this form.
-/

namespace LetDef

open LetDef.Parser (Level)

/-! ### Trees without marks -/

/-- The tree without its marks. -/
def Node.unmarked : Node → Node
  | .absent => .absent
  | .literal _ value sort => .literal {} value sort
  | .group _ body => .group {} body.unmarked
  | .binary _ operator left right => .binary {} operator left.unmarked right.unmarked
  | .access _ receiver name => .access {} receiver.unmarked name
  | .call _ receiver name arguments => .call {} receiver.unmarked name (all arguments)
  | .perform _ expression => .perform {} expression.unmarked
  | .declare _ name typeName value => .declare {} name typeName value.unmarked
  | .assign _ receiver value => .assign {} receiver.unmarked value.unmarked
  | .branch _ condition thenBody elseBody =>
    .branch {} condition.unmarked (all thenBody) (all elseBody)
  | .forLoop _ initializer condition increment body =>
    .forLoop {} initializer.unmarked condition.unmarked increment.unmarked (all body)
  | .whileLoop _ condition body => .whileLoop {} condition.unmarked (all body)
  | .giveBack _ value => .giveBack {} value.unmarked
  | .field _ name typeName constant value => .field {} name typeName constant value.unmarked
  | .method _ name parameters parameterTypes returnType body =>
    .method {} name parameters parameterTypes returnType (all body)
  | .program _ fields methods => .program {} (all fields) (all methods)
where
  /-- The trees without their marks. -/
  all : List Node → List Node
    | [] => []
    | n :: ns => n.unmarked :: all ns

/-- The program without its marks. -/
def Program.unmarked (p : Program) : Node := p.toNode.unmarked

/-! ### Literals -/

/-- The sorts of literal and the data that they have. -/
inductive Value.Denoted : Value → String → Prop
  | nil : Denoted .nil "nil"
  | boolean (b : Bool) : Denoted (.boolean b) "boolean"
  | integer (n : Int) : Denoted (.integer n) "integer"
  | decimal {d : Decimal} (h : d.exponent ≤ -1) : Denoted (.decimal d) "decimal"
  | character (c : Char) : Denoted (.text c.toString) "character"
  | string (s : String) : Denoted (.text s) "string"

/-! ### Expressions -/

/-- How tightly the operators of a level bind. -/
def Parser.Level.rank : Level → Nat
  | .logical => 0
  | .comparison => 1
  | .additive => 2
  | .multiplicative => 3

/-- How tightly an operator binds. -/
def Parser.operatorRank (operator : String) : Nat :=
  if operator ∈ Level.logical.operators then 0
  else if operator ∈ Level.comparison.operators then 1
  else if operator ∈ Level.additive.operators then 2
  else 3

lemma Parser.operatorRank_eq {level : Level} :
    ∀ operator ∈ level.operators, operatorRank operator = level.rank := by
  cases level <;> decide

lemma Parser.rank_tighter {level tighter : Level} (h : level.tighter? = some tighter) :
    level.rank < tighter.rank := by
  cases level <;> cases h <;> decide

lemma Parser.rank_lt (level : Level) : level.rank < 4 := by
  cases level <;> decide

namespace Node

/-- How tightly a tree is held together, at most four. -/
def rank : Node → Nat
  | .binary _ operator _ _ => Parser.operatorRank operator
  | _ => 4

variable (valid : String → Prop) (data : Value → Prop)

/-- The trees that are expressions. -/
inductive IsExpression : Node → Prop
  | literal {m : Mark} {v : Value} {sort : String} (h : v.Denoted sort) (hv : data v) :
      IsExpression (.literal m (.value v) sort)
  | group {m : Mark} {e : Node} (h : IsExpression e) : IsExpression (.group m e)
  | binary {m : Mark} {operator : String} {left right : Node} {level : Level}
      (ho : operator ∈ level.operators) (hl : IsExpression left) (hr : IsExpression right)
      (hleft : level.rank ≤ left.rank) (hright : level.rank < right.rank) :
      IsExpression (.binary m operator left right)
  | name {m : Mark} {s : String} (hs : valid s) : IsExpression (.access m .absent s)
  | access {m : Mark} {e : Node} {s : String} (h : IsExpression e) (he : e.rank = 4)
      (hs : valid s) : IsExpression (.access m e s)
  | call {m : Mark} {s : String} {es : List Node} (hs : valid s)
      (hes : ∀ e ∈ es, IsExpression e) : IsExpression (.call m .absent s es)
  | invoke {m : Mark} {e : Node} {s : String} {es : List Node} (h : IsExpression e)
      (he : e.rank = 4) (hs : valid s) (hes : ∀ e ∈ es, IsExpression e) :
      IsExpression (.call m e s es)

/-- An expression or nothing. -/
def IsOptional (e : Node) : Prop :=
  e = .absent ∨ IsExpression valid data e

/-! ### Statements -/

/-- The trees that are declarations. -/
inductive IsDeclaration : Node → Prop
  | mk {m : Mark} {s : String} {typeName : Option String} {value : Node} (hs : valid s)
      (ht : ∀ t ∈ typeName, valid t) (hv : IsOptional valid data value) :
      IsDeclaration (.declare m s typeName value)

/-- The trees that are assignments. -/
inductive IsAssignment : Node → Prop
  | mk {m : Mark} {receiver value : Node} (hr : IsExpression valid data receiver)
      (hv : IsExpression valid data value) : IsAssignment (.assign m receiver value)

/-- The trees that may stand in the last clause of a FOR loop. -/
inductive IsIncrement : Node → Prop
  | none : IsIncrement .absent
  | some {m : Mark} {receiver value : Node} (hr : IsExpression valid data receiver)
      (ht : Parser.isIncrementTarget receiver = true) (hv : IsExpression valid data value) :
      IsIncrement (.assign m receiver value)

/-- The trees that are statements. -/
inductive IsStatement : Node → Prop
  | declaration {n : Node} (h : IsDeclaration valid data n) : IsStatement n
  | assignment {n : Node} (h : IsAssignment valid data n) : IsStatement n
  | perform {m : Mark} {e : Node} (h : IsExpression valid data e) : IsStatement (.perform m e)
  | branch {m : Mark} {c : Node} {body other : List Node} (hc : IsExpression valid data c)
      (hb : ∀ n ∈ body, IsStatement n) (ho : ∀ n ∈ other, IsStatement n) :
      IsStatement (.branch m c body other)
  | forLoop {m : Mark} {first c last : Node} {body : List Node}
      (hi : first = .absent ∨ IsDeclaration valid data first ∨ IsAssignment valid data first)
      (hc : IsOptional valid data c) (hn : IsIncrement valid data last)
      (hb : ∀ n ∈ body, IsStatement n) : IsStatement (.forLoop m first c last body)
  | whileLoop {m : Mark} {c : Node} {body : List Node} (hc : IsExpression valid data c)
      (hb : ∀ n ∈ body, IsStatement n) : IsStatement (.whileLoop m c body)
  | giveBack {m : Mark} {e : Node} (h : IsExpression valid data e) : IsStatement (.giveBack m e)

end Node

/-! ### Programs -/

section

variable (valid : String → Prop) (data : Value → Prop)

/-- The field has names where they belong and an expression for its value, if it has one. -/
structure Field.WellFormed (f : Field) : Prop where
  name : valid f.name
  typeName : ∀ t ∈ f.typeName, valid t
  value : f.value.IsOptional valid data

/-- The method has names where they belong, a type for each parameter and statements for its
body. -/
structure Method.WellFormed (m : Method) : Prop where
  name : valid m.name
  parameters : ∀ s ∈ m.parameters, valid s
  parameterTypes : ∀ s ∈ m.parameterTypes, valid s
  types_length : m.parameterTypes.length = m.parameters.length
  returnType : ∀ t ∈ m.returnType, valid t
  body : ∀ n ∈ m.body, n.IsStatement valid data

/-- The fields and the methods are well formed. -/
structure Program.WellFormed (p : Program) : Prop where
  fields : ∀ f ∈ p.fields, f.WellFormed valid data
  methods : ∀ m ∈ p.methods, m.WellFormed valid data

end

/-! ### What the grammar derives -/

namespace Grammar

open Node

variable {name : Token → Prop} {valid : String → Prop}

/-- Any data at all. -/
def anyData (_ : Value) : Prop := True

lemma Literal.denoted {t : Token} {v : Value} {sort : String} (h : Literal t v sort) :
    v.Denoted sort := by
  cases h with
  | nil h => exact .nil
  | yes h => exact .boolean true
  | no h => exact .boolean false
  | integer hk ht hs hd => exact .integer _
  | @decimal sign ds fs hk ht hs hd hf =>
    have hpos := List.length_pos_iff.mpr hf.ne_nil
    exact .decimal (by simp only; omega)
  | @character body c hk ht h => exact .character c
  | string hk ht h => exact .string _

/-- The tokens that are names have valid texts. -/
def NamesValid (name : Token → Prop) (valid : String → Prop) : Prop :=
  ∀ t, name t → valid t.lexeme

mutual

theorem Expression.isExpression (hname : NamesValid name valid) {ts : List Token} {e : Node} :
    Expression name ts e → IsExpression valid anyData e
  | .logical h => (h.isExpression hname).1

theorem Operation.isExpression (hname : NamesValid name valid) {level : Level} {ts : List Token}
    {e : Node} :
    Operation name level ts e → IsExpression valid anyData e ∧ level.rank ≤ e.rank
  | .operand h =>
    have he := h.isExpression hname
    ⟨he.1, Nat.le_of_lt he.2⟩
  | .binary hl ho hr =>
    have hleft := hl.isExpression hname
    have hright := hr.isExpression hname
    ⟨.binary ho hleft.1 hright.1 hleft.2 hright.2,
      Nat.le_of_eq (Parser.operatorRank_eq _ ho).symm⟩

theorem Operand.isExpression (hname : NamesValid name valid) {level : Level} {ts : List Token}
    {e : Node} : Operand name level ts e → IsExpression valid anyData e ∧ level.rank < e.rank
  | .tighter hn h =>
    have he := h.isExpression hname
    ⟨he.1, Nat.lt_of_lt_of_le (Parser.rank_tighter hn) he.2⟩
  | .secondary _ h =>
    have he := h.isExpression hname
    ⟨he.1, he.2 ▸ Parser.rank_lt level⟩

theorem Secondary.isExpression (hname : NamesValid name valid) {ts : List Token} {e : Node} :
    Secondary name ts e → IsExpression valid anyData e ∧ e.rank = 4
  | .primary h => h.isExpression hname
  | .access h _ ht =>
    have he := h.isExpression hname
    ⟨.access he.1 he.2 (hname _ ht), rfl⟩
  | .call h _ ht _ hs _ =>
    have he := h.isExpression hname
    ⟨.invoke he.1 he.2 (hname _ ht) (hs.isExpression hname), rfl⟩

theorem Primary.isExpression (hname : NamesValid name valid) {ts : List Token} {e : Node} :
    Primary name ts e → IsExpression valid anyData e ∧ e.rank = 4
  | .literal h => ⟨.literal h.denoted trivial, rfl⟩
  | .group _ h _ => ⟨.group (h.isExpression hname), rfl⟩
  | .access ht => ⟨.name (hname _ ht), rfl⟩
  | .call ht _ hs _ => ⟨.call (hname _ ht) (hs.isExpression hname), rfl⟩

theorem Arguments.isExpression (hname : NamesValid name valid) {ts : List Token}
    {es : List Node} : Arguments name ts es → ∀ e ∈ es, IsExpression valid anyData e
  | .none => by simp
  | .some h => h.isExpression hname

theorem ArgumentList.isExpression (hname : NamesValid name valid) {ts : List Token}
    {es : List Node} : ArgumentList name ts es → ∀ e ∈ es, IsExpression valid anyData e
  | .one h => by simpa using h.isExpression hname
  | .more h _ hs => List.forall_mem_cons.mpr ⟨h.isExpression hname, hs.isExpression hname⟩

end

variable {ts : List Token}

lemma TypePart.valid_type {o : Option String} (hname : NamesValid name valid)
    (h : TypePart name ts o) : ∀ t ∈ o, valid t := by
  cases h with
  | none => simp
  | some hc ht => simpa using hname _ ht

lemma ValuePart.isOptional {v : Node} (hname : NamesValid name valid)
    (h : ValuePart name ts v) : IsOptional valid anyData v := by
  cases h with
  | none => exact .inl rfl
  | some he h => exact .inr (h.isExpression hname)

lemma Declaration.isDeclaration {n : Node} (hname : NamesValid name valid)
    (h : Declaration name ts n) : IsDeclaration valid anyData n := by
  cases h with
  | mk hw ht hty hv => exact .mk (hname _ ht) (hty.valid_type hname) (hv.isOptional hname)

lemma Assignment.isAssignment {receiver value : Node} {m : Mark} (hname : NamesValid name valid)
    (h : Assignment name ts receiver value) :
    IsAssignment valid anyData (.assign m receiver value) := by
  cases h with
  | mk hr he hv => exact .mk (hr.isExpression hname) (hv.isExpression hname)

lemma Initializer.cases_of {n : Node} (hname : NamesValid name valid)
    (h : Initializer name ts n) :
    n = .absent ∨ IsDeclaration valid anyData n ∨ IsAssignment valid anyData n := by
  cases h with
  | none => exact .inl rfl
  | declaration h => exact .inr (.inl (h.isDeclaration hname))
  | assignment h => exact .inr (.inr (h.isAssignment hname))

lemma Condition.isOptional {n : Node} (hname : NamesValid name valid)
    (h : Condition name ts n) : IsOptional valid anyData n := by
  cases h with
  | none => exact .inl rfl
  | some h => exact .inr (h.isExpression hname)

lemma Increment.isIncrement {n : Node} (hname : NamesValid name valid)
    (h : Increment name ts n) : IsIncrement valid anyData n := by
  cases h with
  | none => exact .none
  | some h ht =>
    cases h with
    | mk hr he hv => exact .some (hr.isExpression hname) ht (hv.isExpression hname)

mutual

theorem Statement.isStatement (hname : NamesValid name valid) {ts : List Token} {n : Node} :
    Statement name ts n → IsStatement valid anyData n
  | .declaration h _ => .declaration (h.isDeclaration hname)
  | .assignment h _ => .assignment (h.isAssignment hname)
  | .perform h _ => .perform (h.isExpression hname)
  | .branch _ hc _ hb _ => .branch (hc.isExpression hname) (hb.isStatement hname) (by simp)
  | .branchElse _ hc _ hb _ hb' _ =>
    .branch (hc.isExpression hname) (hb.isStatement hname) (hb'.isStatement hname)
  | .forLoop _ _ hi _ hc _ hn _ _ hb _ =>
    .forLoop (hi.cases_of hname) (hc.isOptional hname) (hn.isIncrement hname)
      (hb.isStatement hname)
  | .whileLoop _ hc _ hb _ => .whileLoop (hc.isExpression hname) (hb.isStatement hname)
  | .giveBack _ h _ => .giveBack (h.isExpression hname)

theorem Statements.isStatement (hname : NamesValid name valid) {ts : List Token}
    {ns : List Node} : Statements name ts ns → ∀ n ∈ ns, IsStatement valid anyData n
  | .nil => by simp
  | .cons h hs => List.forall_mem_cons.mpr ⟨h.isStatement hname, hs.isStatement hname⟩

end

lemma FieldRule.wellFormed {f : Field} (hname : NamesValid name valid)
    (h : FieldRule name ts f) : f.WellFormed valid anyData := by
  cases h with
  | changeable hw ht hty hv hs => exact ⟨hname _ ht, hty.valid_type hname, hv.isOptional hname⟩
  | constant hw hw' ht hty hv hs => exact ⟨hname _ ht, hty.valid_type hname, hv.isOptional hname⟩

lemma Parameter.valid_names {p : String × String} (hname : NamesValid name valid)
    (hany : valid "Any") (h : Parameter name ts p) : valid p.1 ∧ valid p.2 := by
  cases h with
  | mk ht hty =>
    refine ⟨hname _ ht, ?_⟩
    cases hty with
    | none => exact hany
    | some hc ht => exact hname _ ht

lemma ParameterList.valid_names {ps : List (String × String)} (hname : NamesValid name valid)
    (hany : valid "Any") (h : ParameterList name ts ps) : ∀ p ∈ ps, valid p.1 ∧ valid p.2 := by
  induction h with
  | one h => simpa using h.valid_names hname hany
  | more h hc hs ih => exact List.forall_mem_cons.mpr ⟨h.valid_names hname hany, ih⟩

lemma MethodRule.wellFormed {m : Method} (hname : NamesValid name valid) (hany : valid "Any")
    (h : MethodRule name ts m) : m.WellFormed valid anyData := by
  cases h with
  | @mk xs ys zs ps returns body word t left right opening closing hw ht hl hp hr hty ho hb he =>
    have hps : ∀ p ∈ ps, valid p.1 ∧ valid p.2 := by
      cases hp with
      | none => simp
      | some h => exact h.valid_names hname hany
    refine ⟨hname _ ht, ?_, ?_, by simp, hty.valid_type hname, hb.isStatement hname⟩
    · intro s hs
      obtain ⟨p, hp, rfl⟩ := List.mem_map.mp hs
      exact (hps p hp).1
    · intro s hs
      obtain ⟨p, hp, rfl⟩ := List.mem_map.mp hs
      exact (hps p hp).2

lemma Many.forall_mem {α : Type} {rule : List Token → α → Prop} {P : α → Prop} {as : List α}
    (hrule : ∀ {ts a}, rule ts a → P a) (h : Many rule ts as) : ∀ a ∈ as, P a := by
  induction h with
  | nil => simp
  | cons h hs ih => exact List.forall_mem_cons.mpr ⟨hrule h, ih⟩

/-- Every program that the grammar derives is well formed. -/
theorem Source.wellFormed {p : Program} (hname : NamesValid name valid) (hany : valid "Any")
    (h : Source name ts p) : p.WellFormed valid anyData := by
  cases h with
  | mk hf hm =>
    exact ⟨hf.forall_mem fun h => h.wellFormed hname,
      hm.forall_mem fun h => h.wellFormed hname hany⟩

end Grammar

end LetDef
