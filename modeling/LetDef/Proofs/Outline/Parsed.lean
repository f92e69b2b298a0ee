import LetDef.Proofs.Outline.Layout
import LetDef.Proofs.Parser.Yields

/-!
# Trees that are read are regular

Whatever tokens a parser is given, also ones that no text has, what it reads is regular. So it
suffices to know of each parser what it produces, and not from which tokens.
-/

namespace LetDef

/-! ### Regular nodes -/

namespace Node

variable {n : Node} {k : Kind}

lemma forall_mem_present {motive : Node → Prop} :
    (∀ c ∈ n.present, motive c) ↔ (n.isPresent = true → motive n) := by
  simp [present]

/-- A node that is no literal is regular if its parts are. -/
lemma Regular.of_parts (hkind : n.kind? = some k) (hk : k ≠ .literal)
    (h : ∀ part ∈ n.parts, ∀ c ∈ part.2, c.Regular) : n.Regular := by
  refine .intro ?_ ?_ h
  · cases n with
    | absent => cases hkind
    | _ => rfl
  · rintro m d s rfl
    cases hkind
    exact absurd rfl hk

/-- The tree is regular, if it is there. -/
def RegularIfPresent (n : Node) : Prop :=
  n.isPresent = true → n.Regular

lemma Regular.ifPresent (h : n.Regular) : n.RegularIfPresent :=
  fun _ => h

lemma regularIfPresent_absent : RegularIfPresent .absent := by
  intro h
  cases h

lemma regular_assign {m : Mark} {receiver value : Node} (hr : receiver.Regular)
    (hv : value.Regular) : (assign m receiver value).Regular :=
  .of_parts rfl (by decide) (by simp [parts, forall_mem_present, hr, hv])

lemma regular_access {m : Mark} {receiver : Node} {name : String}
    (h : receiver.RegularIfPresent) : (access m receiver name).Regular :=
  .of_parts rfl (by decide) (by simpa [parts, forall_mem_present, RegularIfPresent] using h)

lemma regular_call {m : Mark} {receiver : Node} {name : String} {arguments : List Node}
    (h : receiver.RegularIfPresent) (hs : ∀ e ∈ arguments, e.Regular) :
    (call m receiver name arguments).Regular :=
  .of_parts rfl (by decide)
    (by simpa [parts, forall_mem_present, RegularIfPresent] using ⟨h, hs⟩)

lemma regular_declare {m : Mark} {name : String} {typeName : Option String} {value : Node}
    (h : value.RegularIfPresent) : (declare m name typeName value).Regular :=
  .of_parts rfl (by decide) (by simpa [parts, forall_mem_present, RegularIfPresent] using h)

end Node

namespace Parser

open Node (Regular RegularIfPresent parts forall_mem_present)

variable {α β : Type} {good : α → Prop} {good' : β → Prop} {width depth : Nat}

/-! ### What parsers produce -/

/-- Whatever the parser reads, from any tokens, is good. -/
def Produces (good : α → Prop) (p : Parse α) : Prop :=
  ∀ ⦃ts a rest⦄, Yields p ts a rest → good a

lemma produces_pure {a : α} (h : good a) : Produces good (pure a) := by
  intro ts b rest hb
  rw [(yields_pure.1 hb).1]
  exact h

lemma produces_throw {e : Halt} : Produces good (throw e) :=
  fun _ _ _ h => absurd h not_yields_throw

lemma produces_fail {f : Fault} : Produces good (fail f) :=
  fun _ _ _ h => absurd h not_yields_fail

lemma produces_miss {slot : Slot} : Produces good (miss slot) :=
  fun _ _ _ h => absurd h not_yields_miss

lemma produces_tooDeep : Produces good tooDeep :=
  fun _ _ _ h => absurd h not_yields_tooDeep

lemma Produces.bind {p : Parse α} {f : α → Parse β} (hp : Produces good p)
    (hf : ∀ a, good a → Produces good' (f a)) : Produces good' (p >>= f) := by
  intro ts b rest hb
  obtain ⟨a, us, ha, hb⟩ := yields_bind.1 hb
  exact hf a (hp ha) hb

/-- What the first parser reads does not matter. -/
lemma produces_after {p : Parse α} {f : α → Parse β} (hf : ∀ a, Produces good' (f a)) :
    Produces good' (p >>= f) := by
  intro ts b rest hb
  obtain ⟨a, us, -, hb⟩ := yields_bind.1 hb
  exact hf a hb

lemma Produces.ite {c : Prop} [Decidable c] {p q : Parse α} (hp : Produces good p)
    (hq : Produces good q) : Produces good (if c then p else q) := by
  split
  · exact hp
  · exact hq

/-- A choice of parsers before the same continuation. -/
lemma Produces.ite_bind {c : Prop} [Decidable c] {p q : Parse α} {f : α → Parse β}
    (hp : Produces good p) (hq : Produces good q) (hf : ∀ a, good a → Produces good' (f a)) :
    Produces good' (if c then p >>= f else q >>= f) :=
  .ite (hp.bind hf) (hq.bind hf)

lemma Produces.imp {good₁ good₂ : α → Prop} {p : Parse α} (h : Produces good₁ p)
    (himp : ∀ a, good₁ a → good₂ a) : Produces good₂ p :=
  fun _ a _ ha => himp a (h ha)

lemma produces_nil : Produces (fun as => ∀ a ∈ as, good a) (pure []) :=
  produces_pure (List.forall_mem_nil _)

lemma produces_partAfter {s : String} {p : Parse Node} (h : Produces Regular p) :
    Produces RegularIfPresent (partAfter s p) :=
  produces_after fun _ =>
    .ite (h.imp fun _ hn => hn.ifPresent) (produces_pure Node.regularIfPresent_absent)

lemma produces_commaList {item : Parse α} (h : Produces good item) :
    ∀ width, Produces (fun as => ∀ a ∈ as, good a) (commaList item width) := by
  intro width
  induction width with
  | zero => exact h.bind fun a ha => produces_pure (by simpa using ha)
  | succ width ih =>
    refine h.bind fun a ha => produces_after fun _ => .ite ?_ (produces_pure (by simpa using ha))
    exact ih.bind fun as has => produces_pure (List.forall_mem_cons.2 ⟨ha, has⟩)

/-! ### Expressions -/

lemma regular_literalAt (t : Token) (v : Value) (sort : String) :
    (literalAt t v sort).Regular := by
  refine .intro rfl ?_ (by simp [literalAt, parts])
  intro m d s h
  cases h
  exact ⟨v, rfl⟩

lemma produces_integerLiteral (t : Token) : Produces Regular (integerLiteral t) := by
  unfold integerLiteral
  split
  · exact produces_pure (regular_literalAt ..)
  · exact produces_throw

lemma produces_decimalLiteral (t : Token) : Produces Regular (decimalLiteral t) := by
  unfold decimalLiteral
  split
  · exact produces_pure (regular_literalAt ..)
  · exact produces_throw

lemma produces_characterLiteral (t : Token) : Produces Regular (characterLiteral t) := by
  refine produces_after fun cs => ?_
  split
  · exact produces_pure (regular_literalAt ..)
  · exact produces_fail

lemma produces_stringLiteral (t : Token) : Produces Regular (stringLiteral t) :=
  produces_after fun _ => produces_pure (regular_literalAt ..)

lemma produces_operatorChain {operators : List String} {operand : Parse Node}
    (h : Produces Regular operand) (width : Nat) :
    ∀ {left}, left.Regular → Produces Regular (operatorChain operators operand width left) := by
  induction width with
  | zero => exact fun hl => produces_pure hl
  | succ width ih =>
    intro left hl
    refine produces_after fun o => ?_
    cases o with
    | none => exact produces_pure hl
    | some t =>
      refine h.bind fun right hr => ih ?_
      exact .of_parts rfl (by decide) (by simp [parts, forall_mem_present, hl, hr])

lemma produces_memberChain {arguments : Parse (List Node)}
    (h : Produces (fun es => ∀ e ∈ es, e.Regular) arguments) (width : Nat) :
    ∀ {e}, e.Regular → Produces Regular (memberChain arguments width e) := by
  induction width with
  | zero => exact fun he => produces_pure he
  | succ width ih =>
    intro e he
    refine produces_after fun _ => .ite ?_ (produces_pure he)
    refine produces_after fun _ => produces_after fun _ => .ite ?_ ?_
    · exact h.bind fun es hes => ih (Node.regular_call he.ifPresent hes)
    · exact ih (Node.regular_access he.ifPresent)

/-- The parsers of expressions produce regular trees at a depth. -/
structure ExpressionsRegular (width depth : Nat) : Prop where
  expression : Produces Regular (expression width depth)
  operation (level : Level) : Produces Regular (operation width level depth)
  secondary : Produces Regular (secondary width depth)
  primary : Produces Regular (primary width depth)
  arguments : Produces (fun es => ∀ e ∈ es, e.Regular) (arguments width depth)

lemma produces_operation (h : ExpressionsRegular width depth) (level : Level) :
    Produces Regular (operation width level (depth + 2)) := by
  rw [operation]
  cases level.tighter? with
  | some tighter =>
    exact (h.operation tighter).bind fun _ => produces_operatorChain (h.operation tighter) width
  | none => exact h.secondary.bind fun _ => produces_operatorChain h.secondary width

lemma produces_secondary (h : ExpressionsRegular width depth) :
    Produces Regular (secondary width (depth + 1)) := by
  rw [secondary]
  exact h.primary.bind fun _ => produces_memberChain h.arguments width

lemma produces_primary (h : ExpressionsRegular width depth) :
    Produces Regular (primary width (depth + 1)) := by
  rw [primary]
  refine produces_after fun ts => ?_
  cases ts with
  | nil => exact produces_miss
  | cons t rest =>
    have hword (v : Value) (sort : String) :
        Produces Regular (do set rest; return literalAt t v sort) :=
      produces_after fun _ => produces_pure (regular_literalAt ..)
    refine .ite (hword ..) (.ite (hword ..) (.ite (hword ..) ?_))
    split
    · exact produces_after fun _ => produces_integerLiteral t
    · exact produces_after fun _ => produces_decimalLiteral t
    · exact produces_after fun _ => produces_characterLiteral t
    · exact produces_after fun _ => produces_stringLiteral t
    · refine .ite ?_ (.ite ?_ produces_miss)
      · refine produces_after fun _ => h.expression.bind fun e he => produces_after fun _ => ?_
        refine produces_pure (.of_parts rfl (by decide) ?_)
        simp [parts, forall_mem_present, he]
      · refine produces_after fun _ => produces_after fun _ => .ite ?_ ?_
        · refine h.arguments.bind fun es hes => produces_pure ?_
          exact Node.regular_call Node.regularIfPresent_absent hes
        · exact produces_pure (Node.regular_access Node.regularIfPresent_absent)

lemma produces_arguments (h : ExpressionsRegular width depth) :
    Produces (fun es => ∀ e ∈ es, e.Regular) (arguments width (depth + 1)) := by
  rw [arguments]
  refine produces_after fun _ => .ite_bind produces_nil (produces_commaList h.expression width) ?_
  exact fun es hes => produces_after fun _ => produces_pure hes

lemma expressionsRegular_zero : ExpressionsRegular width 0 :=
  ⟨produces_tooDeep, fun _ => produces_tooDeep, produces_tooDeep, produces_tooDeep,
    produces_tooDeep⟩

/-- From two depths the next one, since a level of operators takes two units of depth. -/
lemma ExpressionsRegular.next (h : ExpressionsRegular width depth)
    (hoperation : ∀ level, Produces Regular (Parser.operation width level (depth + 1))) :
    ExpressionsRegular width (depth + 1) :=
  ⟨h.operation .logical, hoperation, produces_secondary h, produces_primary h,
    produces_arguments h⟩

theorem expressionsRegular (width depth : Nat) :
    ExpressionsRegular width depth ∧ ExpressionsRegular width (depth + 1) := by
  induction depth with
  | zero =>
    exact ⟨expressionsRegular_zero, expressionsRegular_zero.next fun _ => produces_tooDeep⟩
  | succ depth ih => exact ⟨ih.2, ih.2.next (produces_operation ih.1)⟩

lemma produces_expression (width depth : Nat) : Produces Regular (expression width depth) :=
  (expressionsRegular width depth).1.expression

/-! ### Statements -/

lemma produces_declaration (width : Nat) (mark : Mark) (depth : Nat) :
    Produces Regular (declaration width mark depth) := by
  cases depth with
  | zero => exact produces_tooDeep
  | succ depth =>
    refine produces_after fun _ => produces_after fun _ => ?_
    refine (produces_partAfter (produces_expression width depth)).bind fun value hv => ?_
    exact produces_after fun _ => produces_pure (Node.regular_declare hv)

lemma produces_giveBack (width : Nat) (mark : Mark) (depth : Nat) :
    Produces Regular (giveBack width mark depth) := by
  cases depth with
  | zero => exact produces_tooDeep
  | succ depth =>
    refine (produces_expression width depth).bind fun value hv => produces_after fun _ => ?_
    exact produces_pure (.of_parts rfl (by decide) (by simp [parts, forall_mem_present, hv]))

lemma produces_simpleStatement (width depth : Nat) :
    Produces Regular (simpleStatement width depth) := by
  refine produces_after fun _ => (produces_expression width depth).bind fun receiver hr => ?_
  refine produces_after fun _ => .ite ?_ (produces_after fun _ => produces_pure ?_)
  · refine (produces_expression width depth).bind fun value hv => produces_after fun _ => ?_
    exact produces_pure (Node.regular_assign hr hv)
  · exact .of_parts rfl (by decide) (by simp [parts, forall_mem_present, hr])

lemma produces_initializer (width depth : Nat) :
    Produces RegularIfPresent (initializer width depth) := by
  refine produces_after fun mark => produces_after fun _ => .ite ?_ ?_
  · exact (produces_declaration width mark depth).imp fun _ hn => hn.ifPresent
  refine produces_after fun _ => .ite (produces_pure Node.regularIfPresent_absent) ?_
  refine (produces_expression width depth).bind fun receiver hr => produces_after fun _ => ?_
  refine (produces_expression width depth).bind fun value hv => produces_after fun _ => ?_
  exact produces_pure (Node.regular_assign hr hv).ifPresent

lemma produces_increment (width depth : Nat) : Produces Regular (increment width depth) := by
  cases depth with
  | zero => exact produces_tooDeep
  | succ depth =>
    refine produces_after fun mark => (produces_expression width depth).bind fun receiver hr => ?_
    have hrest : Produces Regular (do
        let _ ← take .incrementEquals
        return .assign mark receiver (← expression width depth)) :=
      produces_after fun _ => (produces_expression width depth).bind fun value hv =>
        produces_pure (Node.regular_assign hr hv)
    exact .ite (produces_after fun _ => hrest) hrest

lemma produces_statementsUntil {terminators : List String} {statement : Parse Node}
    (h : Produces Regular statement) :
    ∀ width, Produces (fun ns => ∀ n ∈ ns, n.Regular)
      (statementsUntil terminators statement width) := by
  intro width
  induction width with
  | zero => exact produces_miss
  | succ width ih =>
    refine produces_after fun ts => ?_
    cases ts with
    | nil => exact produces_miss
    | cons t rest =>
      refine .ite produces_nil ?_
      refine h.bind fun n hn => ih.bind fun ns hns => produces_pure ?_
      exact List.forall_mem_cons.2 ⟨hn, hns⟩

/-- The parsers of statements produce regular trees at a depth. -/
structure StatementsRegular (width depth : Nat) : Prop where
  block (terminators : List String) :
    Produces (fun ns => ∀ n ∈ ns, n.Regular) (block width terminators depth)
  statement : Produces Regular (statement width depth)
  branch (mark : Mark) : Produces Regular (branch width mark depth)
  forLoop (mark : Mark) : Produces Regular (forLoop width mark depth)
  whileLoop (mark : Mark) : Produces Regular (whileLoop width mark depth)

lemma produces_statement (h : StatementsRegular width depth) :
    Produces Regular (statement width (depth + 1)) := by
  rw [statement]
  refine produces_after fun mark => produces_after fun _ => .ite ?_ ?_
  · exact produces_declaration width mark depth
  refine produces_after fun _ => .ite (h.branch mark) ?_
  refine produces_after fun _ => .ite (h.forLoop mark) ?_
  refine produces_after fun _ => .ite (h.whileLoop mark) ?_
  refine produces_after fun _ => .ite (produces_giveBack width mark depth) ?_
  exact produces_simpleStatement width depth

lemma produces_branch (h : StatementsRegular width depth) (mark : Mark) :
    Produces Regular (branch width mark (depth + 1)) := by
  rw [branch]
  refine (produces_expression width depth).bind fun c hc => produces_after fun _ => ?_
  refine (h.block _).bind fun body hb => produces_after fun _ => ?_
  refine .ite_bind (h.block _) produces_nil fun other ho => produces_after fun _ => ?_
  refine produces_pure (.of_parts rfl (by decide) ?_)
  simpa [parts, forall_mem_present, hc] using ⟨hb, ho⟩

lemma produces_forLoop (h : StatementsRegular width depth) (mark : Mark) :
    Produces Regular (forLoop width mark (depth + 1)) := by
  rw [forLoop]
  refine produces_after fun _ => (produces_initializer width depth).bind fun first hf => ?_
  have habsent : Produces RegularIfPresent (pure .absent) :=
    produces_pure Node.regularIfPresent_absent
  have hcondition := (produces_expression width depth).imp fun _ he => he.ifPresent
  have hincrement := (produces_increment width depth).imp fun _ hn => hn.ifPresent
  refine produces_after fun _ => .ite_bind habsent hcondition fun c hc => ?_
  refine produces_after fun _ => produces_after fun _ => ?_
  refine .ite_bind habsent hincrement fun last hl => produces_after fun _ => ?_
  refine produces_after fun _ => (h.block _).bind fun body hb => produces_after fun _ => ?_
  refine produces_pure (.of_parts rfl (by decide) ?_)
  simpa [parts, forall_mem_present] using ⟨hf, hc, hl, hb⟩

lemma produces_whileLoop (h : StatementsRegular width depth) (mark : Mark) :
    Produces Regular (whileLoop width mark (depth + 1)) := by
  rw [whileLoop]
  refine (produces_expression width depth).bind fun c hc => produces_after fun _ => ?_
  refine (h.block _).bind fun body hb => produces_after fun _ => produces_pure ?_
  exact .of_parts rfl (by decide) (by simpa [parts, forall_mem_present, hc] using hb)

theorem statementsRegular (width depth : Nat) : StatementsRegular width depth := by
  induction depth with
  | zero =>
    exact ⟨fun _ => produces_tooDeep, produces_tooDeep, fun _ => produces_tooDeep,
      fun _ => produces_tooDeep, fun _ => produces_tooDeep⟩
  | succ depth ih =>
    refine ⟨fun terminators => ?_, produces_statement ih, produces_branch ih, produces_forLoop ih,
      produces_whileLoop ih⟩
    exact produces_statementsUntil ih.statement (width + 1)

/-! ### Programs -/

lemma produces_field (width : Nat) (mark : Mark) (depth : Nat) :
    Produces (fun f : Field => f.toNode.Regular) (field width mark depth) := by
  cases depth with
  | zero => exact produces_tooDeep
  | succ depth =>
    refine produces_after fun _ => produces_after fun _ => produces_after fun _ => ?_
    refine (produces_partAfter (produces_expression width depth)).bind fun value hv => ?_
    refine produces_after fun _ => produces_pure (.of_parts rfl (by decide) ?_)
    simpa [Field.toNode, parts, forall_mem_present, RegularIfPresent] using hv

lemma produces_method (width : Nat) (mark : Mark) (depth : Nat) :
    Produces (fun m : Method => m.toNode.Regular) (method width mark depth) := by
  cases depth with
  | zero => exact produces_tooDeep
  | succ depth =>
    refine produces_after fun name => produces_after fun _ => produces_after fun _ => ?_
    have hany (p : Parse (List (String × String))) : Produces (fun _ => True) p :=
      fun _ _ _ _ => trivial
    refine .ite_bind (hany _) (hany _) fun parameters _ => produces_after fun _ => ?_
    refine produces_after fun _ => produces_after fun _ => ?_
    refine ((statementsRegular width depth).block _).bind fun body hb => ?_
    refine produces_after fun _ => produces_pure (.of_parts rfl (by decide) ?_)
    simpa [Method.toNode, parts] using hb

lemma produces_declarations {word : String} {item : Mark → Parse α}
    (h : ∀ mark, Produces good (item mark)) :
    ∀ width, Produces (fun as => ∀ a ∈ as, good a) (declarations word item width) := by
  intro width
  induction width with
  | zero => exact produces_nil
  | succ width ih =>
    refine produces_after fun mark => produces_after fun _ => .ite ?_ ?_
    · exact (h mark).bind fun a ha => ih.bind fun as has =>
        produces_pure (List.forall_mem_cons.2 ⟨ha, has⟩)
    · exact produces_nil

/-- A program that is read is a regular tree. -/
theorem produces_program (width depth : Nat) :
    Produces (fun p : Program => p.toNode.Regular) (program width depth) := by
  refine produces_after fun mark => ?_
  refine (produces_declarations (fun mark => produces_field width mark depth) width).bind
    fun fields hf => ?_
  refine (produces_declarations (fun mark => produces_method width mark depth) width).bind
    fun methods hm => produces_after fun ts => ?_
  cases ts with
  | nil =>
    refine produces_pure (.of_parts rfl (by decide) ?_)
    simpa [Program.toNode, parts] using ⟨hf, hm⟩
  | cons t rest => exact produces_fail

end Parser

end LetDef
