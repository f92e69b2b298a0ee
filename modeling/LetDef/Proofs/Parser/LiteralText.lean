import LetDef.Proofs.Parser.Completeness
import LetDef.Proofs.Token.Segmentation

/-!
# The texts of literals

A text may be a literal by itself: it is a single token, and the parser reads that token as the
literal wherever an expression may stand. The shape of the text decides this.
-/

namespace LetDef.Parser

open LetDef.Grammar
open LetDef.Token (Shape SignPart WholePart FractionPart Spells)

variable {t : Token} {v : Value} {sort : String} {kind : Token.Kind} {text : List Char}

/-- The parser of expressions reads the token as the literal, where nothing continues it. -/
def ReadAs (t : Token) (v : Value) (sort : String) : Prop :=
  ∀ width, ReadsExpression width [t] (.literal (markOf t) (.value v) sort)

/-- The text is a single token of the kind, which is read as the literal. -/
def IsLiteral (text : List Char) (kind : Token.Kind) (v : Value) (sort : String) : Prop :=
  ∀ file, ∃ t, Token.scan file (String.ofList text) = .ok [t] ∧ t.kind = kind ∧
    t.lexeme = String.ofList text ∧ ReadAs t v sort

/-- A text with the shape of a token is scanned as this token alone. -/
lemma scan_of_shape (h : Shape kind text) (file : String) :
    Token.scan file (String.ofList text) = .ok [⟨kind, String.ofList text, .start file⟩] := by
  have hcut : Token.Cut (.start file) (text ++ []) [⟨kind, String.ofList text, .start file⟩] :=
    .token h (Token.bounded_of_blank (by simp)) .done
  rw [List.append_nil] at hcut
  rw [Token.scan, String.toList_ofList]
  exact Token.scanFrom_of_cut hcut

/-- A primary is an operand of every level, and so an expression. -/
lemma expression_of_primary {name : Token → Prop} {ts : List Token} {e : Node}
    (h : Primary name ts e) : Expression name ts e := by
  have hmultiplicative : Operation name .multiplicative ts e :=
    .operand (.secondary rfl (.primary h))
  have hadditive : Operation name .additive ts e := .operand (.tighter rfl hmultiplicative)
  have hcomparison : Operation name .comparison ts e := .operand (.tighter rfl hadditive)
  exact .logical (.operand (.tighter rfl hcomparison))

lemma readAs_of_literal (hshape : Shape t.kind t.lexeme.toList) (hshort : IsShort t)
    (h : Literal t v sort) : ReadAs t v sort := by
  intro width
  refine readsExpression (expression_of_primary (.literal h)) ?_
  intro u hu
  obtain rfl := List.mem_singleton.mp hu
  exact ⟨hshape, hshort⟩

/-- A text is a literal if it has the shape of a token that stands for it. -/
lemma isLiteral_of_shape (hshape : Shape kind text)
    (hliteral : ∀ t : Token, t.kind = kind → t.lexeme.toList = text →
      IsShort t ∧ Literal t v sort) :
    IsLiteral text kind v sort := by
  intro file
  refine ⟨_, scan_of_shape hshape file, rfl, rfl, ?_⟩
  obtain ⟨hshort, hread⟩ :=
    hliteral ⟨kind, String.ofList text, .start file⟩ rfl String.toList_ofList
  exact readAs_of_literal (by rwa [String.toList_ofList]) hshort hread

lemma isShort_of_kind (h : t.kind ≠ .integer) : IsShort t :=
  fun hk => absurd hk h

lemma isLiteral_integer {sign ds : List Char} (hs : SignPart sign) (hd : WholePart ds)
    (hshort : ds.length ≤ Number.maxDigits) :
    IsLiteral (sign ++ ds) .integer (.integer (signedNumber sign ds)) "integer" := by
  refine isLiteral_of_shape (.integer hs hd) fun t hk ht => ⟨fun _ => ?_, .integer hk ht hs hd⟩
  rwa [ht, count_digits hs hd]

lemma isLiteral_decimal {sign ds fs : List Char} (hs : SignPart sign) (hd : WholePart ds)
    (hf : FractionPart fs) :
    IsLiteral (sign ++ ds ++ '.' :: fs) .decimal
      (.decimal ⟨sign = ['-'], Number.ofDigits (ds ++ fs), -fs.length⟩) "decimal" :=
  isLiteral_of_shape (.decimal hs hd hf) fun _ hk ht =>
    ⟨isShort_of_kind (by simp [hk]), .decimal hk ht hs hd hf⟩

lemma isLiteral_character {body : List Char} {c : Char} (h : Spells '\'' body [c]) :
    IsLiteral ('\'' :: body ++ ['\'']) .character (.text c.toString) "character" :=
  isLiteral_of_shape (.character h) fun _ hk ht =>
    ⟨isShort_of_kind (by simp [hk]), .character hk ht h⟩

lemma isLiteral_string {body cs : List Char} (h : Spells '"' body cs) :
    IsLiteral ('"' :: body ++ ['"']) .string (.text (String.ofList cs)) "string" :=
  isLiteral_of_shape (.string h) fun _ hk ht =>
    ⟨isShort_of_kind (by simp [hk]), .string hk ht h⟩

end LetDef.Parser
