import LetDef.Proofs.Parser.LiteralText
import LetDef.Proofs.Parser.Lookahead
import LetDef.Proofs.Parser.Spelling

/-!
# Quoted literals

The scanner checks the escapes in a quoted text and the parser replaces them. Both pair the
backslashes alike: a text that is escaped stands for itself between its quotes, and no token that
the scanner lets through is refused by the parser.
-/

namespace LetDef.Parser

/-! ### Faults -/

/-- The tokens of a text have a fault only for a token that does not fit or is missing. -/
lemma fault_of_ofTokens {ts : List Token} {depth : Nat} {f : Fault}
    (hts : ∀ t ∈ ts, Token.Shape t.kind t.lexeme.toList)
    (h : Program.ofTokens depth ts = .error (.fault f)) :
    (∃ slot, f = .ended slot) ∨ ∃ slot t, f = .unexpected slot t := by
  have hrun : (program ts.length depth).run ts = .error (.fault f) := eq_error_of_map h
  obtain hout | ⟨used, t, rest, rfl, hstop, -, -⟩ :=
    (predictive_program ts.length depth).halts hrun
  · cases hout with
    | missing slot => exact .inl ⟨slot, rfl⟩
  · cases hstop with
    | unexpected slot => exact .inr ⟨slot, t, rfl⟩
    | literal hp he =>
      have ht : t ∈ used ++ t :: rest := List.mem_append_right used List.mem_cons_self
      exact absurd (literal_halts (hts t ht) hp he).1 nofun

lemma slotCode_ne {usual : String} (h : usual ≠ "P004") (slot : Slot) :
    Fault.slotCode usual slot ≠ "P004" := by
  unfold Fault.slotCode
  split
  · decide
  · decide
  · decide
  · exact h

/-! ### Literals -/

/-- What a string or character token of a text stands for. -/
lemma run_unquote_of_shape {t : Token} (h : Token.Shape t.kind t.lexeme.toList) :
    (t.kind = .string → ∃ cs, ∀ ts, (unquote t).run ts = .ok (cs, ts)) ∧
      (t.kind = .character → ∃ c, ∀ ts, (unquote t).run ts = .ok ([c], ts)) := by
  generalize htext : t.lexeme.toList = text at h
  generalize t.kind = kind at h
  constructor
  · rintro rfl
    cases h with
    | @string body cs hbody => exact ⟨cs, fun ts => (yields_unquote htext hbody).mpr ⟨rfl, rfl⟩⟩
  · rintro rfl
    cases h with
    | @character body c hbody => exact ⟨c, fun ts => (yields_unquote htext hbody).mpr ⟨rfl, rfl⟩⟩

/-- An escaped text in quotes is the literal of this text, and so is a character. No string or
character token of a text is one that the parser cannot replace the escapes in. -/
theorem quoted_literals_agree :
    (∀ cs : List (Char × Bool), IsLiteral (quoted '"' cs) .string
      (.text (String.ofList (cs.map Prod.fst))) "string") ∧
    (∀ c wanted, IsLiteral (quoted '\'' [(c, wanted)]) .character (.text c.toString) "character") ∧
    ∀ file source tokens, Token.scan file source = .ok tokens →
      (∀ t ∈ tokens,
        (t.kind = .string → ∃ cs, ∀ ts, (unquote t).run ts = .ok (cs, ts)) ∧
        (t.kind = .character → ∃ c, ∀ ts, (unquote t).run ts = .ok ([c], ts))) ∧
      ∀ depth f, Program.ofTokens depth tokens = .error (.fault f) →
        f.report.code ≠ some "P004" := by
  refine ⟨fun cs => ?_, fun c wanted => ?_, fun file source tokens hscan => ⟨fun t ht => ?_, ?_⟩⟩
  · exact isLiteral_string (spells_escaped (.inr rfl) cs)
  · exact isLiteral_character (spells_escaped (.inl rfl) [(c, wanted)])
  · exact run_unquote_of_shape (Token.scan_shape hscan t ht)
  · intro depth f hf hcode
    have hshapes := Token.scan_shape hscan
    obtain ⟨slot, rfl⟩ | ⟨slot, t, rfl⟩ := fault_of_ofTokens hshapes hf
    · exact slotCode_ne (by decide) slot (Option.some.inj hcode)
    · exact slotCode_ne (by decide) slot (Option.some.inj hcode)

/-- An escaped backslash before a closing quote, and an escaped quote where a semicolon is
missing. -/
theorem quoted_literals_agree_backslash : ∃ tokens t c f,
    Token.scan "" "LET s = \"\\\\\" '\\''" = .ok tokens ∧ tokens[4]? = some t ∧
    (∀ ts, (unquote t).run ts = .ok ([c], ts)) ∧
    Program.ofTokens maxDepth tokens = .error (.fault f) ∧ f.report.code ≠ some "P004" ∧
    IsLiteral (quoted '"' [('\\', false)]) .string (.text "\\") "string" := by
  obtain ⟨tokens, hscan, hfault⟩ : ∃ tokens,
      Token.scan "" "LET s = \"\\\\\" '\\''" = .ok tokens ∧
      (tokens[4]?.map fun t => (t.kind,
        (.error (.fault (.unexpected .fieldEnd t)) : Except Halt Unit))) =
        some (.character, (Program.ofTokens maxDepth tokens).map fun _ => ()) :=
    ⟨_, rfl, by decide +kernel⟩
  obtain ⟨t, ht, hsame⟩ := Option.map_eq_some_iff.mp hfault
  obtain ⟨hkind, hmap⟩ := Prod.mk.inj hsame
  obtain ⟨hstrings, -, hsource⟩ := quoted_literals_agree
  obtain ⟨hliterals, hcodes⟩ := hsource "" _ tokens hscan
  obtain ⟨c, hc⟩ := (hliterals t (List.mem_of_getElem? ht)).2 hkind
  have hrun := eq_error_of_map hmap.symm
  exact ⟨tokens, t, c, _, hscan, ht, hc, hrun, hcodes maxDepth _ hrun, hstrings [('\\', false)]⟩

end LetDef.Parser
