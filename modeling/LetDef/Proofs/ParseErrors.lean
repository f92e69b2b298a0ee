import LetDef.Proofs.Parser.Limits
import LetDef.Proofs.Parser.Lookahead

/-!
# Parse errors

The parser stops at the first token with which the tokens before it cannot go on. What it reports
there does not depend on the tokens behind, and without that token there is nothing to report but
the end of the input. Nothing else keeps the tokens of a text from being read as a program, except
for an integer of too many digits.
-/

namespace LetDef

open LetDef.Parser

variable {ts : List Token} {r : Except Halt Program}

namespace Program

/-- The outcome of parsing where the nesting of rules is not limited: the one at every depth that
is enough for the tokens. -/
def ParsesTo (ts : List Token) (r : Except Halt Program) : Prop :=
  ∀ depth, 12 * ts.length ≤ depth → ofTokens depth ts = r

/-- The fault is reported at token `t`, which has the index `k`. All tokens that start with the same
ones up to this have the same fault, and those before it are a program or end too early for one. -/
structure FaultAt (ts : List Token) (f : Fault) (k : Nat) (t : Token) : Prop where
  token : ts[k]? = some t
  offset : f.offset? = some t.position.offset
  position : f.report.position = some t.position
  determined : ∀ us : List Token, us.take (k + 1) = ts.take (k + 1) →
    ParsesTo us (.error (.fault f))
  truncated : (∃ p, ParsesTo (ts.take k) (.ok p)) ∨
    ∃ f', ParsesTo (ts.take k) (.error (.fault f')) ∧ f'.offset? = none

/-- How parsing ends where the nesting of rules is not limited. -/
inductive ParsingEnds (ts : List Token) : Prop
  | program {p : Program} (h : ParsesTo ts (.ok p))
  | faultAtEnd {f : Fault} (h : ParsesTo ts (.error (.fault f))) (hoffset : f.offset? = none)
      (hposition : f.report.position = none)
  | faultAtToken {f : Fault} {k : Nat} {t : Token} (h : ParsesTo ts (.error (.fault f)))
      (hf : FaultAt ts f k t)
  | longInteger {t : Token} (h : ParsesTo ts (.error .unreadableInteger)) (ht : t ∈ ts)
      (hkind : t.kind = .integer)
      (hlong : Number.maxDigits < (t.lexeme.toList.filter Char.isDigit).length)

/-! ### Outcomes -/

/-- The run of the parser of programs with the limits that go with as many tokens as `width`. -/
def unlimited (width : Nat) (ts : List Token) : Except Halt (Program × List Token) :=
  (program width (12 * width)).run ts

lemma unlimited_eq {width : Nat} (h : ts.length ≤ width) :
    unlimited width ts = unlimited ts.length ts :=
  run_program_eq h le_rfl (by omega) le_rfl

lemma unlimited_ne_tooDeep {width : Nat} (h : ts.length ≤ width) :
    unlimited width ts ≠ .error .tooDeep :=
  run_program_ne_tooDeep h (by omega)

lemma ofTokens_eq_map (depth : Nat) (ts : List Token) :
    ofTokens depth ts = ((program ts.length depth).run ts).map Prod.fst :=
  rfl

/-- The outcome of tokens shows with the limits for more tokens as well. -/
lemma parsesTo_of_unlimited {width : Nat} {x : Except Halt (Program × List Token)}
    (hw : ts.length ≤ width) (h : unlimited width ts = x) : ParsesTo ts (x.map Prod.fst) := by
  intro depth hdepth
  have hrun : (program ts.length depth).run ts = unlimited width ts :=
    run_program_eq le_rfl hw hdepth (by omega)
  rw [ofTokens_eq_map, hrun, h]

/-- Where the depth is limited, the outcome is the same or the rules are nested too deeply. -/
lemma ofTokens_of_parsesTo (h : ParsesTo ts r) (depth : Nat) :
    ofTokens depth ts = .error .tooDeep ∨ ofTokens depth ts = r := by
  have hsettles : Settles ts.length 0 (program ts.length depth)
      (program ts.length (12 * ts.length)) := settles_program le_rfl le_rfl le_rfl
  rcases (hsettles ts le_rfl).same with hdeep | hsame
  · left
    rw [ofTokens_eq_map, hdeep]
    rfl
  · right
    rw [← h _ le_rfl, ofTokens_eq_map, ofTokens_eq_map, hsame]

/-! ### Where the parser stops -/

/-- Where the tokens run out, they are a program or the fault is at their end. -/
lemma parsesTo_of_runsOut (h : RunsOut (unlimited ts.length ts)) :
    (∃ p, ParsesTo ts (.ok p)) ∨ ∃ slot, ParsesTo ts (.error (.fault (.ended slot))) := by
  generalize hrun : unlimited ts.length ts = x at h
  have hparses := parsesTo_of_unlimited le_rfl hrun
  cases h with
  | taken p => exact .inl ⟨p, hparses⟩
  | missing slot => exact .inr ⟨slot, hparses⟩
  | tooDeep => exact absurd hrun (unlimited_ne_tooDeep le_rfl)

/-- A token that stops the parser does so whatever follows it. -/
lemma parsesTo_append {e : Halt} (h : unlimited ts.length ts = .error e)
    (hstop : ¬ RunsOut (.error e : Except Halt (Program × List Token))) (rest : List Token) :
    ParsesTo (ts ++ rest) (.error e) := by
  -- The limits are those of the longer list, so that the parser is the same for both.
  have hwidth : ts.length ≤ (ts ++ rest).length := by
    rw [List.length_append]
    exact Nat.le_add_right _ _
  have hpredictive := predictive_program (ts ++ rest).length (12 * (ts ++ rest).length)
  rw [← unlimited_eq hwidth] at h
  exact parsesTo_of_unlimited le_rfl (hpredictive.run_append_eq_error h hstop rest)

/-- The fault of a token that does not fit is at this token. -/
lemma faultAt_of_unexpected {used rest : List Token} {t : Token} {slot : Slot}
    (hstop : unlimited (used ++ [t]).length (used ++ [t]) = .error (.fault (.unexpected slot t)))
    (hout : RunsOut (unlimited used.length used)) :
    FaultAt (used ++ t :: rest) (.unexpected slot t) used.length t where
  token := by simp
  offset := rfl
  position := rfl
  determined := by
    intro us hus
    have htake : (used ++ t :: rest).take (used.length + 1) = used ++ [t] := by
      rw [List.take_length_add_append, List.take_succ_cons, List.take_zero]
    rw [← List.take_append_drop (used.length + 1) us, hus, htake]
    exact parsesTo_append hstop nofun _
  truncated := by
    rw [List.take_left]
    rcases parsesTo_of_runsOut hout with hp | ⟨slot, hend⟩
    · exact .inl hp
    · exact .inr ⟨_, hend, rfl⟩

/-- Parsing the tokens of a text ends with a program, with a fault that is where it belongs or with
an integer of too many digits, where the nesting of rules is not limited; where it is, that remains
so as long as they are not nested too deeply. -/
theorem parse_errors_exact {file source : String} (hscan : Token.scan file source = .ok ts) :
    ParsingEnds ts ∧ ∀ depth r, ParsesTo ts r →
      ofTokens depth ts = .error .tooDeep ∨ ofTokens depth ts = r := by
  refine ⟨?_, fun depth r h => ofTokens_of_parsesTo h depth⟩
  cases hrun : unlimited ts.length ts with
  | ok x => exact .program (parsesTo_of_unlimited le_rfl hrun)
  | error e =>
    have hparses := parsesTo_of_unlimited le_rfl hrun
    have hpredictive := predictive_program ts.length (12 * ts.length)
    obtain hout | ⟨used, t, rest, rfl, hstop, hused, hany⟩ := hpredictive.halts hrun
    · cases hout with
      | missing slot => exact .faultAtEnd hparses rfl rfl
      | tooDeep => exact absurd hrun (unlimited_ne_tooDeep le_rfl)
    · cases hstop with
      | unexpected slot =>
        have hstop : unlimited (used ++ [t]).length (used ++ [t]) =
            .error (.fault (.unexpected slot t)) :=
          (unlimited_eq (by simp)).symm.trans (hany [])
        have hout : RunsOut (unlimited used.length used) := by
          rwa [← unlimited_eq (List.length_append ▸ Nat.le_add_right _ _)]
        exact .faultAtToken hparses (faultAt_of_unexpected hstop hout)
      | literal hp he =>
        have ht : t ∈ used ++ t :: rest := List.mem_append_right used List.mem_cons_self
        obtain ⟨rfl, hkind, hlong⟩ := literal_halts (Token.scan_shape hscan t ht) hp he
        rw [IsShort, Classical.not_imp, Nat.not_le] at hlong
        exact .longInteger hparses ht hkind hlong.2

/-- The second field starts before the first one has ended. -/
theorem parse_errors_exact_unended : ∃ ts t,
    Token.scan "" "LET x = 1 LET y = 2;" = .ok ts ∧ ts[4]? = some t ∧
    ofTokens maxDepth ts = .error (.fault (.unexpected .fieldEnd t)) ∧ ParsingEnds ts := by
  obtain ⟨ts, hscan, hfault⟩ : ∃ ts, Token.scan "" "LET x = 1 LET y = 2;" = .ok ts ∧
      (ts[4]?.map fun t => (.error (.fault (.unexpected .fieldEnd t)) : Except Halt Unit)) =
        some ((ofTokens maxDepth ts).map fun _ => ()) := ⟨_, rfl, by decide +kernel⟩
  obtain ⟨t, ht, hsame⟩ := Option.map_eq_some_iff.mp hfault
  exact ⟨ts, t, hscan, ht, eq_error_of_map hsame.symm, (parse_errors_exact hscan).1⟩

end Program

end LetDef
