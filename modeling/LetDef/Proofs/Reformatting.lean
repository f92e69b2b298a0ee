import LetDef.Pipeline
import LetDef.Proofs.Position.Analysis
import LetDef.Proofs.Position.Execution
import LetDef.Proofs.Position.Parsing
import LetDef.Proofs.Token.Segmentation

/-!
# Reformatting

What a text means does not depend on how its tokens are laid out. Texts of the same words are the
same program, and they are checked and run to the same end but for the positions in a report. Every
way to put blanks between the words of a text is a text of the same words.
-/

namespace LetDef

/-! ### Blanks between words -/

namespace Token

/-- The lexemes in order, with blanks between neighbours. -/
inductive Joined : List (List Char) → List Char → Prop
  | nil : Joined [] []
  | single (lexeme : List Char) : Joined [lexeme] lexeme
  | cons {lexeme next gap text : List Char} {rest : List (List Char)} (hne : gap ≠ [])
      (hgap : ∀ c ∈ gap, isBlank c = true) (h : Joined (next :: rest) text) :
      Joined (lexeme :: next :: rest) (lexeme ++ (gap ++ text))

/-- The text has the lexemes in order, with blanks between neighbours and maybe around them. -/
def Respaced (lexemes : List String) (text : String) : Prop :=
  ∃ lead body trail, (∀ c ∈ lead, isBlank c = true) ∧ (∀ c ∈ trail, isBlank c = true) ∧
    Joined (lexemes.map String.toList) body ∧ text.toList = lead ++ (body ++ trail)

variable {p : Position} {body trail : List Char} {ts : List Token}

lemma cut_blanks (h : ∀ c ∈ trail, isBlank c = true) : Cut p trail [] := by
  rw [← List.append_nil trail]
  exact Cut.blanks h .done

/-- A token may be followed by blanks, if there are any. -/
lemma bounded_blanks {kind : Kind} {lexeme rest : List Char} (hne : trail ≠ [])
    (h : ∀ c ∈ trail, isBlank c = true) : Bounded kind lexeme (trail ++ rest) := by
  obtain ⟨c, cs, rfl⟩ := List.exists_cons_of_ne_nil hne
  apply bounded_of_blank
  rintro d hd
  cases hd
  exact h c (List.mem_cons_self ..)

/-- Lexemes with blanks between them are cut into tokens of the same words. -/
lemma exists_cut_of_joined (hs : ∀ t ∈ ts, Shape t.kind t.lexeme.toList)
    (hj : Joined (ts.map (·.lexeme.toList)) body) (htrail : ∀ c ∈ trail, isBlank c = true) :
    ∃ us, Cut p (body ++ trail) us ∧ us.map word = ts.map word := by
  induction ts generalizing p body with
  | nil =>
    cases hj
    exact ⟨[], cut_blanks htrail, rfl⟩
  | cons t ts ih =>
    rw [List.forall_mem_cons] at hs
    have hword : word ⟨t.kind, String.ofList t.lexeme.toList, p⟩ = word t := by
      rw [String.ofList_toList]
      rfl
    cases ts with
    | nil =>
      cases hj
      have hbounded : Bounded t.kind t.lexeme.toList trail :=
        bounded_of_blank fun c hc => htrail c (List.mem_of_mem_head? hc)
      exact ⟨_, .token hs.1 hbounded (cut_blanks htrail), congrArg (· :: []) hword⟩
    | cons u us =>
      cases hj with
      | cons hne hgap h =>
        obtain ⟨rest, hcut, hwords⟩ := ih hs.2 h
        rw [List.append_assoc, List.append_assoc]
        refine ⟨_, .token hs.1 (bounded_blanks hne hgap) (Cut.blanks hgap hcut), ?_⟩
        rw [List.map_cons, hword, hwords]
        rfl

/-- A text with its words spaced anew has the same words. -/
lemma exists_scan_of_respaced {file source file' text : String} (h : scan file source = .ok ts)
    (hspaced : Respaced (ts.map Token.lexeme) text) :
    ∃ us, scan file' text = .ok us ∧ us.map word = ts.map word := by
  obtain ⟨lead, body, trail, hlead, htrail, hj, htext⟩ := hspaced
  have hshape : ∀ t ∈ ts, Shape t.kind t.lexeme.toList :=
    fun t ht => (((scan_eq_ok_iff file source ts).1 h).1.pieces t ht).shape
  rw [List.map_map] at hj
  obtain ⟨us, hcut, hwords⟩ := exists_cut_of_joined hshape hj htrail
  refine ⟨us, ?_, hwords⟩
  rw [scan, htext]
  exact scanFrom_of_cut (Cut.blanks hlead hcut)

end Token

/-! ### Failures -/

/-- The report with its position moved. -/
def Report.move (φ : Position → Position) (r : Report) : Report :=
  { r with position := r.position.map φ }

/-- The report without its position. -/
def Report.unplaced (r : Report) : Report :=
  { r with position := none }

/-- The failure with its position moved. -/
def Failure.move (φ : Position → Position) : Failure → Failure
  | .scan e => .scan ⟨e.fault, φ e.position⟩
  | .parse h => .parse (h.move φ)
  | .analysis h => .analysis (h.move φ)
  | .execution h => .execution (h.move φ)

/-- The failures differ at most in the position that they report. -/
structure Failure.Alike (e e' : Failure) : Prop where
  phase : e.phase = e'.phase
  report : e.report?.map Report.unplaced = e'.report?.map Report.unplaced
  silent : e.report? = none → e = e'

/-- Both are well and related, or both fail alike. -/
inductive AlikeEnds {α : Type} (related : α → α → Prop) : Except Failure α → Except Failure α → Prop
  | ok {a b : α} (h : related a b) : AlikeEnds related (.ok a) (.ok b)
  | error {e e' : Failure} (h : e.Alike e') : AlikeEnds related (.error e) (.error e')

variable {φ : Position → Position}

lemma Failure.phase_move (e : Failure) : (e.move φ).phase = e.phase := by
  cases e <;> rfl

lemma Parser.Fault.report_move (f : Parser.Fault) : (f.move φ).report = f.report.move φ := by
  cases f <;> rfl

lemma Failure.report?_move (e : Failure) : (e.move φ).report? = e.report?.map (Report.move φ) := by
  cases e with
  | scan e => rfl
  | parse h =>
    cases h with
    | fault f => exact congrArg some f.report_move
    | _ => rfl
  | analysis h => cases h <;> rfl
  | execution h => cases h <;> rfl

/-- A failure without a report has no position. -/
lemma Failure.move_of_silent {e : Failure} (hsilent : e.report? = none) : e.move φ = e := by
  cases e with
  | scan e => cases hsilent
  | parse h =>
    cases h with
    | fault f => cases hsilent
    | _ => rfl
  | analysis h =>
    cases h with
    | fault f => cases hsilent
    | _ => rfl
  | execution h =>
    cases h with
    | fault f => cases hsilent
    | _ => rfl

/-- Failures that are the same once they are moved are alike. -/
lemma Failure.Alike.of_move {e e' : Failure} (h : e.move φ = e'.move φ) : e.Alike e' := by
  have hreport : e.report?.map (Report.move φ) = e'.report?.map (Report.move φ) := by
    rw [← report?_move, h, report?_move]
  have hunplaced : Report.unplaced = Report.unplaced ∘ Report.move φ := rfl
  refine ⟨?_, ?_, fun hsilent => ?_⟩
  · rw [← phase_move e, h, phase_move]
  · rw [hunplaced, ← Option.map_map, hreport, Option.map_map]
  · have hsilent' : e'.report? = none := by
      rw [hsilent, Option.map_none, eq_comm, Option.map_eq_none_iff] at hreport
      exact hreport
    rw [← move_of_silent hsilent, h, move_of_silent hsilent']

/-! ### The pipeline -/

/-- Moving the failure of a result. -/
abbrev moveFailure {α : Type} (φ : Position → Position) (r : Except Failure α) : Except Failure α :=
  r.mapError (Failure.move φ)

lemma AlikeEnds.of_moveFailure {α : Type} {r r' : Except Failure α}
    (h : moveFailure φ r = moveFailure φ r') : AlikeEnds Eq r r' := by
  cases r with
  | ok a =>
    cases r' with
    | ok b =>
      cases h
      exact .ok rfl
    | error e' => cases h
  | error e =>
    cases r' with
    | ok b => cases h
    | error e' => exact .error (.of_move (Except.error.inj h))

lemma Program.check_move (p : Program) :
    (p.move φ).check =
      moveFailure φ (p.check.map fun c => { c with program := c.program.move φ }) := by
  have hanalyze : outcome (Analysis.analyze Analysis.maxDepth (Analysis.globalScope none {}).1
      (p.move φ)) { store := (Analysis.globalScope none {}).2 } = _ :=
    Analysis.commutes_analyze p _
  unfold outcome at hanalyze
  unfold check
  dsimp only
  rw [hanalyze]
  rcases ((Analysis.analyze Analysis.maxDepth (Analysis.globalScope none {}).1 p).run
    { store := (Analysis.globalScope none {}).2 }).run with ⟨halt | r, state⟩
  · rfl
  · rw [p.numbered_move]
    rfl

lemma Program.execute_move (fuel : Nat) (p : Program) :
    (p.move φ).execute fuel = (moveFailure φ (p.execute fuel).1, (p.execute fuel).2) := by
  have hrun : outcome (Execution.run .none fuel Execution.maxDepth (Execution.globalScope none {}).1
      (p.move φ)) (Execution.World.move φ { store := (Execution.globalScope none {}).2 }) = _ :=
    Execution.commutes_run p _
  rw [Execution.World.move_start] at hrun
  unfold outcome at hrun
  unfold execute
  dsimp only
  rw [hrun]
  rcases ((Execution.run .none fuel Execution.maxDepth (Execution.globalScope none {}).1 p).run
    { store := (Execution.globalScope none {}).2 }).run with ⟨halt | o, world⟩ <;> rfl

/-- What a program comes to when it is checked and then run. -/
def Program.evaluate (fuel : Nat) (p : Program) : Except Failure RunResult × String :=
  match p.check with
  | .error e => (.error e, "")
  | .ok c => c.program.execute fuel

lemma Program.evaluate_move (fuel : Nat) (p : Program) :
    (p.move φ).evaluate fuel = (moveFailure φ (p.evaluate fuel).1, (p.evaluate fuel).2) := by
  unfold evaluate
  rw [check_move]
  cases p.check with
  | error e => rfl
  | ok c => exact c.program.execute_move fuel

/-! ### Texts of the same words -/

section

variable {file source file' source' : String} {ts us : List Token}

lemma Program.ofText_of_scan (h : Token.scan file source = .ok ts) :
    Program.ofText file source = (Program.ofTokens Parser.maxDepth ts).mapError .parse := by
  unfold ofText
  rw [h]
  rfl

lemma evaluate_eq (fuel : Nat) (file source : String) :
    evaluate fuel file source =
      match Program.ofText file source with
      | .error e => (.error e, "")
      | .ok p => p.evaluate fuel := by
  unfold evaluate check
  cases Program.ofText file source <;> rfl

/-- The tree without its positions. -/
def Program.unplaced (p : Program) : Program :=
  p.move fun _ => .start ""

/-- Texts of the same words are programs that differ in positions only, or none for like reasons. -/
lemma alike_ofText (h : Token.scan file source = .ok ts) (h' : Token.scan file' source' = .ok us)
    (hwords : ts.map Token.word = us.map Token.word) :
    AlikeEnds (fun p q => p.unplaced = q.unplaced) (Program.ofText file source)
      (Program.ofText file' source') := by
  have hmoved := Program.ofTokens_move (fun _ => .start "") Parser.maxDepth ts
  rw [Token.map_move_of_words hwords, Program.ofTokens_move] at hmoved
  rw [Program.ofText_of_scan h, Program.ofText_of_scan h']
  cases hp : Program.ofTokens Parser.maxDepth ts with
  | ok p =>
    cases hq : Program.ofTokens Parser.maxDepth us with
    | ok q =>
      rw [hp, hq] at hmoved
      exact .ok (Except.ok.inj hmoved).symm
    | error halt' =>
      rw [hp, hq] at hmoved
      cases hmoved
  | error halt =>
    cases hq : Program.ofTokens Parser.maxDepth us with
    | ok q =>
      rw [hp, hq] at hmoved
      cases hmoved
    | error halt' =>
      rw [hp, hq] at hmoved
      have hhalt := Except.error.inj hmoved
      exact .error (Failure.Alike.of_move (congrArg Failure.parse hhalt.symm))

/-- Texts of the same words print the same and come to the same end. -/
lemma alike_evaluate (h : Token.scan file source = .ok ts) (h' : Token.scan file' source' = .ok us)
    (hwords : ts.map Token.word = us.map Token.word) (fuel : Nat) :
    AlikeEnds Eq (evaluate fuel file source).1 (evaluate fuel file' source').1 ∧
      (evaluate fuel file source).2 = (evaluate fuel file' source').2 := by
  have halike := alike_ofText h h' hwords
  rw [evaluate_eq, evaluate_eq]
  generalize Program.ofText file source = r at halike ⊢
  generalize Program.ofText file' source' = r' at halike ⊢
  cases halike with
  | @ok p q hpq =>
    have heval : p.unplaced.evaluate fuel = q.unplaced.evaluate fuel := by rw [hpq]
    unfold Program.unplaced at heval
    rw [Program.evaluate_move, Program.evaluate_move, Prod.mk.injEq] at heval
    exact ⟨.of_moveFailure heval.1, heval.2⟩
  | error he => exact ⟨.error he, rfl⟩

lemma AlikeEnds.imp {α : Type} {related related' : α → α → Prop} {r r' : Except Failure α}
    (h : AlikeEnds related r r') (himp : ∀ a b, related a b → related' a b) :
    AlikeEnds related' r r' := by
  cases h with
  | ok h => exact .ok (himp _ _ h)
  | error h => exact .error h

end

/-- The words of a text may be spaced anew, and texts of the same words are the same tree and come
to the same end, but for positions. -/
theorem reformatting_invariance :
    (∀ file source tokens, Token.scan file source = .ok tokens →
      ∀ file' text, Token.Respaced (tokens.map Token.lexeme) text →
        ∃ tokens', Token.scan file' text = .ok tokens' ∧
          tokens'.map Token.word = tokens.map Token.word) ∧
    (∀ file source tokens file' source' tokens', Token.scan file source = .ok tokens →
      Token.scan file' source' = .ok tokens' → tokens.map Token.word = tokens'.map Token.word →
        AlikeEnds (fun p q => p.unplaced = q.unplaced ∧ p.toNode.same q.toNode = true)
          (Program.ofText file source) (Program.ofText file' source') ∧
        ∀ fuel, AlikeEnds Eq (evaluate fuel file source).1 (evaluate fuel file' source').1 ∧
          (evaluate fuel file source).2 = (evaluate fuel file' source').2) := by
  constructor
  · intro file source tokens h file' text hspaced
    exact Token.exists_scan_of_respaced h hspaced
  · intro file source tokens file' source' tokens' h h' hwords
    refine ⟨(alike_ofText h h' hwords).imp fun p q hpq => ⟨hpq, ?_⟩, alike_evaluate h h' hwords⟩
    have htrees := congrArg Program.toNode hpq
    unfold Program.unplaced at htrees
    rw [Program.toNode_move, Program.toNode_move] at htrees
    exact Node.same_of_move_eq htrees

/-- A program that prints and then divides by zero, on one line. -/
def division : String :=
  "DEF main(): Integer DO print(1); RETURN 6/0; END"

/-- The same program on several lines. -/
def dividedLines : String :=
  "DEF main(): Integer\nDO\n  print ( 1 ) ;\n  RETURN 6 / 0;\nEND\n"

/-- An operator and a signed number are spaced anew, and dividing by zero fails in one line as it
does in another. -/
theorem reformatting_invariance_division :
    (∃ tokens, Token.scan "a" "\n<= \t-1" = .ok tokens ∧
      tokens.map Token.word = [(.operator, "<="), (.integer, "-1")]) ∧
    ∃ e e', (evaluate 9 "a" division).1 = .error e ∧ (evaluate 9 "b" dividedLines).1 = .error e' ∧
      e.Alike e' ∧ e ≠ e' := by
  constructor
  · obtain ⟨tokens, hscan, hwords⟩ : ∃ tokens, Token.scan "" "<=-1" = .ok tokens ∧
        tokens.map Token.word = [(.operator, "<="), (.integer, "-1")] := ⟨_, rfl, by decide +kernel⟩
    have hlexemes : tokens.map Token.lexeme = ["<=", "-1"] := by
      have hmap := congrArg (List.map Prod.snd) hwords
      rwa [List.map_map] at hmap
    have hspaced : Token.Respaced (tokens.map Token.lexeme) "\n<= \t-1" := by
      rw [hlexemes]
      exact ⟨['\n'], _, [], by simp [Token.isBlank], by simp,
        .cons (show [' ', '\t'] ≠ [] by simp) (by simp [Token.isBlank]) (.single _), rfl⟩
    obtain ⟨tokens', hscan', hwords'⟩ :=
      reformatting_invariance.1 "" "<=-1" tokens hscan "a" _ hspaced
    exact ⟨tokens', hscan', hwords'.trans hwords⟩
  · obtain ⟨ts, us, hts, hus, hwords⟩ : ∃ ts us, Token.scan "a" division = .ok ts ∧
        Token.scan "b" dividedLines = .ok us ∧ ts.map Token.word = us.map Token.word :=
      ⟨_, _, rfl, rfl, by decide +kernel⟩
    have halike := ((reformatting_invariance.2 _ _ ts _ _ us hts hus hwords).2 9).1
    have hone : (evaluate 9 "a" division).1 = .error (.execution (.fault
        ⟨.divisionByZero, ⟨some .binary, some ⟨"a", 1, 41, 40⟩⟩⟩)) := by decide +kernel
    have htwo : (evaluate 9 "b" dividedLines).1 = .error (.execution (.fault
        ⟨.divisionByZero, ⟨some .binary, some ⟨"b", 4, 10, 48⟩⟩⟩)) := by decide +kernel
    rw [hone, htwo] at halike ⊢
    cases halike with
    | error h => exact ⟨_, _, rfl, rfl, h, by decide⟩

end LetDef
