import LetDef.Proofs.Analysis.Program
import LetDef.Proofs.Execution.Journal
import LetDef.Proofs.Execution.Program

/-!
# Type safety

What a text that passes analysis does when it is run. Its variables, expressions and methods hold
and yield values of their types, or nil, and it stops for no other reason than a value that could
not be known before: nil where an operand or a truth value is needed, comparable values of different
kinds where they are to be ordered, a zero divisor, or one of the limits of a run.

The theorems speak about the journal of the run. `evaluate` keeps none, so they also say that it
ends as the run with a journal does.
-/

namespace LetDef

open Execution

variable {file source : String} {c : Checked} {fuel : Nat}

/-! ### Recorded runs -/

/-- The run of a program with a journal: how it ends, and the world that it leaves. -/
def Program.record (fuel : Nat) (p : Program) : Except Halt Object × World :=
  outcome (run .none fuel Execution.maxDepth ⟨0, []⟩ p) .initial

/-- What is seen of a run from outside. -/
def observed : Except Halt Object × World → Except Failure RunResult × String
  | (.ok o, world) => (.ok ⟨o, exitCode o⟩, world.output)
  | (.error h, world) => (.error (.execution h), world.output)

lemma execute_eq_record (fuel : Nat) (p : Program) : p.execute fuel = observed (p.record fuel) := by
  have hsilent : outcome (run .none fuel Execution.maxDepth ⟨0, []⟩ p) World.initial.quiet
      = ((p.record fuel).1, (p.record fuel).2.quiet) :=
    silent_run Natives.workOnArguments_none World.initial
  have hexecute : p.execute fuel
      = observed (outcome (run .none fuel Execution.maxDepth ⟨0, []⟩ p) World.initial.quiet) := rfl
  rw [hexecute, hsilent]
  rcases p.record fuel with ⟨_ | _, _⟩ <;> rfl

lemma evaluate_eq_record (h : check file source = .ok c) (fuel : Nat) :
    evaluate fuel file source = observed (c.program.record fuel) := by
  unfold evaluate
  rw [h]
  exact execute_eq_record fuel c.program

section

variable {o : Object} {w : World} {halt : Halt}

lemma record_safe (h : check file source = .ok c) (fuel : Nat) :
    Ends (fun o w => Ty.integer.Admits o.value ∧ Tracked c.program.toNode c.state w)
      (fun halt w => Stops c.state c.program w.log halt ∧ Tracked c.program.toNode c.state w)
      (run .none fuel Execution.maxDepth ⟨0, []⟩ c.program) .initial := by
  obtain ⟨globals, known, htyped⟩ := check_typed h
  exact run_safe htyped

/-- The recorded run of a checked text that yields something yields an integer or nil. -/
lemma record_yields (h : check file source = .ok c) (hr : c.program.record fuel = (.ok o, w)) :
    Ty.integer.Admits o.value ∧ Tracked c.program.toNode c.state w := by
  have hsafe := record_safe h fuel
  unfold Ends at hsafe
  rwa [show outcome _ _ = _ from hr] at hsafe

/-- The recorded run of a checked text that stops does so as it may. -/
lemma record_stops (h : check file source = .ok c)
    (hr : c.program.record fuel = (.error halt, w)) :
    Stops c.state c.program w.log halt ∧ Tracked c.program.toNode c.state w := by
  have hsafe := record_safe h fuel
  unfold Ends at hsafe
  rwa [show outcome _ _ = _ from hr] at hsafe

end

lemma record_tracked (h : check file source = .ok c) (fuel : Nat) :
    Tracked c.program.toNode c.state (c.program.record fuel).2 := by
  rcases hr : c.program.record fuel with ⟨halt | o, w⟩
  · exact (record_stops h hr).2
  · exact (record_yields h hr).2

/-! ### Preservation -/

/-- At every moment of the run of a checked text, and when it ends, the variables are those made for
fields, declarations and parameters, and each holds nil or a value of its type; what an expression
or a method yields is nil or of its type; and so `main` yields an integer or nil. -/
theorem type_preservation (h : check file source = .ok c) (fuel : Nat) :
    evaluate fuel file source = observed (c.program.record fuel) ∧
    (∀ m earlier, (m :: earlier) <:+ (c.program.record fuel).2.log →
      CellsTyped c.state (m :: earlier) m.store ∧ m.event.Typed c.program.toNode c.state) ∧
    CellsTyped c.state (c.program.record fuel).2.log (c.program.record fuel).2.store ∧
    ∀ o, (c.program.record fuel).1 = .ok o → Ty.integer.Admits o.value := by
  refine ⟨evaluate_eq_record h fuel, ?_, (record_tracked h fuel).cells, ?_⟩
  · intro m earlier hm
    obtain ⟨hevent, hcells⟩ := (record_tracked h fuel).moments m earlier hm
    exact ⟨hcells, hevent⟩
  · intro o ho
    rcases hr : c.program.record fuel with ⟨r, w⟩
    rw [hr] at ho
    subst ho
    exact (record_yields h hr).1

/-- A program with a field, a parameter and a local variable. -/
def adder : String :=
  "LET a: Integer = 1; DEF next(x: Integer): Integer DO RETURN x + a; END " ++
  "DEF main(): Integer DO LET y = next(2); RETURN y; END"

lemma exists_check (h : (check file source).toOption.isSome = true) :
    ∃ c, check file source = .ok c := by
  cases hc : check file source with
  | ok c => exact ⟨c, rfl⟩
  | error e =>
    rw [hc] at h
    cases h

theorem type_preservation_adder : ∃ c, check "main" adder = .ok c ∧
    observed (c.program.record ampleFuel) = (.ok ⟨.of (.integer 3), 3⟩, "") ∧
    ∀ m earlier, (m :: earlier) <:+ (c.program.record ampleFuel).2.log →
      CellsTyped c.state (m :: earlier) m.store := by
  obtain ⟨c, h⟩ := exists_check (show (check "main" adder).toOption.isSome = true by decide +kernel)
  have hvalue : evaluate ampleFuel "main" adder = (.ok ⟨.of (.integer 3), 3⟩, "") := by
    decide +kernel
  obtain ⟨hevaluate, hmoments, _⟩ := type_preservation h ampleFuel
  exact ⟨c, h, hevaluate ▸ hvalue, fun m earlier hm => (hmoments m earlier hm).1⟩

/-! ### Faults -/

/-- The run of a checked text yields a result or stops for a value: with one of four codes, or
because an integer has too many digits to be written. Otherwise a loop of it has no more fuel. -/
theorem evaluate_of_check (h : check file source = .ok c) (fuel : Nat) :
    (∃ r, (evaluate fuel file source).1 = .ok r) ∨
    (∃ f, (evaluate fuel file source).1 = .error (.execution (.fault f)) ∧
      f.cause.code? ∈ [some "R010", some "R011", some "R020", some "R042"]) ∨
    (evaluate fuel file source).1 = .error (.execution .tooManyDigits) ∨
    (evaluate fuel file source).1 = .error (.execution .outOfFuel) := by
  rw [evaluate_eq_record h fuel]
  rcases hr : c.program.record fuel with ⟨halt | o, w⟩
  · obtain ⟨hstops, _⟩ := record_stops h hr
    right
    cases hstops with
    | callDepth => exact .inl ⟨_, rfl, by simp [Cause.code?]⟩
    | excused hd he =>
      cases he with
      | tooDeep => exact absurd rfl hd
      | tooManyDigits => exact .inr (.inl rfl)
      | outOfFuel => exact .inr (.inr rfl)
      | divisionByZero => exact .inl ⟨_, rfl, by simp [Cause.code?]⟩
      | notBoolean => exact .inl ⟨_, rfl, by simp [Cause.code?]⟩
      | invalidOperands => exact .inl ⟨_, rfl, by simp [Cause.code?]⟩
  · exact .inl ⟨_, rfl⟩

/-- A program that orders an integer and a text, both declared comparable. -/
def mixed : String :=
  "LET a: Comparable = 1; LET b: Comparable = \"x\"; LET c: Boolean = a < b; " ++
  "DEF main(): Integer DO RETURN 0; END"

lemma check_mixed : ∃ c, check "main" mixed = .ok c :=
  exists_check (by decide +kernel)

/-- Neither operand of the fault is nil. -/
lemma evaluate_mixed : (evaluate ampleFuel "main" mixed).1 = .error (.execution (.fault
    ⟨.invalidOperands "<" (.integer 1) (.text "x"),
      ⟨some .binary, some ⟨"main", 1, 66, 65⟩⟩⟩)) := by
  decide +kernel

theorem evaluate_of_check_mixed : (∃ c, check "main" mixed = .ok c) ∧
    ∃ f, (evaluate ampleFuel "main" mixed).1 = .error (.execution (.fault f)) ∧
      f.cause.code? ∈ [some "R010", some "R011", some "R020", some "R042"] := by
  obtain ⟨c, h⟩ := check_mixed
  refine ⟨⟨c, h⟩, ?_⟩
  rcases evaluate_of_check h ampleFuel with ⟨r, hr⟩ | hf | hdigits | hfuel
  · rw [evaluate_mixed] at hr
    cases hr
  · exact hf
  · rw [evaluate_mixed] at hdigits
    cases hdigits
  · rw [evaluate_mixed] at hfuel
    cases hfuel

/-- The operators that order. -/
lemma mem_orderings {operator : String} (h : (orderTest? operator).isSome = true) :
    operator ∈ ["<", "<=", ">", ">="] := by
  unfold orderTest? at h
  split at h
  · simp
  · simp
  · simp
  · simp
  · cases h

/-- A checked text stops with `R010` only where a condition, whose type is Boolean, has just yielded
nil. It stops with `R011` only at an operation whose operands have yielded values that do not match:
one of them is nil, or both are only known to be comparable, are to be ordered and are of different
kinds. -/
theorem operands_of_fault (h : check file source = .ok c) {f : Fault}
    (hf : (evaluate fuel file source).1 = .error (.execution (.fault f))) :
    (f.cause.code? = some "R010" → ∃ n o, c.program.toNode.Below n ∧
      c.state.typeOf? n = some .boolean ∧
      Latest (c.program.record fuel).2.log (.evaluated n o) ∧ o.value = .nil ∧
      f = ⟨.notBoolean o.value, n.site⟩) ∧
    (f.cause.code? = some "R011" → ∃ m operator left right l r a b,
      c.program.toNode.Below (.binary m operator left right) ∧
      c.state.typeOf? left = some l ∧ c.state.typeOf? right = some r ∧
      Occurs (c.program.record fuel).2.log (.evaluated left a) ∧
      Latest (c.program.record fuel).2.log (.evaluated right b) ∧
      f = ⟨.invalidOperands operator a.value b.value, ⟨some .binary, m.position⟩⟩ ∧
      (a.value = .nil ∨ b.value = .nil ∨
        (l = .comparable ∧ r = .comparable ∧ operator ∈ ["<", "<=", ">", ">="] ∧
          a.value.kindName ≠ b.value.kindName))) := by
  rw [evaluate_eq_record h fuel] at hf
  rcases hr : c.program.record fuel with ⟨halt | o, w⟩
  · rw [hr] at hf
    cases hf
    obtain ⟨hstops, _⟩ := record_stops h hr
    cases hstops with
    | callDepth => simp [Cause.code?]
    | excused _ he =>
      cases he with
      | divisionByZero => simp [Cause.code?]
      | @notBoolean n o hn ho hnil =>
        refine ⟨fun _ => ⟨n, o, hn.below, hn.type, ho, hnil, rfl⟩, ?_⟩
        simp [Cause.code?]
      | @invalidOperands m operator left right l r a b hbelow hl ht ha hb hmismatch =>
        refine ⟨by simp [Cause.code?], fun _ => ?_⟩
        refine ⟨m, operator, left, right, l, r, a, b, hbelow, hl, ht, ha, hb, rfl, ?_⟩
        rcases hmismatch with hnil | hnil | ⟨hl, hr, horder, hkinds⟩
        · exact .inl hnil
        · exact .inr (.inl hnil)
        · exact .inr (.inr ⟨hl, hr, mem_orderings horder, hkinds⟩)
  · rw [hr] at hf
    cases hf

theorem operands_of_fault_mixed : ∃ c f m left right a, check "main" mixed = .ok c ∧
    (evaluate ampleFuel "main" mixed).1 = .error (.execution (.fault f)) ∧
    f.cause.code? = some "R011" ∧ c.program.toNode.Below (.binary m "<" left right) ∧
    c.state.typeOf? left = some .comparable ∧
    Occurs (c.program.record ampleFuel).2.log (.evaluated left a) ∧ a.value = .integer 1 := by
  obtain ⟨c, h⟩ := check_mixed
  obtain ⟨m, operator, left, right, l, r, a, b, hbelow, hl, _, ha, _, heq, hmismatch⟩ :=
    (operands_of_fault h evaluate_mixed).2 rfl
  simp only [Fault.mk.injEq, Cause.invalidOperands.injEq] at heq
  obtain ⟨⟨rfl, ha₁, hb₁⟩, _⟩ := heq
  rw [← ha₁, ← hb₁] at hmismatch
  rcases hmismatch with hnil | hnil | ⟨rfl, _⟩
  · cases hnil
  · cases hnil
  · exact ⟨c, _, m, left, right, a, h, evaluate_mixed, rfl, hbelow, hl, ha, ha₁.symm⟩

/-- Operands of a fault need not be nil. -/
theorem exists_fault_without_nil :
    ¬ ∀ (file source : String) (c : Checked) (fuel : Nat) (f : Fault),
    check file source = .ok c → (evaluate fuel file source).1 = .error (.execution (.fault f)) →
    f.cause.code? = some "R011" →
    ∃ operator a b, f.cause = .invalidOperands operator a b ∧ (a = .nil ∨ b = .nil) := by
  intro hall
  obtain ⟨c, h⟩ := check_mixed
  obtain ⟨operator, a, b, hcause, hnil⟩ := hall "main" mixed c ampleFuel _ h evaluate_mixed rfl
  cases hcause
  rcases hnil with hnil | hnil
  · cases hnil
  · cases hnil

end LetDef
