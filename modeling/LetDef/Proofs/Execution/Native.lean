import LetDef.Proofs.Execution.Step

/-!
# What natives do

What the language brings along works on its arguments alone: it does not look at the world around
it, and all that it may do to it is to print. Of the functions of a host nothing of that kind is
known. What is to be shown of runs that call them rests on the properties named here.
-/

namespace LetDef.Execution

variable {α : Type} {n : Native} {objects : List Object} {depth : Nat}

/-- In every world the step ends in the same way and prints the same, and does nothing else. -/
def PrintsOnly (x : Run α) (r : Except Halt α) (printed : String) : Prop :=
  ∀ w, outcome x w = (r, { w with output := w.output ++ printed })

/-- Such a step that prints nothing. -/
lemma printsOnly_empty {x : Run α} {r : Except Halt α} (h : ∀ w, outcome x w = (r, w)) :
    PrintsOnly x r "" := by
  intro w
  rw [h w, String.append_empty]

/-- How such a step ends and what it prints can be seen in any world. -/
lemma PrintsOnly.unique {x y : Run α} {r r' : Except Halt α} {printed printed' : String}
    (hx : PrintsOnly x r printed) (hy : PrintsOnly y r' printed') {w : World}
    (h : outcome x w = outcome y w) : r = r' ∧ w.output ++ printed = w.output ++ printed' := by
  rw [hx w, hy w, Prod.mk.injEq, World.mk.injEq] at h
  exact ⟨h.1, h.2.2.1⟩

lemma outcome_render (v : Value) (w : World) :
    outcome (render v) w = (v.render?.elim (.error .tooManyDigits) .ok, w) := by
  unfold render
  cases v.render? <;> rfl

lemma outcome_firstOf (objects : List Object) (w : World) :
    outcome (firstOf objects) w = (objects.head?.elim (.error .missingArgument) .ok, w) := by
  cases objects <;> rfl

/-! ### Functions of a host -/

namespace Natives

variable (N : Natives)

/-- All that a function of the host does to the world is to print. -/
def OnlyPrint : Prop :=
  ∀ key objects depth w, ∃ printed,
    (outcome (N.call key objects depth) w).2 = { w with output := w.output ++ printed }

/-- A function of the host works on its arguments: it does not look at the world, and all that it
does to it is to print. -/
def WorkOnArguments : Prop :=
  ∀ key objects depth, ∃ r printed, PrintsOnly (N.call key objects depth) r printed

end Natives

variable {N : Natives}

lemma Natives.WorkOnArguments.onlyPrint (hN : N.WorkOnArguments) : N.OnlyPrint := by
  intro key objects depth w
  obtain ⟨r, printed, hprints⟩ := hN key objects depth
  exact ⟨printed, by rw [hprints w]⟩

lemma Natives.workOnArguments_none : Natives.none.WorkOnArguments :=
  fun _ _ _ => ⟨_, "", printsOnly_empty fun _ => rfl⟩

/-- A native of the language does not ask for the depth. -/
lemma callNative_depth {depth' : Nat} (hn : ∀ key, n ≠ .host key) :
    callNative N n objects depth' = callNative N n objects depth := by
  cases n with
  | host key => exact absurd rfl (hn key)
  | _ => rfl

/-- A native of the language prints at most, and yields nothing. -/
lemma exists_printsOnly (N : Natives) (hn : ∀ key, n ≠ .host key) (objects : List Object)
    (depth : Nat) :
    ∃ r printed, PrintsOnly (callNative N n objects depth) r printed ∧
      ∀ o, r = .ok o → o = .unset := by
  cases n with
  | host key => exact absurd rfl (hn key)
  | nothing => exact ⟨.ok .unset, "", printsOnly_empty fun _ => rfl, by rintro o ⟨⟩; rfl⟩
  | print =>
    cases objects with
    | nil => exact ⟨.error .missingArgument, "", printsOnly_empty fun _ => rfl, by rintro o ⟨⟩⟩
    | cons o objects =>
      cases htext : o.value.render? with
      | none =>
        refine ⟨.error .tooManyDigits, "", printsOnly_empty fun w => ?_, by rintro o ⟨⟩⟩
        unfold callNative
        dsimp only
        rw [outcome_bind, outcome_firstOf]
        dsimp only [List.head?, Option.elim]
        rw [outcome_bind, outcome_render, htext]
        rfl
      | some line =>
        refine ⟨.ok .unset, line ++ "\n", fun w => ?_, by rintro o ⟨⟩; rfl⟩
        unfold callNative
        dsimp only
        rw [outcome_bind, outcome_firstOf]
        dsimp only [List.head?, Option.elim]
        rw [outcome_bind, outcome_render, htext, ← String.append_assoc]
        rfl

/-- So every native only prints, if the functions of the host do. -/
theorem Natives.OnlyPrint.exists_printed (hN : N.OnlyPrint) (n : Native) (objects : List Object)
    (depth : Nat) (w : World) :
    ∃ printed,
      (outcome (callNative N n objects depth) w).2 = { w with output := w.output ++ printed } := by
  by_cases hn : ∃ key, n = .host key
  · obtain ⟨key, rfl⟩ := hn
    exact hN key objects depth w
  · obtain ⟨r, printed, hprints, _⟩ :=
      Execution.exists_printsOnly N (fun key h => hn ⟨key, h⟩) objects depth
    exact ⟨printed, by rw [hprints w]⟩

lemma Natives.OnlyPrint.store_callNative (hN : N.OnlyPrint) (n : Native) (objects : List Object)
    (depth : Nat) (w : World) :
    (outcome (callNative N n objects depth) w).2.store = w.store := by
  obtain ⟨printed, h⟩ := hN.exists_printed n objects depth w
  rw [h]

/-- And every native works on its arguments, if the functions of the host do. -/
theorem Natives.WorkOnArguments.exists_printsOnly (hN : N.WorkOnArguments) (n : Native)
    (objects : List Object) (depth : Nat) :
    ∃ r printed, PrintsOnly (callNative N n objects depth) r printed := by
  by_cases hn : ∃ key, n = .host key
  · obtain ⟨key, rfl⟩ := hn
    exact hN key objects depth
  · obtain ⟨r, printed, hprints, _⟩ :=
      Execution.exists_printsOnly N (fun key h => hn ⟨key, h⟩) objects depth
    exact ⟨r, printed, hprints⟩

/-! ### A host -/

/-- What two functions yield: the integer after an integer, and a text so many times. -/
def hostValue (key : String) (values : List Value) : Value :=
  match key, values with
  | "inc", [.integer i] => .integer (i + 1)
  | "repeat", [.text s, .integer i] => .text (String.join (List.replicate i.toNat s))
  | _, _ => .nil

/-- A host with two functions. -/
def twoFunctions : Natives where
  call key objects _ := pure (.of (hostValue key (objects.map Object.value)))

/-- The first of them in a scope. -/
def incFunction : Function :=
  ⟨"inc", "inc", [.integer], .integer, .native (.host "inc")⟩

/-- A store whose only scope has that function. -/
def incStore : Store :=
  (({} : Store).enter none).2.addFunction ⟨0, []⟩ incFunction

/-- A scope for a program inside that one, and the world with both. -/
def incStart : Scope × World :=
  ((globalScope (some ⟨0, []⟩) incStore).1, { store := (globalScope (some ⟨0, []⟩) incStore).2 })

/-- A call of the function. -/
def incCall (argument : Node) : Node :=
  .call {} .absent "inc" [argument]

lemma workOnArguments_twoFunctions : twoFunctions.WorkOnArguments :=
  fun _ _ _ => ⟨_, "", printsOnly_empty fun _ => rfl⟩

end LetDef.Execution
