import LetDef.Proofs.Store.Keys
import LetDef.Proofs.Store.Similar
import Mathlib.Order.RelClasses

/-!
# Suggestions for undefined names

The names that are suggested for an undefined one are the nearest of those that are in reach. Where
the names are defined, in what order, and how often a name is shadowed does not matter: scopes that
see the same names give the same suggestions, and so a look-up that fails gives the same error.
-/

namespace LetDef.Store

variable {limit : Int} {name text : String} {candidates : List String} {s s' : Store}
  {scope scope' : Scope} {arity : Nat} {e : NameError}

/-! ### Names in reach -/

/-- A variable of the name is defined in the scope or around it. -/
def SeesVariable (s : Store) (scope : Scope) (name : String) : Prop :=
  ∃ i ∈ scope.chain, ∃ v ∈ (s.frame i).vars, v.name = name

/-- A function of the name and arity is defined in the scope or around it. -/
def SeesFunction (s : Store) (scope : Scope) (name : String) (arity : Nat) : Prop :=
  ∃ i ∈ scope.chain, ∃ g ∈ (s.frame i).functions, g.name = name ∧ g.arity = arity

/-- A function as it is suggested. -/
def functionText (name : String) (arity : Nat) : String :=
  name ++ "/" ++ toString arity

lemma mem_variableNames : text ∈ s.variableNames scope ↔ s.SeesVariable scope text := by
  simp only [variableNames, List.mem_flatMap, List.mem_map]
  rfl

lemma mem_functionNames : text ∈ s.functionNames scope ↔
    ∃ name arity, s.SeesFunction scope name arity ∧ text = functionText name arity := by
  simp only [functionNames, List.mem_flatMap, List.mem_map]
  constructor
  · rintro ⟨i, hi, g, hg, rfl⟩
    exact ⟨g.name, g.arity, ⟨i, hi, g, hg, rfl, rfl⟩, rfl⟩
  · rintro ⟨_, _, ⟨i, hi, g, hg, rfl, rfl⟩, rfl⟩
    exact ⟨i, hi, g, hg, rfl⟩

lemma findVariable?_eq_none_iff : s.findVariable? scope name = none ↔
    ¬ s.SeesVariable scope name := by
  simp only [findVariable?, List.findSome?_eq_none_iff, Option.map_eq_none_iff,
    Frame.getVariable?, List.find?_eq_none, SeesVariable, beq_iff_eq]
  grind

lemma findFunction?_eq_none_iff : s.findFunction? scope name arity = none ↔
    ¬ s.SeesFunction scope name arity := by
  simp only [findFunction?, List.findSome?_eq_none_iff, Option.map_eq_none_iff,
    Frame.getFunction?, List.find?_eq_none, SeesFunction, Bool.and_eq_true, beq_iff_eq]
  grind

/-! ### Ranking -/

/-- The texts of the first three of the candidates, each given by its distance and its text, that
are no farther than the limit: nearer ones first, and those at one distance in the order of their
texts. No candidate stands in the ranking twice. -/
def Nearest (limit : Int) (Candidate : Nat → String → Prop) (found : List String) : Prop :=
  ∃ ranking : List (Nat × String),
    ranking.Pairwise (Prod.Lex (· < ·) (· < ·)) ∧
    (∀ d text, (d, text) ∈ ranking ↔ Candidate d text ∧ (d : Int) ≤ limit) ∧
    found = (ranking.take 3).map Prod.snd

lemma Nearest.congr {C C' : Nat → String → Prop} {found : List String} (h : Nearest limit C found)
    (hC : ∀ d text, C d text ↔ C' d text) : Nearest limit C' found := by
  obtain ⟨ranking, hsorted, hmem, hfound⟩ := h
  exact ⟨ranking, hsorted, fun d text => (hmem d text).trans (and_congr_left' (hC d text)), hfound⟩

lemma lex_of_comesFirst {a b : String} (h : comesFirst name a b = true) (hne : a ≠ b) :
    Prod.Lex (· < ·) (· < ·) (nameDistance name a, a) (nameDistance name b, b) := by
  rw [Prod.lex_def]
  rcases comesFirst_iff.1 h with hlt | ⟨heq, hle⟩
  · exact .inl hlt
  · exact .inr ⟨heq, String.not_le.1 fun hge => hne (String.le_antisymm hle hge)⟩

/-- The suggestions are the nearest candidates. -/
lemma nearest_similar (limit : Int) (name : String) (candidates : List String) :
    Nearest limit (fun d text => text ∈ candidates ∧ d = nameDistance name text)
      (similar limit name candidates) := by
  obtain ⟨ranked, heq, hnodup, hsorted, hmem⟩ := exists_ranked limit name candidates
  refine ⟨ranked.map fun text => (nameDistance name text, text), ?_, fun d text => ?_, ?_⟩
  · rw [List.pairwise_map]
    exact hsorted.imp₂ (fun _ _ => lex_of_comesFirst) hnodup
  · rw [List.mem_map]
    constructor
    · rintro ⟨_, htext, ⟨⟩⟩
      rw [hmem] at htext
      exact ⟨⟨htext.1, rfl⟩, htext.2⟩
    · rintro ⟨⟨htext, rfl⟩, hle⟩
      exact ⟨text, (hmem text).2 ⟨htext, hle⟩, rfl⟩
  · rw [heq, ← List.map_take, List.map_map]
    exact (List.map_id _).symm

/-! ### Distances of names -/

/-- What comes before the first slash. -/
lemma takeWhile_append {cs rest : List Char} (h : '/' ∉ cs) :
    (cs ++ rest).takeWhile (· ≠ '/') = cs ++ rest.takeWhile (· ≠ '/') := by
  refine List.takeWhile_append_of_pos fun c hc => ?_
  exact decide_eq_true fun heq => h (heq ▸ hc)

/-- A name without a slash is compared as a whole. -/
lemma nameDistance_eq (h : '/' ∉ text.toList) :
    nameDistance name text = Text.distance name.toLower text.toLower := by
  rw [nameDistance, ← List.append_nil text.toList, takeWhile_append h, List.takeWhile_nil,
    List.append_nil, String.ofList_toList]

/-- A function is compared by its name. -/
lemma nameDistance_functionText {known : String} (h : '/' ∉ known.toList) :
    nameDistance name (functionText known arity) = Text.distance name.toLower known.toLower := by
  have hslash : (functionText known arity).toList =
      known.toList ++ '/' :: (toString arity).toList := by
    simp [functionText]
  rw [nameDistance, hslash, takeWhile_append h, List.takeWhile_cons_of_neg (by simp),
    List.append_nil, String.ofList_toList]

/-! ### Failed look-ups -/

lemma lookupVariable_eq_error_iff : s.lookupVariable scope name = .error e ↔
    ¬ s.SeesVariable scope name ∧
      e = .undefinedVariable name (similar suggestionLimit name (s.variableNames scope)) := by
  rw [← findVariable?_eq_none_iff, lookupVariable]
  cases s.findVariable? scope name with
  | some found => simp
  | none => simp [eq_comm]

lemma lookupFunction_eq_error_iff : s.lookupFunction scope name arity = .error e ↔
    ¬ s.SeesFunction scope name arity ∧
      e = .undefinedFunction name arity
        (similar suggestionLimit name (s.functionNames scope)) := by
  rw [← findFunction?_eq_none_iff, lookupFunction]
  cases s.findFunction? scope name arity with
  | some found => simp
  | none => simp [eq_comm]

/-! ### Scopes that see the same names -/

lemma similar_variableNames_congr
    (h : ∀ n, s.SeesVariable scope n ↔ s'.SeesVariable scope' n) (limit : Int) (name : String) :
    similar limit name (s.variableNames scope) = similar limit name (s'.variableNames scope') :=
  similar_congr fun text => by rw [mem_variableNames, mem_variableNames, h]

lemma similar_functionNames_congr
    (h : ∀ n k, s.SeesFunction scope n k ↔ s'.SeesFunction scope' n k) (limit : Int)
    (name : String) :
    similar limit name (s.functionNames scope) = similar limit name (s'.functionNames scope') :=
  similar_congr fun text => by simp only [mem_functionNames, h]

/-- The names that are suggested for a name are the nearest of the distinct names in reach, however
these are listed. Variables are compared and suggested by their names, functions compared by their
names and suggested with their arities. Scopes that see the same names give the same suggestions,
and if a look-up fails in one it fails in the other with the same error. -/
theorem suggestions_tell_visible_names (limit : Int) (name : String) (s : Store) (scope : Scope) :
    ((∀ n, s.SeesVariable scope n → '/' ∉ n.toList) →
      ∀ candidates, (∀ text, text ∈ candidates ↔ s.SeesVariable scope text) →
        Nearest limit
            (fun d text => s.SeesVariable scope text ∧
              d = Text.distance name.toLower text.toLower)
            (similar limit name candidates) ∧
          similar limit name candidates = similar limit name (s.variableNames scope)) ∧
    ((∀ n k, s.SeesFunction scope n k → '/' ∉ n.toList) →
      ∀ candidates, (∀ text, text ∈ candidates ↔
          ∃ n k, s.SeesFunction scope n k ∧ text = functionText n k) →
        Nearest limit
            (fun d text => ∃ n k, s.SeesFunction scope n k ∧ text = functionText n k ∧
              d = Text.distance name.toLower n.toLower)
            (similar limit name candidates) ∧
          similar limit name candidates = similar limit name (s.functionNames scope)) ∧
    ∀ (s' : Store) (scope' : Scope),
      ((∀ n, s.SeesVariable scope n ↔ s'.SeesVariable scope' n) →
        similar limit name (s.variableNames scope) = similar limit name (s'.variableNames scope') ∧
        ∀ e, s.lookupVariable scope name = .error e ↔ s'.lookupVariable scope' name = .error e) ∧
      ((∀ n k, s.SeesFunction scope n k ↔ s'.SeesFunction scope' n k) →
        similar limit name (s.functionNames scope) = similar limit name (s'.functionNames scope') ∧
        ∀ arity e, s.lookupFunction scope name arity = .error e ↔
          s'.lookupFunction scope' name arity = .error e) := by
  refine ⟨fun hslash candidates hmem => ⟨?_, ?_⟩, fun hslash candidates hmem => ⟨?_, ?_⟩,
    fun s' scope' => ⟨fun h => ⟨?_, fun e => ?_⟩, fun h => ⟨?_, fun arity e => ?_⟩⟩⟩
  · -- The distance is taken to the text before a slash, which for a variable is its whole name.
    refine (nearest_similar limit name candidates).congr fun d text => ?_
    rw [hmem]
    refine and_congr_right fun hsees => ?_
    rw [nameDistance_eq (hslash text hsees)]
  · exact similar_congr fun text => by rw [hmem, mem_variableNames]
  · refine (nearest_similar limit name candidates).congr fun d text => ?_
    rw [hmem]
    constructor
    · rintro ⟨⟨n, k, hsees, rfl⟩, rfl⟩
      exact ⟨n, k, hsees, rfl, nameDistance_functionText (hslash n k hsees)⟩
    · rintro ⟨n, k, hsees, rfl, rfl⟩
      exact ⟨⟨n, k, hsees, rfl⟩, (nameDistance_functionText (hslash n k hsees)).symm⟩
  · exact similar_congr fun text => by rw [hmem, mem_functionNames]
  · exact similar_variableNames_congr h limit name
  · rw [lookupVariable_eq_error_iff, lookupVariable_eq_error_iff, h,
      similar_variableNames_congr h]
  · exact similar_functionNames_congr h limit name
  · rw [lookupFunction_eq_error_iff, lookupFunction_eq_error_iff, h,
      similar_functionNames_congr h]

/-- A frame with variables of the names and functions of the names and arities. -/
def frameOf (vars : List String) (functions : List (String × Nat)) : Frame where
  vars := vars.map fun n => ⟨n, n, .any, false, .unset⟩
  functions := functions.map fun (n, k) => ⟨n, n, .replicate k .any, .any, .native .nothing⟩

/-- Two frames, of which the inner one shadows two names. -/
def nested : Store :=
  ⟨#[frameOf ["const", "font", "Cost"] [("list", 1), ("last", 2), ("lost", 0)],
    frameOf ["coat", "const", "count"] [("last", 10), ("last", 2)]]⟩

/-- The same names in one frame and in another order. -/
def flat : Store :=
  ⟨#[frameOf ["count", "Cost", "coat", "font", "const"]
    [("last", 2), ("last", 10), ("lost", 0), ("list", 1)]]⟩

/-- The names and arities of the functions in reach. -/
def functionKeys (s : Store) (scope : Scope) : List (String × Nat) :=
  scope.chain.flatMap fun i => (s.frame i).functions.map Function.key

lemma mem_functionKeys :
    (name, arity) ∈ s.functionKeys scope ↔ s.SeesFunction scope name arity := by
  simp [functionKeys, SeesFunction, Function.key]

/-- The two stores have the same names, and none has a slash. -/
lemma names_nested :
    ((∀ n ∈ nested.variableNames ⟨1, [0]⟩, n ∈ flat.variableNames ⟨0, []⟩ ∧ '/' ∉ n.toList) ∧
      ∀ n ∈ flat.variableNames ⟨0, []⟩, n ∈ nested.variableNames ⟨1, [0]⟩) ∧
    (∀ g ∈ nested.functionKeys ⟨1, [0]⟩, g ∈ flat.functionKeys ⟨0, []⟩ ∧ '/' ∉ g.1.toList) ∧
      ∀ g ∈ flat.functionKeys ⟨0, []⟩, g ∈ nested.functionKeys ⟨1, [0]⟩ := by
  decide +kernel

/-- What is near to the two names, and the order in which it is suggested. -/
lemma similar_nested :
    similar 2 "cont" (nested.variableNames ⟨1, [0]⟩) = ["Cost", "coat", "const"] ∧
    similar 2 "lst" (nested.functionNames ⟨1, [0]⟩) = ["last/10", "last/2", "list/1"] := by
  have hnear : ((nested.variableNames ⟨1, [0]⟩).eraseDups.filter
        (fun c => decide ((nameDistance "cont" c : Int) ≤ 2))).Perm
        ["Cost", "coat", "const", "count", "font"] ∧
      ((nested.functionNames ⟨1, [0]⟩).eraseDups.filter
        (fun c => decide ((nameDistance "lst" c : Int) ≤ 2))).Perm
        ["last/10", "last/2", "list/1", "lost/0"] := by
    decide +kernel
  have hsorted : ["Cost", "coat", "const", "count", "font"].Pairwise
        (fun a b => comesFirst "cont" a b = true) ∧
      ["last/10", "last/2", "list/1", "lost/0"].Pairwise
        (fun a b => comesFirst "lst" a b = true) := by
    decide +kernel
  unfold similar
  dsimp only
  rw [mergeSort_comesFirst_eq hnear.1 hsorted.1, mergeSort_comesFirst_eq hnear.2 hsorted.2]
  exact ⟨rfl, rfl⟩

/-- Five variables and four functions are equally near to a name. Three of each are suggested, in
whichever way they are defined. -/
theorem suggestions_tell_visible_names_ties :
    Nearest 2 (fun d text => nested.SeesVariable ⟨1, [0]⟩ text ∧
      d = Text.distance "cont".toLower text.toLower) ["Cost", "coat", "const"] ∧
    Nearest 2 (fun d text => ∃ n k, nested.SeesFunction ⟨1, [0]⟩ n k ∧ text = functionText n k ∧
      d = Text.distance "lst".toLower n.toLower) ["last/10", "last/2", "list/1"] ∧
    flat.lookupVariable ⟨0, []⟩ "cont"
      = .error (.undefinedVariable "cont" ["Cost", "coat", "const"]) ∧
    flat.lookupFunction ⟨0, []⟩ "lst" 1
      = .error (.undefinedFunction "lst" 1 ["last/10", "last/2", "list/1"]) := by
  obtain ⟨hvars, hfunctions⟩ := similar_nested
  obtain ⟨⟨hnested, hflat⟩, hnested', hflat'⟩ := names_nested
  have hvariable (n : String) : nested.SeesVariable ⟨1, [0]⟩ n ↔ flat.SeesVariable ⟨0, []⟩ n := by
    rw [← mem_variableNames, ← mem_variableNames]
    exact ⟨fun h => (hnested n h).1, hflat n⟩
  have hfunction (n : String) (k : Nat) :
      nested.SeesFunction ⟨1, [0]⟩ n k ↔ flat.SeesFunction ⟨0, []⟩ n k := by
    rw [← mem_functionKeys, ← mem_functionKeys]
    exact ⟨fun h => (hnested' _ h).1, hflat' _⟩
  obtain ⟨hlistVars, -, hsame⟩ := suggestions_tell_visible_names 2 "cont" nested ⟨1, [0]⟩
  obtain ⟨-, hlistFunctions, hsame'⟩ := suggestions_tell_visible_names 2 "lst" nested ⟨1, [0]⟩
  refine ⟨?_, ?_, ?_, ?_⟩
  · rw [← hvars]
    exact (hlistVars (fun n hn => (hnested n (mem_variableNames.2 hn)).2) _
      fun _ => mem_variableNames).1
  · rw [← hfunctions]
    exact (hlistFunctions (fun n k hn => (hnested' (n, k) (mem_functionKeys.2 hn)).2) _
      fun _ => mem_functionNames).1
  · rw [← ((hsame flat ⟨0, []⟩).1 hvariable).2, ← hvars]
    rfl
  · rw [← ((hsame' flat ⟨0, []⟩).2 hfunction).2, ← hfunctions]
    rfl

end LetDef.Store
