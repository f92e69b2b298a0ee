import LetDef.Proofs.ScopeTree.History

/-!
# Scopes and the nearest definition

Whatever has been tried with scopes, a look-up is determined by what has been done with success: it
goes outward from scope to scope, ends at the first that defines the name, and gives the value that
was last put there. So the frames of a store, which change all the time, can be forgotten in favour
of the history of operations.
-/

namespace LetDef

namespace Store

variable {s t : Store} {scope : Scope} {name : String} {arity : Nat}

/-- A search depends on what is found at the members of the list only. -/
lemma findSome?_congr {α β : Type} {f g : α → Option β} {as : List α} (h : ∀ a ∈ as, f a = g a) :
    as.findSome? f = as.findSome? g := by
  induction as with
  | nil => rfl
  | cons a as ih =>
    rw [List.forall_mem_cons] at h
    rw [List.findSome?_cons, List.findSome?_cons, h.1, ih h.2]

/-- Looking up reads the frames of the chain only. -/
lemma lookupVariable_congr (h : ∀ i ∈ scope.chain, t.frame i = s.frame i) :
    t.lookupVariable scope name = s.lookupVariable scope name := by
  have hfind : t.findVariable? scope name = s.findVariable? scope name := by
    unfold findVariable?
    exact findSome?_congr fun i hi => by rw [h i hi]
  have hnames : t.variableNames scope = s.variableNames scope := by
    unfold variableNames
    exact List.flatMap_congr fun i hi => by rw [h i hi]
  rw [lookupVariable, lookupVariable, hfind, hnames]

lemma lookupFunction_congr (h : ∀ i ∈ scope.chain, t.frame i = s.frame i) :
    t.lookupFunction scope name arity = s.lookupFunction scope name arity := by
  have hfind : t.findFunction? scope name arity = s.findFunction? scope name arity := by
    unfold findFunction?
    exact findSome?_congr fun i hi => by rw [h i hi]
  have hnames : t.functionNames scope = s.functionNames scope := by
    unfold functionNames
    exact List.flatMap_congr fun i hi => by rw [h i hi]
  rw [lookupFunction, lookupFunction, hfind, hnames]

lemma lookupFunction_of_find {ref : FunctionRef} {g : Function}
    (h : s.findFunction? scope name arity = some (ref, g)) :
    s.lookupFunction scope name arity = .ok (ref, g) := by
  unfold lookupFunction
  rw [h]

end Store

namespace Script

open Execution (Natives)

variable {N : Natives} {desk' : Desk} {op : Operation} {scope : Scope} {v : Variable} {g : Function}
  {name : String} {o : Object} {i j t u arity : Nat}

/-! ### The invariant -/

/-- The desk is as its history says: scopes have the frames of their own numbers and the chains of
their parents, and each frame holds what has been defined in it. -/
structure Tracks (p : Past) : Prop where
  size : p.desk.scopes.size = p.desk.store.frames.size
  count : (p.done.filterMap Operation.entered?).length = p.desk.scopes.size
  own {i : Nat} {scope : Scope} : p.desk.scopes[i]? = some scope → scope.frame = i
  outer {i : Nat} {scope : Scope} : p.desk.scopes[i]? = some scope →
    parent? p.done i = none ∧ scope.outer = [] ∨
      ∃ j around, parent? p.done i = some j ∧ j < i ∧ p.desk.scopes[j]? = some around ∧
        scope.outer = around.chain
  holds {t : Nat} {name : String} {v : Variable} :
    (p.desk.store.frame t).getVariable? name = some v → Holds p.done t name v
  undefined {t : Nat} {name : String} :
    (p.desk.store.frame t).getVariable? name = none → ¬ DefinesVariable p.done name t
  function {t : Nat} {name : String} {arity : Nat} {g : Function} :
    (p.desk.store.frame t).getFunction? name arity = some g ↔
      .defineFunction t g ∈ p.done ∧ g.name = name ∧ g.arity = arity

namespace Tracks

variable {p : Past} (h : Tracks p)

include h

lemma definesVariable_iff :
    DefinesVariable p.done name t ↔ ((p.desk.store.frame t).getVariable? name).isSome = true := by
  cases hv : (p.desk.store.frame t).getVariable? name with
  | none => simpa using h.undefined hv
  | some v =>
    obtain ⟨⟨d, hd, hname, _⟩, _⟩ := h.holds hv
    simpa using ⟨d, hd, hname⟩

lemma definesFunction_iff :
    DefinesFunction p.done name arity t ↔
      ((p.desk.store.frame t).getFunction? name arity).isSome = true := by
  rw [Option.isSome_iff_exists]
  exact exists_congr fun g => h.function.symm

/-- A scope's chain is the scope itself and the chain around it. -/
lemma mem_chain_iff (hi : p.desk.scopes[i]? = some scope) :
    t ∈ scope.chain ↔ OnChain p.done i t := by
  induction i using Nat.strongRecOn generalizing scope with
  | ind i ih =>
    have hown := h.own hi
    unfold Scope.chain
    rw [List.mem_cons, hown, OnChain, Relation.ReflTransGen.cases_head_iff]
    refine or_congr ⟨Eq.symm, Eq.symm⟩ ?_
    rcases h.outer hi with ⟨hnone, houter⟩ | ⟨j, around, hsome, hlt, hj, houter⟩
    · simp [hnone, houter]
    · rw [houter, ih j hlt hj]
      constructor
      · intro hchain
        exact ⟨j, hsome, hchain⟩
      · rintro ⟨j', hj', hchain⟩
        rw [hsome] at hj'
        cases hj'
        exact hchain

/-- To search a chain is to go outward to the first scope where something is found. -/
lemma findSome?_chain {α : Type} {f : Nat → Option α} {a : α}
    (hi : p.desk.scopes[i]? = some scope) :
    scope.chain.findSome? f = some a ↔
      ∃ t, Nearest p.done (fun t => (f t).isSome = true) i t ∧ f t = some a := by
  -- By induction on the number of the scope: an outer scope has a smaller one.
  induction i using Nat.strongRecOn generalizing scope with
  | ind i ih =>
    have hown := h.own hi
    unfold Scope.chain
    rw [List.findSome?_cons, hown]
    cases hf : f i with
    | some b =>
      have hhere : Nearest p.done (fun t => (f t).isSome = true) i i := .here (by rw [hf]; rfl)
      constructor
      · rintro ⟨⟩
        exact ⟨i, hhere, hf⟩
      · rintro ⟨t, hnear, ht⟩
        rw [hnear.unique hhere, hf] at ht
        exact ht
    | none =>
      have hnot : ¬ (f i).isSome = true := by simp [hf]
      rcases h.outer hi with ⟨hnone, houter⟩ | ⟨j, around, hsome, hlt, hj, houter⟩
      · rw [houter]
        constructor
        · rintro ⟨⟩
        · rintro ⟨t, hnear, _⟩
          cases hnear with
          | here hi => exact absurd hi hnot
          | outer _ hparent _ => rw [hnone] at hparent; cases hparent
      · rw [houter]
        dsimp only
        rw [ih j hlt hj]
        constructor
        · rintro ⟨t, hnear, ht⟩
          exact ⟨t, .outer hnot hsome hnear, ht⟩
        · rintro ⟨t, hnear, ht⟩
          cases hnear with
          | here hi => exact absurd hi hnot
          | outer _ hparent hnear =>
            rw [hsome] at hparent
            cases hparent
            exact ⟨t, hnear, ht⟩

/-- A variable is found in the nearest scope that defines one of the name. -/
lemma findVariable?_iff {ref : VariableRef} (hi : p.desk.scopes[i]? = some scope) :
    p.desk.store.findVariable? scope name = some (ref, v) ↔
      Nearest p.done (DefinesVariable p.done name) i ref.frame ∧ ref.name = name ∧
        p.desk.store.getVariable? ref = some v := by
  unfold Store.findVariable?
  rw [h.findSome?_chain hi]
  simp only [Option.isSome_map, ← h.definesVariable_iff, Option.map_eq_some_iff]
  constructor
  · rintro ⟨t, hnear, v', hv, heq⟩
    cases heq
    exact ⟨hnear, rfl, hv⟩
  · rintro ⟨hnear, rfl, hv⟩
    exact ⟨_, hnear, v, hv, rfl⟩

lemma findFunction?_iff {ref : FunctionRef} (hi : p.desk.scopes[i]? = some scope) :
    p.desk.store.findFunction? scope name arity = some (ref, g) ↔
      Nearest p.done (DefinesFunction p.done name arity) i ref.frame ∧
        ref.name = name ∧ ref.arity = arity ∧ p.desk.store.getFunction? ref = some g := by
  unfold Store.findFunction?
  rw [h.findSome?_chain hi]
  simp only [Option.isSome_map, ← h.definesFunction_iff, Option.map_eq_some_iff]
  constructor
  · rintro ⟨t, hnear, g', hg, heq⟩
    cases heq
    exact ⟨hnear, rfl, rfl, hg⟩
  · rintro ⟨hnear, rfl, rfl, hg⟩
    exact ⟨_, hnear, g, hg, rfl⟩

/-! ### Operations keep the invariant -/

lemma lt_size (hi : p.desk.scopes[i]? = some scope) : scope.frame < p.desk.store.frames.size := by
  rw [h.own hi, ← h.size]
  exact (Array.getElem?_eq_some_iff.1 hi).1

/-- An operation that makes no scope and keeps the frames keeps the invariant for scopes. -/
lemma keep {store : Store} (hop : op.entered? = none)
    (hsize : store.frames.size = p.desk.store.frames.size)
    (hholds : ∀ {t name v}, (store.frame t).getVariable? name = some v →
      Holds (p.done ++ [op]) t name v)
    (hundefined : ∀ {t name}, (store.frame t).getVariable? name = none →
      ¬ DefinesVariable (p.done ++ [op]) name t)
    (hfunction : ∀ {t name arity g}, (store.frame t).getFunction? name arity = some g ↔
      .defineFunction t g ∈ p.done ++ [op] ∧ g.name = name ∧ g.arity = arity) :
    Tracks ⟨{ p.desk with store := store }, p.done ++ [op]⟩ where
  size := h.size.trans hsize.symm
  count := by
    rw [List.filterMap_append, List.filterMap_cons_none hop, List.filterMap_nil, List.append_nil]
    exact h.count
  own := h.own
  outer := by
    rw [parent?_append hop]
    exact h.outer
  holds := hholds
  undefined := hundefined
  function := hfunction

lemma enter {parent : Option Nat} {outer : Option Scope}
    (hparent : Option.Rel (fun j around => p.desk.scopes[j]? = some around) parent outer) :
    Tracks ⟨{ p.desk with
      store := (p.desk.store.enter outer).2
      scopes := p.desk.scopes.push (p.desk.store.enter outer).1 }, p.done ++ [.enter parent]⟩ where
  size := by rw [Array.size_push, Store.size_enter, h.size]
  count := by
    rw [List.filterMap_append, List.length_append, h.count, Array.size_push]
    rfl
  own {i scope} hi := by
    rw [Array.getElem?_push] at hi
    split at hi
    · rename_i hnew
      cases hi
      exact (hnew.trans h.size).symm
    · exact h.own hi
  outer {i scope} hi := by
    have hold {j : Nat} {around : Scope} (hj : p.desk.scopes[j]? = some around) :
        j < p.desk.scopes.size ∧
          (p.desk.scopes.push (p.desk.store.enter outer).1)[j]? = some around := by
      have hlt := (Array.getElem?_eq_some_iff.1 hj).1
      exact ⟨hlt, by rw [Array.getElem?_push, if_neg (Nat.ne_of_lt hlt), hj]⟩
    rw [Array.getElem?_push] at hi
    split at hi
    · rename_i hnew
      cases hi
      subst hnew
      rw [← h.count, parent?_append_enter, h.count]
      cases hparent with
      | none => exact .inl ⟨rfl, rfl⟩
      | some hj => exact .inr ⟨_, _, rfl, (hold hj).1, (hold hj).2, rfl⟩
    · rw [parent?_append_of_lt (by rw [h.count]; exact (hold hi).1)]
      rcases h.outer hi with hroot | ⟨j, around, hsome, hlt, hj, houter⟩
      · exact .inl hroot
      · exact .inr ⟨j, around, hsome, hlt, (hold hj).2, houter⟩
  holds hv := by
    rw [Store.frame_enter] at hv
    exact (h.holds hv).append fun _ => id
  undefined hv := by
    rw [Store.frame_enter] at hv
    rw [definesVariable_append_of_ne (by simp)]
    exact h.undefined hv
  function {t name arity g} := by
    rw [Store.frame_enter, h.function]
    simp

lemma defineVariable (hi : p.desk.scopes[i]? = some scope)
    (hnew : (p.desk.store.frame scope.frame).getVariable? v.name = none) :
    Tracks ⟨{ p.desk with store := p.desk.store.addVariable scope v },
      p.done ++ [.defineVariable i v]⟩ := by
  have hown := h.own hi
  have hself := Store.getVariable?_addVariable_self (h.lt_size hi) hnew
  have hother {t : Nat} {name : String} (hne : ¬ (i = t ∧ v.name = name)) :
      ((p.desk.store.addVariable scope v).frame t).getVariable? name
        = (p.desk.store.frame t).getVariable? name := by
    have hne : (⟨t, name⟩ : VariableRef) ≠ ⟨scope.frame, v.name⟩ := by
      rintro ⟨⟩
      exact hne ⟨hown.symm, rfl⟩
    exact Store.getVariable?_addVariable_of_ref_ne hne
  refine h.keep rfl Store.size_modifyFrame ?_ ?_ ?_
  · intro t name w hw
    by_cases hsame : i = t ∧ v.name = name
    · obtain ⟨rfl, rfl⟩ := hsame
      rw [← hown, hself] at hw
      cases hw
      exact ⟨⟨v, by simp, rfl, rfl⟩, .of_writes ⟨rfl, rfl, rfl⟩⟩
    · rw [hother hsame] at hw
      refine (h.holds hw).append ?_
      rintro o' ⟨rfl, rfl, _⟩
      exact hsame ⟨rfl, rfl⟩
  · intro t name hnone
    have hsame : ¬ (i = t ∧ v.name = name) := by
      rintro ⟨rfl, rfl⟩
      rw [← hown, hself] at hnone
      cases hnone
    rw [hother hsame] at hnone
    rw [definesVariable_append]
    rintro (hdef | ⟨v', heq, hname⟩)
    · exact h.undefined hnone hdef
    · cases heq
      exact hsame ⟨rfl, hname⟩
  · intro t name arity g
    have hkeep : ((p.desk.store.addVariable scope v).frame t).functions
        = (p.desk.store.frame t).functions := Store.functions_modifyVars (· ++ [v])
    rw [Frame.getFunction?, hkeep, ← Frame.getFunction?, h.function]
    simp

lemma defineFunction (hi : p.desk.scopes[i]? = some scope)
    (hnew : (p.desk.store.frame scope.frame).getFunction? g.name g.arity = none) :
    Tracks ⟨{ p.desk with store := p.desk.store.addFunction scope g },
      p.done ++ [.defineFunction i g]⟩ := by
  have hown := h.own hi
  have hvars {t : Nat} {name : String} :
      ((p.desk.store.addFunction scope g).frame t).getVariable? name
        = (p.desk.store.frame t).getVariable? name := by
    rw [Frame.getVariable?, Store.vars_addFunction]
    rfl
  refine h.keep rfl Store.size_addFunction ?_ ?_ ?_
  · intro t name w hw
    rw [hvars] at hw
    exact (h.holds hw).append fun _ => id
  · intro t name hnone
    rw [hvars] at hnone
    rw [definesVariable_append_of_ne (by simp)]
    exact h.undefined hnone
  · intro t name arity g'
    rw [List.mem_append, List.mem_singleton, or_and_right, ← h.function,
      Operation.defineFunction.injEq]
    -- Only in this scope something is added, and there nothing had this key.
    by_cases ht : t = scope.frame
    · have hadded : ((p.desk.store.addFunction scope g).frame t).getFunction? name arity
          = ((p.desk.store.frame t).getFunction? name arity).or
            (if g.name == name && g.arity == arity then some g else none) := by
        rw [ht, Frame.getFunction?, Store.functions_addFunction_self (h.lt_size hi),
          List.find?_append, List.find?_singleton]
        rfl
      rw [hadded, Option.or_eq_some_iff]
      refine or_congr_right ⟨?_, ?_⟩
      · rintro ⟨_, hlast⟩
        simp only [Option.ite_none_right_eq_some, Bool.and_eq_true, beq_iff_eq,
          Option.some.injEq] at hlast
        obtain ⟨hkey, rfl⟩ := hlast
        exact ⟨⟨ht.trans hown, rfl⟩, hkey⟩
      · rintro ⟨⟨_, rfl⟩, rfl, rfl⟩
        exact ⟨ht ▸ hnew, by simp⟩
    · rw [Store.frame_addFunction_of_ne ht]
      simp [← hown, ht]

lemma assign {ref : VariableRef} (hi : p.desk.scopes[i]? = some scope)
    (hfound : p.desk.store.findVariable? scope name = some (ref, v)) :
    Tracks ⟨{ p.desk with store := p.desk.store.setVariable ref o },
      p.done ++ [.assign i name o]⟩ := by
  obtain ⟨hnear, rfl, hv⟩ := (h.findVariable?_iff hi).1 hfound
  have hother {t : Nat} {name : String} (hne : ¬ (ref.frame = t ∧ ref.name = name)) :
      ((p.desk.store.setVariable ref o).frame t).getVariable? name
        = (p.desk.store.frame t).getVariable? name := by
    have hne : (⟨t, name⟩ : VariableRef) ≠ ref := by
      rintro rfl
      exact hne ⟨rfl, rfl⟩
    exact Store.getVariable?_setVariable_of_ne hv hne
  refine h.keep rfl Store.size_modifyFrame ?_ ?_ ?_
  · -- The variable that is nearest has the new value, by this operation; all others have theirs by
    -- an earlier one.
    intro t name w hw
    by_cases hsame : ref.frame = t ∧ ref.name = name
    · obtain ⟨rfl, rfl⟩ := hsame
      have hset := Store.getVariable?_setVariable_self (o := o) hv
      rw [Store.getVariable?, hw] at hset
      cases hset
      obtain ⟨⟨d, hd, hname, heq⟩, _⟩ := h.holds hv
      exact ⟨⟨d, List.mem_append_left _ hd, hname, by rw [heq]⟩, .of_writes ⟨rfl, rfl, hnear⟩⟩
    · rw [hother hsame] at hw
      refine (h.holds hw).append ?_
      rintro o' ⟨rfl, _, hnear'⟩
      exact hsame ⟨hnear.unique hnear', rfl⟩
  · intro t name hnone
    have hsame : ¬ (ref.frame = t ∧ ref.name = name) := by
      rintro ⟨rfl, rfl⟩
      have hset := Store.getVariable?_setVariable_self (o := o) hv
      rw [Store.getVariable?, hnone] at hset
      cases hset
    rw [hother hsame] at hnone
    rw [definesVariable_append_of_ne (by simp)]
    exact h.undefined hnone
  · intro t name arity g
    rw [Frame.getFunction?, (Store.grows_setVariable hv).functions, ← Frame.getFunction?,
      h.function]
    simp

lemma call {arguments : List Object} : Tracks ⟨p.desk, p.done ++ [.call i name arguments]⟩ := by
  refine h.keep rfl rfl ?_ ?_ ?_
  · intro t name w hw
    exact (h.holds hw).append fun _ => id
  · intro t name hnone
    rw [definesVariable_append_of_ne (by simp)]
    exact h.undefined hnone
  · intro t name arity g
    rw [h.function]
    simp

/-- What an operation does keeps the invariant. -/
lemma of_does (hdoes : Does p.desk op desk') : Tracks ⟨desk', p.done ++ [op]⟩ := by
  cases hdoes with
  | enter hparent => exact h.enter hparent
  | defineVariable hi hnew => exact h.defineVariable hi hnew
  | defineFunction hi hnew => exact h.defineFunction hi hnew
  | assign hi hfound => exact h.assign hi hfound
  | call => exact h.call

lemma next (hN : N.OnlyPrint) (op : Operation) : Tracks (p.next N op) := by
  rcases p.next_cases hN op with hsame | ⟨desk', hdoes, hnext⟩
  · rwa [hsame]
  · rw [hnext]
    exact h.of_does hdoes

end Tracks

/-- Nothing is defined where nothing has been done. -/
lemma tracks_nil : Tracks {} where
  size := rfl
  count := rfl
  own hi := by simp at hi
  outer hi := by simp at hi
  holds hv := by cases hv
  undefined _ := by
    rintro ⟨v, hv, _⟩
    cases hv
  function {t name arity g} := by
    constructor
    · intro hg
      cases hg
    · rintro ⟨hg, _⟩
      cases hg

lemma tracks_after (hN : N.OnlyPrint) (ops : List Operation) : Tracks (after N ops) := by
  unfold after
  generalize hp : ({} : Past) = p
  have h : Tracks p := hp ▸ tracks_nil
  clear hp
  induction ops generalizing p with
  | nil => exact h
  | cons op ops ih => exact ih (p.next N op) (h.next hN op)

/-! ### The nearest definition -/

/-- The operation defines a symbol in the scope. -/
def Operation.DefinesIn (s : Nat) : Operation → Prop
  | .defineVariable i _ | .defineFunction i _ => i = s
  | _ => False

/-- What has been done on a desk determines what is found there and what can be done next. -/
structure Refines (N : Natives) (p : Past) : Prop where
  /-- The scopes are those that have been made. -/
  scopes : p.desk.scopes.size = (p.done.filterMap Operation.entered?).length
  /-- They share no frame. -/
  apart {i j : Nat} {scope other : Scope} : p.desk.scopes[i]? = some scope →
    p.desk.scopes[j]? = some other → scope.frame = other.frame → i = j
  /-- A variable is found just if a scope on the chain defines it. -/
  variable_found {i : Nat} {scope : Scope} (hi : p.desk.scopes[i]? = some scope) (name : String) :
    (∃ found, p.desk.store.lookupVariable scope name = .ok found) ↔
      ∃ t, OnChain p.done i t ∧ DefinesVariable p.done name t
  /-- It is then the one of the nearest such scope, with the object that was put there last. -/
  variable_nearest {i : Nat} {scope : Scope} {name : String} {ref : VariableRef} {v : Variable} :
    p.desk.scopes[i]? = some scope → p.desk.store.lookupVariable scope name = .ok (ref, v) →
      ∃ t owner, Nearest p.done (DefinesVariable p.done name) i t ∧
        p.desk.scopes[t]? = some owner ∧ ref = ⟨owner.frame, name⟩ ∧ Holds p.done t name v
  /-- A function is found just if a scope on the chain defines it with the arity. -/
  function_found {i : Nat} {scope : Scope} (hi : p.desk.scopes[i]? = some scope) (name : String)
    (arity : Nat) : (∃ found, p.desk.store.lookupFunction scope name arity = .ok found) ↔
      ∃ t, OnChain p.done i t ∧ DefinesFunction p.done name arity t
  /-- It is then the one of the nearest such scope. -/
  function_nearest {i : Nat} {scope : Scope} {name : String} {arity : Nat} {ref : FunctionRef}
    {g : Function} : p.desk.scopes[i]? = some scope →
      p.desk.store.lookupFunction scope name arity = .ok (ref, g) →
      ∃ t owner, Nearest p.done (DefinesFunction p.done name arity) i t ∧
        p.desk.scopes[t]? = some owner ∧ ref = ⟨owner.frame, name, arity⟩ ∧
          .defineFunction t g ∈ p.done ∧ g.name = name ∧ g.arity = arity
  /-- A scope is made inside any other. -/
  entered {parent : Option Nat} : (∀ j ∈ parent, j < p.desk.scopes.size) →
    (outcome ((Operation.enter parent).work N) p.desk).1 = .ok ()
  /-- A variable is defined where its name is free, and refused elsewhere. -/
  variable_defined {i : Nat} {v : Variable} : i < p.desk.scopes.size →
    (¬ DefinesVariable p.done v.name i ∧
        (outcome ((Operation.defineVariable i v).work N) p.desk).1 = .ok ()) ∨
      DefinesVariable p.done v.name i ∧
        (outcome ((Operation.defineVariable i v).work N) p.desk).1
          = .error (.naming (.duplicateVariable v.name))
  /-- A function is defined where its name and arity are free, and refused elsewhere. -/
  function_defined {i : Nat} {g : Function} : i < p.desk.scopes.size →
    (¬ DefinesFunction p.done g.name g.arity i ∧
        (outcome ((Operation.defineFunction i g).work N) p.desk).1 = .ok ()) ∨
      DefinesFunction p.done g.name g.arity i ∧
        (outcome ((Operation.defineFunction i g).work N) p.desk).1
          = .error (.naming (.duplicateFunction g.name g.arity))
  /-- A variable is assigned to just if it is found. -/
  assigned {i : Nat} {scope : Scope} (hi : p.desk.scopes[i]? = some scope) (name : String)
    (o : Object) : (outcome ((Operation.assign i name o).work N) p.desk).1 = .ok () ↔
      ∃ found, p.desk.store.lookupVariable scope name = .ok found
  /-- What fails leaves everything as it is. -/
  failed {op : Operation} {e : Trouble} :
    (outcome (op.work N) p.desk).1 = .error e → (p.next N op).desk = p.desk
  /-- A definition makes no scope. -/
  kept {op : Operation} {s : Nat} : op.DefinesIn s → (p.next N op).desk.scopes = p.desk.scopes
  /-- It counts for nothing where its scope is not on the chain. -/
  unreached {op : Operation} {s i : Nat} {scope : Scope} : op.DefinesIn s →
    p.desk.scopes[i]? = some scope → ¬ OnChain p.done i s →
      (∀ name, (p.next N op).desk.store.lookupVariable scope name
        = p.desk.store.lookupVariable scope name) ∧
      ∀ name arity, (p.next N op).desk.store.lookupFunction scope name arity
        = p.desk.store.lookupFunction scope name arity
  /-- Nor does one of a variable count where another is nearer. -/
  variable_nearer {s i t : Nat} {scope : Scope} {v : Variable} :
    p.desk.scopes[i]? = some scope →
      Nearest p.done (fun u => u = s ∨ DefinesVariable p.done v.name u) i t → t ≠ s →
      (p.next N (.defineVariable s v)).desk.store.lookupVariable scope v.name
        = p.desk.store.lookupVariable scope v.name
  /-- Nor does one of a function. -/
  function_nearer {s i t : Nat} {scope : Scope} {g : Function} :
    p.desk.scopes[i]? = some scope →
      Nearest p.done (fun u => u = s ∨ DefinesFunction p.done g.name g.arity u) i t → t ≠ s →
      (p.next N (.defineFunction s g)).desk.store.lookupFunction scope g.name g.arity
        = p.desk.store.lookupFunction scope g.name g.arity

namespace Tracks

variable {p : Past} (h : Tracks p)

include h

/-- Where a variable is defined there is a scope, and its frame has the variable. -/
lemma exists_variable (hdef : DefinesVariable p.done name t) :
    ∃ owner v, p.desk.scopes[t]? = some owner ∧ owner.frame = t ∧
      (p.desk.store.frame t).getVariable? name = some v := by
  rw [h.definesVariable_iff, Option.isSome_iff_exists] at hdef
  obtain ⟨v, hv⟩ := hdef
  have hv' : p.desk.store.getVariable? ⟨t, name⟩ = some v := hv
  have ht : t < p.desk.scopes.size :=
    Nat.lt_of_lt_of_eq (Store.lt_size_of_getVariable? hv') h.size.symm
  have howner := Array.getElem?_eq_getElem ht
  exact ⟨_, v, howner, h.own howner, hv⟩

lemma exists_function (hdef : DefinesFunction p.done name arity t) :
    ∃ owner g, p.desk.scopes[t]? = some owner ∧ owner.frame = t ∧
      (p.desk.store.frame t).getFunction? name arity = some g := by
  rw [h.definesFunction_iff, Option.isSome_iff_exists] at hdef
  obtain ⟨g, hg⟩ := hdef
  have ht : t < p.desk.scopes.size := by
    rw [h.size]
    by_contra hout
    rw [Store.frame_of_size_le (Nat.le_of_not_lt hout)] at hg
    cases hg
  have howner := Array.getElem?_eq_getElem ht
  exact ⟨_, g, howner, h.own howner, hg⟩

lemma lookupVariable_iff {ref : VariableRef} (hi : p.desk.scopes[i]? = some scope) :
    p.desk.store.lookupVariable scope name = .ok (ref, v) ↔
      Nearest p.done (DefinesVariable p.done name) i ref.frame ∧ ref.name = name ∧
        p.desk.store.getVariable? ref = some v := by
  rw [← h.findVariable?_iff hi]
  exact ⟨Store.findVariable?_of_lookup, Store.lookupVariable_of_find⟩

lemma lookupFunction_iff {ref : FunctionRef} (hi : p.desk.scopes[i]? = some scope) :
    p.desk.store.lookupFunction scope name arity = .ok (ref, g) ↔
      Nearest p.done (DefinesFunction p.done name arity) i ref.frame ∧
        ref.name = name ∧ ref.arity = arity ∧ p.desk.store.getFunction? ref = some g := by
  rw [← h.findFunction?_iff hi]
  exact ⟨Store.findFunction?_of_lookup, Store.lookupFunction_of_find⟩

lemma variable_found (hi : p.desk.scopes[i]? = some scope) :
    (∃ found, p.desk.store.lookupVariable scope name = .ok found) ↔
      ∃ t, OnChain p.done i t ∧ DefinesVariable p.done name t := by
  constructor
  · rintro ⟨⟨ref, v⟩, hfound⟩
    obtain ⟨hnear, _, _⟩ := (h.lookupVariable_iff hi).1 hfound
    exact ⟨ref.frame, hnear.onChain, hnear.holds⟩
  · rintro ⟨t, hchain, hdef⟩
    obtain ⟨u, hnear⟩ := hchain.exists_nearest hdef
    obtain ⟨_, v, _, _, hv⟩ := h.exists_variable hnear.holds
    exact ⟨(⟨u, name⟩, v), (h.lookupVariable_iff hi).2 ⟨hnear, rfl, hv⟩⟩

lemma function_found (hi : p.desk.scopes[i]? = some scope) :
    (∃ found, p.desk.store.lookupFunction scope name arity = .ok found) ↔
      ∃ t, OnChain p.done i t ∧ DefinesFunction p.done name arity t := by
  constructor
  · rintro ⟨⟨ref, g⟩, hfound⟩
    obtain ⟨hnear, _, _⟩ := (h.lookupFunction_iff hi).1 hfound
    exact ⟨ref.frame, hnear.onChain, hnear.holds⟩
  · rintro ⟨t, hchain, hdef⟩
    obtain ⟨u, hnear⟩ := hchain.exists_nearest hdef
    obtain ⟨_, g, _, _, hg⟩ := h.exists_function hnear.holds
    exact ⟨(⟨u, name, arity⟩, g), (h.lookupFunction_iff hi).2 ⟨hnear, rfl, rfl, hg⟩⟩

lemma variable_nearest {ref : VariableRef} (hi : p.desk.scopes[i]? = some scope)
    (hfound : p.desk.store.lookupVariable scope name = .ok (ref, v)) :
    ∃ t owner, Nearest p.done (DefinesVariable p.done name) i t ∧
      p.desk.scopes[t]? = some owner ∧ ref = ⟨owner.frame, name⟩ ∧ Holds p.done t name v := by
  obtain ⟨hnear, rfl, hv⟩ := (h.lookupVariable_iff hi).1 hfound
  obtain ⟨owner, _, howner, hown, _⟩ := h.exists_variable hnear.holds
  exact ⟨ref.frame, owner, hnear, howner, by rw [hown], h.holds hv⟩

lemma function_nearest {ref : FunctionRef} (hi : p.desk.scopes[i]? = some scope)
    (hfound : p.desk.store.lookupFunction scope name arity = .ok (ref, g)) :
    ∃ t owner, Nearest p.done (DefinesFunction p.done name arity) i t ∧
      p.desk.scopes[t]? = some owner ∧ ref = ⟨owner.frame, name, arity⟩ ∧
        .defineFunction t g ∈ p.done ∧ g.name = name ∧ g.arity = arity := by
  obtain ⟨hnear, rfl, rfl, hg⟩ := (h.lookupFunction_iff hi).1 hfound
  obtain ⟨owner, _, howner, hown, _⟩ := h.exists_function hnear.holds
  exact ⟨ref.frame, owner, hnear, howner, by rw [hown], h.function.1 hg⟩

/-! ### What can be done next -/

lemma variable_defined (hi : i < p.desk.scopes.size) :
    (¬ DefinesVariable p.done v.name i ∧
        (outcome ((Operation.defineVariable i v).work N) p.desk).1 = .ok ()) ∨
      DefinesVariable p.done v.name i ∧
        (outcome ((Operation.defineVariable i v).work N) p.desk).1
          = .error (.naming (.duplicateVariable v.name)) := by
  have hscope := Array.getElem?_eq_getElem hi
  rw [h.definesVariable_iff, Operation.work, outcome_scopeAt_bind, hscope]
  dsimp only [Option.elim]
  rw [outcome_defineVariable, h.own hscope]
  cases (p.desk.store.frame i).getVariable? v.name with
  | none => exact .inl ⟨by simp, rfl⟩
  | some _ => exact .inr ⟨rfl, rfl⟩

lemma function_defined (hi : i < p.desk.scopes.size) :
    (¬ DefinesFunction p.done g.name g.arity i ∧
        (outcome ((Operation.defineFunction i g).work N) p.desk).1 = .ok ()) ∨
      DefinesFunction p.done g.name g.arity i ∧
        (outcome ((Operation.defineFunction i g).work N) p.desk).1
          = .error (.naming (.duplicateFunction g.name g.arity)) := by
  have hscope := Array.getElem?_eq_getElem hi
  rw [h.definesFunction_iff, Operation.work, outcome_scopeAt_bind, hscope]
  dsimp only [Option.elim]
  rw [outcome_defineFunction, h.own hscope]
  cases (p.desk.store.frame i).getFunction? g.name g.arity with
  | none => exact .inl ⟨by simp, rfl⟩
  | some _ => exact .inr ⟨rfl, rfl⟩

/-! ### What a definition does not reach -/

lemma unreached (hN : N.OnlyPrint) {s : Nat} (hop : op.DefinesIn s)
    (hi : p.desk.scopes[i]? = some scope)
    (hchain : ¬ OnChain p.done i s) :
    ∀ j ∈ scope.chain, (p.next N op).desk.store.frame j = p.desk.store.frame j := by
  intro j hj
  have hne : j ≠ s := by
    rintro rfl
    exact hchain ((h.mem_chain_iff hi).1 hj)
  rcases p.next_cases hN op with hsame | ⟨desk', hdoes, hnext⟩
  · rw [hsame]
  · rw [hnext]
    cases hdoes with
    | defineVariable hs _ =>
      cases hop
      exact Store.frame_addVariable_of_ne (by rwa [h.own hs])
    | defineFunction hs _ =>
      cases hop
      exact Store.frame_addFunction_of_ne (by rwa [h.own hs])
    | _ => cases hop

lemma variable_nearer (hN : N.OnlyPrint) {s : Nat} (hi : p.desk.scopes[i]? = some scope)
    (hnear : Nearest p.done (fun u => u = s ∨ DefinesVariable p.done v.name u) i t) (ht : t ≠ s) :
    (p.next N (.defineVariable s v)).desk.store.lookupVariable scope v.name
      = p.desk.store.lookupVariable scope v.name := by
  have hnear' := hnear.of_or ht
  obtain ⟨_, w, _, _, hw⟩ := h.exists_variable hnear'.holds
  have hfound : p.desk.store.lookupVariable scope v.name = .ok (⟨t, v.name⟩, w) :=
    (h.lookupVariable_iff hi).2 ⟨hnear', rfl, hw⟩
  have hnext' := h.next hN (.defineVariable s v)
  rcases p.next_cases hN (.defineVariable s v) with hsame | ⟨desk', hdoes, hnext⟩
  · rw [hsame]
  · rw [hnext] at hnext' ⊢
    cases hdoes with
    | defineVariable hs hnew =>
      rw [hfound]
      refine (hnext'.lookupVariable_iff hi).2 ⟨?_, rfl, ?_⟩
      · refine (nearest_congr (parent?_append rfl) fun u => ?_).2 hnear
        rw [definesVariable_append, or_comm]
        simp [eq_comm]
      · rw [Store.getVariable?_addVariable_of_ref_ne]
        · exact hw
        · rintro ⟨⟩
          exact ht (h.own hs)

lemma function_nearer (hN : N.OnlyPrint) {s : Nat} (hi : p.desk.scopes[i]? = some scope)
    (hnear : Nearest p.done (fun u => u = s ∨ DefinesFunction p.done g.name g.arity u) i t)
    (ht : t ≠ s) :
    (p.next N (.defineFunction s g)).desk.store.lookupFunction scope g.name g.arity
      = p.desk.store.lookupFunction scope g.name g.arity := by
  have hnear' := hnear.of_or ht
  obtain ⟨_, w, _, _, hw⟩ := h.exists_function hnear'.holds
  have hfound : p.desk.store.lookupFunction scope g.name g.arity
      = .ok (⟨t, g.name, g.arity⟩, w) :=
    (h.lookupFunction_iff hi).2 ⟨hnear', rfl, rfl, hw⟩
  have hnext' := h.next hN (.defineFunction s g)
  rcases p.next_cases hN (.defineFunction s g) with hsame | ⟨desk', hdoes, hnext⟩
  · rw [hsame]
  · rw [hnext] at hnext' ⊢
    cases hdoes with
    | defineFunction hs hnew =>
      rw [hfound]
      refine (hnext'.lookupFunction_iff hi).2 ⟨?_, rfl, rfl, ?_⟩
      · refine (nearest_congr (parent?_append rfl) fun u => ?_).2 hnear
        rw [definesFunction_append, or_comm]
        simp [eq_comm]
      · have hne : t ≠ _ := (h.own hs).symm ▸ ht
        rw [Store.getFunction?, Store.frame_addFunction_of_ne hne]
        exact hw

end Tracks

/-- Whatever is tried on scopes, looking up refines the nearest definition, if the functions of the
host that are called only print. -/
theorem nearest_definition_lookup (hN : N.OnlyPrint) (ops : List Operation) :
    Refines N (after N ops) := by
  have h := tracks_after hN ops
  exact {
    scopes := h.count.symm
    apart := fun hi hj heq => by
      rw [h.own hi, h.own hj] at heq
      exact heq
    variable_found := fun hi _ => h.variable_found hi
    variable_nearest := h.variable_nearest
    function_found := fun hi _ _ => h.function_found hi
    function_nearest := h.function_nearest
    entered := Operation.enter_ok
    variable_defined := h.variable_defined
    function_defined := h.function_defined
    assigned := fun hi _ _ => Operation.assign_ok_iff hi
    failed := fun {op e} hfails => by
      rcases op.work_cases hN (after N ops).desk with ⟨_, hkeeps⟩ | ⟨_, hdone, _⟩
      · rw [Past.next, hkeeps]
      · rw [hdone] at hfails
        cases hfails
    kept := fun {op s} hop => by
      rcases (after N ops).next_cases hN op with hsame | ⟨_, hdoes, hnext⟩
      · rw [hsame]
      · rw [hnext]
        cases hdoes with
        | enter _ => cases hop
        | defineVariable _ _ | defineFunction _ _ | assign _ _ | call => rfl
    unreached := fun hop hi hchain =>
      ⟨fun _ => Store.lookupVariable_congr (h.unreached hN hop hi hchain),
        fun _ _ => Store.lookupFunction_congr (h.unreached hN hop hi hchain)⟩
    variable_nearer := h.variable_nearer hN
    function_nearer := h.function_nearer hN }

/-- Two scopes, in the outer of which a variable is defined and a function of the host. That is
called and the variable assigned to from the inner one. A second definition fails. -/
def inwardOperations : List Operation :=
  [.enter none, .defineVariable 0 ⟨"a", "a", .integer, false, .of (.integer 1)⟩,
    .defineFunction 0 Execution.incFunction, .enter (some 0), .call 1 "inc" [.of (.integer 1)],
    .assign 1 "a" (.of (.integer 2)), .defineVariable 0 ⟨"a", "a", .any, true, .unset⟩]

/-- From the inner scope the variable of the outer one is found, with what was assigned to it. -/
theorem nearest_definition_lookup_inward :
    let p := after Execution.twoFunctions inwardOperations
    p.done.length = 6 ∧ p.desk.scopes[1]? = some ⟨1, [0]⟩ ∧
      ∃ v, p.desk.store.lookupVariable ⟨1, [0]⟩ "a" = .ok (⟨0, "a"⟩, v) ∧
        v.value = .of (.integer 2) ∧ Holds p.done 0 "a" v := by
  intro p
  have h : Refines Execution.twoFunctions p :=
    nearest_definition_lookup Execution.workOnArguments_twoFunctions.onlyPrint inwardOperations
  have hrun : p.done.length = 6 ∧ p.desk.scopes[0]? = some ⟨0, []⟩ ∧
      p.desk.scopes[1]? = some ⟨1, [0]⟩ ∧ p.desk.store.lookupVariable ⟨1, [0]⟩ "a"
        = .ok (⟨0, "a"⟩, ⟨"a", "a", .integer, false, .of (.integer 2)⟩) := by decide +kernel
  obtain ⟨hdone, houter, hinner, hfound⟩ := hrun
  obtain ⟨t, owner, _, howner, href, hholds⟩ := h.variable_nearest hinner hfound
  have ht : t = 0 := h.apart howner houter (congrArg VariableRef.frame href).symm
  subst ht
  exact ⟨hdone, hinner, _, hfound, rfl, hholds⟩

end Script

end LetDef
