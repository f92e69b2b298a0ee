import LetDef.Proofs.Analysis.Typing
import LetDef.Proofs.Analysis.Step
import LetDef.Proofs.Store.Growth

/-!
# Analysed expressions are typed

Where analysis succeeds on an expression, the type system derives the type that it found. Analysis
only ever adds to its state, so what a rule needs is still there in the state in which it ends.
-/

namespace LetDef.Analysis

open Execution (Origin)

variable {α : Type} {st st₁ st₂ final : State} {site : Site} {scope : Scope} {n : Node} {t : Ty}
  {own : Option FrameId} {known : List Function} {bs outer block : List Binding}

/-! ### Later states -/

/-- The state has all that an earlier one had. -/
structure State.Le (st final : State) : Prop where
  decorations : ∀ m d, st.decorations.get? m = some d → final.decorations.get? m = some d
  outline : ∀ i, (st.store.frame i).outline <+: (final.store.frame i).outline
  functions : ∀ i, (st.store.frame i).functions <+: (final.store.frame i).functions

namespace State

lemma Le.refl (st : State) : st.Le st where
  decorations _ _ h := h
  outline _ := List.prefix_rfl
  functions _ := List.prefix_rfl

lemma Le.trans (h : st.Le st₁) (h' : st₁.Le st₂) : st.Le st₂ where
  decorations m d hd := h'.decorations m d (h.decorations m d hd)
  outline i := (h.outline i).trans (h'.outline i)
  functions i := (h.functions i).trans (h'.functions i)

lemma Le.getVariable? (h : st.Le final) {ref : VariableRef} {v : Variable}
    (hv : st.store.getVariable? ref = some v) :
    ∃ w, final.store.getVariable? ref = some w ∧ w.Like v :=
  Frame.getVariable?_of_prefix (h.outline ref.frame) hv

lemma Le.getFunction? (h : st.Le final) {ref : FunctionRef} {g : Function}
    (hg : st.store.getFunction? ref = some g) : final.store.getFunction? ref = some g :=
  Frame.getFunction?_of_prefix (h.functions ref.frame) hg

lemma typeOf?_of_variable {ref : VariableRef} {v : Variable} (h : st.Le final)
    (hd : st.decorations.get? n.mark = some (.variable ref))
    (hv : st.store.getVariable? ref = some v) : final.typeOf? n = some v.type := by
  obtain ⟨w, hw, hlike⟩ := h.getVariable? hv
  unfold typeOf?
  rw [h.decorations _ _ hd]
  simp only [hw, Option.map_some, hlike.1]

lemma typeOf?_of_function {ref : FunctionRef} {g : Function} (h : st.Le final)
    (hd : st.decorations.get? n.mark = some (.function ref))
    (hg : st.store.getFunction? ref = some g) : final.typeOf? n = some g.returns := by
  unfold typeOf?
  rw [h.decorations _ _ hd]
  simp only [h.getFunction? hg, Option.map_some]

lemma typeOf?_of_type (h : st.Le final) (hd : st.decorations.get? n.mark = some (.type t)) :
    final.typeOf? n = some t := by
  unfold typeOf?
  rw [h.decorations _ _ hd]

/-- A type that can be read stays the same. -/
lemma Le.typeOf? (h : st.Le final) (ht : st.typeOf? n = some t) : final.typeOf? n = some t := by
  unfold State.typeOf? at ht
  cases hd : st.decorations.get? n.mark with
  | none =>
    rw [hd] at ht
    cases ht
  | some d =>
    rw [hd] at ht
    rcases d with ref | ref | t'
    · obtain ⟨v, hv, rfl⟩ := Option.map_eq_some_iff.1 ht
      exact typeOf?_of_variable h hd hv
    · obtain ⟨g, hg, rfl⟩ := Option.map_eq_some_iff.1 ht
      exact typeOf?_of_function h hd hg
    · cases ht
      exact typeOf?_of_type h hd

/-- The variable of an origin keeps its type. -/
lemma Le.cell? (h : st.Le final) {origin : Origin} {c : Ty × Bool}
    (hc : st.cell? origin = some c) : final.cell? origin = some c := by
  cases origin with
  | declaration mark =>
    simp only [State.cell?] at hc ⊢
    split at hc
    · rename_i ref hd
      rw [Option.map_eq_some_iff] at hc
      obtain ⟨v, hv, rfl⟩ := hc
      obtain ⟨w, hw, hlike⟩ := h.getVariable? hv
      rw [h.decorations _ _ hd]
      simp only [hw, Option.map_some, hlike.1, hlike.2]
    · cases hc
  | parameter method position =>
    simp only [State.cell?] at hc ⊢
    split at hc
    · rename_i ref hd
      rw [Option.bind_eq_some_iff] at hc
      obtain ⟨g, hg, hp⟩ := hc
      rw [h.decorations _ _ hd]
      simp only [h.getFunction? hg, Option.bind_some]
      exact hp
    · cases hc

/-- The return type of a method stays. -/
lemma Le.returns? (h : st.Le final) {m : Method} (hr : st.returns? m = some t) :
    final.returns? m = some t := by
  unfold State.returns? at hr ⊢
  split at hr
  · rename_i ref hd
    rw [Option.map_eq_some_iff] at hr
    obtain ⟨g, hg, rfl⟩ := hr
    rw [h.decorations _ _ hd]
    simp only [h.getFunction? hg, Option.map_some]
  · cases hr

/-- A step of analysis inside a program: nodes are decorated, and the store grows. -/
structure Grows (own : Option FrameId) (st st₁ : State) : Prop where
  decorations : ∀ m d, st.decorations.get? m = some d → st₁.decorations.get? m = some d
  store : st.store.Grows own st₁.store

namespace Grows

lemma refl (own : Option FrameId) (st : State) : Grows own st st :=
  ⟨fun _ _ h => h, .refl own st.store⟩

lemma trans (h : Grows own st st₁) (h' : Grows own st₁ st₂) : Grows own st st₂ :=
  ⟨fun m d hd => h'.decorations m d (h.decorations m d hd), h.store.trans h'.store⟩

lemma weaken (h : Grows none st st₁) (own : Option FrameId) : Grows own st st₁ :=
  ⟨h.decorations, h.store.weaken own⟩

lemma le (h : Grows own st st₁) : st.Le st₁ where
  decorations := h.decorations
  outline := h.store.outline
  functions i := by rw [h.store.functions i]

end Grows

end State

/-! ### Steps -/

lemma not_gives_fail {cause : Cause} {a : α} : ¬ Gives (fail site cause) st a st₁ :=
  not_gives_throw

lemma not_gives_tooDeep {a : α} : ¬ Gives tooDeep st a st₁ :=
  not_gives_throw

lemma gives_resolve {r : Except NameError α} {a : α} (h : Gives (resolve site r) st a st₁) :
    r = .ok a ∧ st₁ = st := by
  have h := gives_resolving.1 h
  cases r with
  | ok b =>
    obtain ⟨rfl, rfl⟩ := gives_pure.1 h
    exact ⟨rfl, rfl⟩
  | error e => exact absurd h not_gives_throw

lemma gives_consult {find : Store → Except NameError α} {a : α}
    (h : Gives (consult find) st a st₁) : find st.store = .ok a ∧ st₁ = st := by
  unfold Gives at h
  rw [outcome_consult] at h
  cases hfind : find st.store with
  | ok b =>
    rw [hfind] at h
    cases h
    exact ⟨rfl, rfl⟩
  | error e =>
    rw [hfind] at h
    cases h

lemma gives_lookup {find : Store → Except NameError α} {a : α}
    (h : Gives (lookup site find) st a st₁) : find st.store = .ok a ∧ st₁ = st :=
  gives_consult (gives_resolving.1 h)

lemma gives_require {target source : Ty} {u : Unit}
    (h : Gives (require site target source) st u st₁) :
    target.accepts source = true ∧ st₁ = st := by
  unfold require at h
  split at h
  · rename_i hacc
    exact ⟨hacc, (gives_pure.1 h).2⟩
  · exact absurd h not_gives_fail

/-- The type of a variable is the one that is named, or else that of the value, which has to fit it
either way. -/
lemma gives_declaredType {name : String} {typeName : Option String} {found : Option (Site × Ty)}
    (h : Gives (declaredType site name typeName found) st t st₁) :
    st₁ = st ∧ (∀ p ∈ found, t.accepts p.2 = true) ∧
      typeName.elim (∃ p ∈ found, p.2 = t) fun declared => Ty.ofName declared = .ok t := by
  -- With a value and without a name of a type, the value's type is checked against itself.
  cases found with
  | none =>
    cases typeName with
    | none =>
      obtain ⟨_, _, hfail, _⟩ := gives_bind.1 h
      exact absurd hfail not_gives_fail
    | some declared =>
      obtain ⟨t', st', hresolve, hp⟩ := gives_bind.1 h
      obtain ⟨hname, rfl⟩ := gives_resolve hresolve
      obtain ⟨rfl, rfl⟩ := gives_pure.1 hp
      exact ⟨rfl, by simp, hname⟩
  | some p =>
    obtain ⟨valueSite, s⟩ := p
    cases typeName with
    | none =>
      obtain ⟨t', st', ht, hrest⟩ := gives_bind.1 h
      obtain ⟨rfl, rfl⟩ := gives_pure.1 ht
      obtain ⟨_, st'', hrequire, hp⟩ := gives_bind.1 hrest
      obtain ⟨-, rfl⟩ := gives_require hrequire
      obtain ⟨rfl, rfl⟩ := gives_pure.1 hp
      exact ⟨rfl, by simp, ⟨_, rfl, rfl⟩⟩
    | some declared =>
      obtain ⟨t', st', hresolve, hrest⟩ := gives_bind.1 h
      obtain ⟨hname, rfl⟩ := gives_resolve hresolve
      obtain ⟨_, st'', hrequire, hp⟩ := gives_bind.1 hrest
      obtain ⟨hacc, rfl⟩ := gives_require hrequire
      obtain ⟨rfl, rfl⟩ := gives_pure.1 hp
      exact ⟨rfl, by simpa using hacc, hname⟩

/-- A decorated node keeps its decoration, and the store is not touched. -/
lemma gives_decorate {m : Mark} {kind : Node.Kind} {d : Decoration} {u : Unit}
    (h : Gives (decorate m kind d) st u st₁) :
    st₁.store = st.store ∧ st₁.decorations.get? m = some d ∧
      ∀ m' d', st.decorations.get? m' = some d' → st₁.decorations.get? m' = some d' := by
  unfold decorate at h
  obtain ⟨st', u', hget, hmatch⟩ := gives_bind.1 h
  obtain ⟨rfl, rfl⟩ := gives_get.1 hget
  split at hmatch
  · exact absurd hmatch not_gives_throw
  · rename_i hnone
    obtain rfl := gives_set.1 hmatch
    refine ⟨rfl, ?_, ?_⟩
    · unfold Decorations.get?
      simp
    · intro m' d' hd
      unfold Decorations.get? at hnone hd ⊢
      rw [Std.TreeMap.getElem?_insert, if_neg]
      · exact hd
      · intro heq
        rw [← Std.LawfulEqCmp.eq_of_compare heq, hnone] at hd
        cases hd

lemma grows_decorate {m : Mark} {kind : Node.Kind} {d : Decoration} {u : Unit}
    (h : Gives (decorate m kind d) st u st₁) : st.Grows none st₁ := by
  obtain ⟨hstore, _, hkeep⟩ := gives_decorate h
  refine ⟨hkeep, ?_⟩
  rw [hstore]
  exact .refl _ _

lemma gives_enter {scope₁ : Scope} (h : Gives (enter scope) st scope₁ st₁) :
    scope₁ = (st.store.enter (some scope)).1 ∧
      st₁ = { st with store := (st.store.enter (some scope)).2 } := by
  have heq := gives_modifyGet.1 h
  cases heq
  exact ⟨rfl, rfl⟩

/-- A variable is added where the frame has none of its name. -/
lemma gives_addVariable {v : Variable} {u : Unit} (h : Gives (addVariable site scope v) st u st₁) :
    (st.store.frame scope.frame).getVariable? v.name = none ∧
      st₁ = { st with store := st.store.addVariable scope v } := by
  have h := gives_resolving.1 h
  unfold Gives at h
  rw [outcome_newVariable] at h
  cases hnone : st.store.variableConflict? scope v.name with
  | some e =>
    rw [hnone] at h
    cases h
  | none =>
    rw [hnone] at h
    cases h
    unfold Store.variableConflict? at hnone
    exact ⟨Option.map_eq_none_iff.1 hnone, rfl⟩

/-- A function is added where the frame has none of its name and arity. -/
lemma gives_addFunction {g : Function} {u : Unit} (h : Gives (addFunction site scope g) st u st₁) :
    (st.store.frame scope.frame).getFunction? g.name g.arity = none ∧
      st₁ = { st with store := st.store.addFunction scope g } := by
  have h := gives_resolving.1 h
  unfold Gives at h
  rw [outcome_newFunction] at h
  cases hnone : st.store.functionConflict? scope g.name g.arity with
  | some e =>
    rw [hnone] at h
    cases h
  | none =>
    rw [hnone] at h
    cases h
    unfold Store.functionConflict? at hnone
    exact ⟨Option.map_eq_none_iff.1 hnone, rfl⟩

/-! ### Scopes -/

/-- A scope finds the variables that the bindings name and, in the outermost frame, the functions
that are known. None of them has a type of a host. -/
structure Scoped (known : List Function) (bs : List Binding) (scope : Scope) (st : State) :
    Prop where
  size : ∀ i ∈ scope.chain, i < st.store.frames.size
  functions : (st.store.frame 0).functions = known
  others : ∀ i, i ≠ 0 → (st.store.frame i).functions = []
  plain : ∀ g ∈ known, g.returns.members? = none
  finds : ∀ name ref v, st.store.findVariable? scope name = some (ref, v) →
    v.type.members? = none ∧
      ∃ origin, bs.lookup name = some origin ∧ st.cell? origin = some (v.type, v.constant)

/-- A scope whose own frame has at least the variables that the bindings of its block name. -/
structure InBlock (known : List Function) (outer block : List Binding) (scope : Scope)
    (st : State) : Prop extends Scoped known (block ++ outer) scope st where
  defined : ∀ name ∈ block.map Prod.fst,
    ((st.store.frame scope.frame).getVariable? name).isSome = true

/-- A scope stays as it is while other frames grow. -/
lemma Scoped.grows (h : Scoped known bs scope st) (hg : st.Grows own st₁)
    (hown : ∀ i ∈ scope.chain, own ≠ some i) : Scoped known bs scope st₁ where
  size i hi := Nat.lt_of_lt_of_le (h.size i hi) hg.store.size
  functions := by rw [hg.store.functions, h.functions]
  others i hi := by rw [hg.store.functions, h.others i hi]
  plain := h.plain
  finds name ref v hv := by
    obtain ⟨w, hw, hlike⟩ := hg.store.of_findVariable? h.size hown hv
    obtain ⟨hplain, origin, ho, hc⟩ := h.finds name ref w hw
    rw [hlike.1, hlike.2] at *
    exact ⟨hplain, origin, ho, hg.le.cell? hc⟩

lemma InBlock.grows (h : InBlock known outer block scope st) (hg : st.Grows own st₁)
    (hown : ∀ i ∈ scope.chain, own ≠ some i) : InBlock known outer block scope st₁ where
  toScoped := h.toScoped.grows hg hown
  defined name hname := by
    obtain ⟨v, hv⟩ := Option.isSome_iff_exists.1 (h.defined name hname)
    obtain ⟨w, hw, _⟩ := Frame.getVariable?_of_prefix (hg.store.outline scope.frame) hv
    rw [hw]
    rfl

/-! ### Expressions -/

variable {valid : String → Prop} {data : Value → Prop}

/-- An analysed expression has the type, whatever is added to the state later. -/
structure Analysed (known : List Function) (bs : List Binding) (n : Node) (t : Ty)
    (st st₁ : State) : Prop where
  grows : st.Grows none st₁
  plain : t.members? = none
  typed : ∀ root final, st₁.Le final → root.Below n → Typing.HasType root final known bs n t

lemma literalType?_plain {sort : String} (h : literalType? sort = some t) : t.members? = none := by
  unfold literalType? at h
  split at h <;> cases h <;> rfl

lemma sumType?_plain {l r : Ty} (hl : l.members? = none) (h : sumType? l r = some t) :
    t.members? = none := by
  unfold sumType? at h
  split at h
  · cases h
    rfl
  · split at h
    · cases h
      exact hl
    · cases h

/-- An operation on types without members has such a type. -/
lemma operationType_plain {operator : String} {l r : Ty} (hl : l.members? = none)
    (h : operationType operator l r = .ok t) : t.members? = none := by
  unfold operationType at h
  split at h
  · split at h <;> cases h
    rfl
  split at h
  · split at h <;> cases h
    rfl
  split at h
  · split at h
    · rename_i hsum
      cases h
      exact sumType?_plain hl hsum
    · cases h
  split at h
  · split at h <;> cases h
    exact hl
  · cases h

/-- Arguments that pass the check fit the parameters one by one. -/
lemma gives_requireArguments {ps ts : List Ty} {es : List Node} {u : Unit}
    (h : Gives (requireArguments ps (es.zip ts)) st u st₁) (hps : ps.length = es.length)
    (hts : ts.length = es.length) :
    List.Forall₂ (fun p t => Ty.accepts p t = true) ps ts ∧ st₁ = st := by
  induction es generalizing ps ts st with
  | nil =>
    rw [List.length_nil, List.length_eq_zero_iff] at hps hts
    subst hps hts
    exact ⟨.nil, (gives_pure.1 h).2⟩
  | cons e es ih =>
    obtain ⟨p, ps, rfl⟩ := List.exists_cons_of_length_eq_add_one hps
    obtain ⟨t, ts, rfl⟩ := List.exists_cons_of_length_eq_add_one hts
    simp only [List.length_cons, Nat.add_right_cancel_iff] at hps hts
    rw [List.zip_cons_cons, requireArguments] at h
    obtain ⟨_, st', hr, hrest⟩ := gives_bind.1 h
    obtain ⟨hacc, rfl⟩ := gives_require hr
    obtain ⟨hall, rfl⟩ := ih hrest hps hts
    exact ⟨.cons hacc hall, rfl⟩

variable (valid data) in
/-- Expressions that are analysed within the depth have their types. -/
def ExpressionsTyped (depth : Nat) : Prop :=
  ∀ {known : List Function} {bs : List Binding} {scope : Scope} {n : Node} {t : Ty}
    {st st₁ : State}, n.IsExpression valid data → Scoped known bs scope st →
    Gives (expression scope n depth) st t st₁ → Analysed known bs n t st st₁

/-- A scope finds only functions that are known. -/
lemma Scoped.named? (h : Scoped known bs scope st) {name : String} {arity : Nat}
    {ref : FunctionRef} {g : Function}
    (hg : st.store.findFunction? scope name arity = some (ref, g)) :
    named? known name arity = some g := by
  have heq := Store.findFunction?_eq h.others scope name arity
  rw [hg, Option.map_some] at heq
  split at heq
  · rw [← h.functions]
    exact heq.symm
  · cases heq

lemma arguments_typed {depth : Nat} (ih : ExpressionsTyped valid data depth) {es : List Node}
    {ts : List Ty} (hes : ∀ e ∈ es, e.IsExpression valid data) (hs : Scoped known bs scope st)
    (h : Gives (es.mapM fun e => expression scope e depth) st ts st₁) :
    st.Grows none st₁ ∧ ts.length = es.length ∧
      ∀ root final, st₁.Le final → (∀ e ∈ es, root.Below e) →
        List.Forall₂ (Typing.HasType root final known bs) es ts := by
  induction es generalizing st ts with
  | nil =>
    obtain ⟨rfl, rfl⟩ := gives_pure.1 h
    exact ⟨.refl _ _, rfl, fun _ _ _ _ => .nil⟩
  | cons e es ihes =>
    rw [List.mapM_cons] at h
    obtain ⟨t, st', he, h⟩ := gives_bind.1 h
    obtain ⟨ts', st'', hrest, h⟩ := gives_bind.1 h
    obtain ⟨rfl, rfl⟩ := gives_pure.1 h
    have hfirst := ih (hes e (List.mem_cons_self ..)) hs he
    obtain ⟨hgrows, hlength, htyped⟩ :=
      ihes (fun e' he' => hes e' (List.mem_cons_of_mem _ he'))
        (hs.grows hfirst.grows (by simp)) hrest
    refine ⟨hfirst.grows.trans hgrows, by simp [hlength], ?_⟩
    intro root final hle hbelow
    refine .cons ?_ ?_
    · exact hfirst.typed root final (hgrows.le.trans hle) (hbelow e (List.mem_cons_self ..))
    · exact htyped root final hle fun e' he' => hbelow e' (List.mem_cons_of_mem _ he')

lemma operation_typed {depth : Nat} (ih : ∀ d < depth, ExpressionsTyped valid data d) {m : Mark}
    {operator : String} {left right : Node} (hl : left.IsExpression valid data)
    (hr : right.IsExpression valid data) (hs : Scoped known bs scope st)
    (h : Gives (operation scope m operator left right depth) st t st₁) :
    Analysed known bs (.binary m operator left right) t st st₁ := by
  cases depth with
  | zero =>
    rw [operation] at h
    exact absurd h not_gives_tooDeep
  | succ depth =>
    rw [operation] at h
    obtain ⟨l, st', hleft, h⟩ := gives_bind.1 h
    obtain ⟨r, st'', hright, h⟩ := gives_bind.1 h
    have hl := ih depth (Nat.lt_succ_self _) hl hs hleft
    have hr := ih depth (Nat.lt_succ_self _) hr (hs.grows hl.grows (by simp)) hright
    split at h
    · exact absurd h not_gives_fail
    · rename_i t' ht
      obtain ⟨_, st₃, hd, h⟩ := gives_bind.1 h
      obtain ⟨rfl, rfl⟩ := gives_pure.1 h
      have hnode := grows_decorate hd
      refine ⟨(hl.grows.trans hr.grows).trans hnode, operationType_plain hl.plain ht, ?_⟩
      intro root final hle hbelow
      refine .binary ?_ ?_ ht ⟨hbelow, State.typeOf?_of_type hle (gives_decorate hd).2.1⟩
      · exact hl.typed root final ((hr.grows.trans hnode).le.trans hle)
          (.child hbelow (by simp [Node.children]))
      · exact hr.typed root final (hnode.le.trans hle) (.child hbelow (by simp [Node.children]))

/-- A name is decorated with the variable that the scope finds. -/
lemma gives_access {depth : Nat} {m : Mark} {name : String}
    (h : Gives (access scope m .absent name depth) st t st₁) :
    ∃ ref v, st.store.findVariable? scope name = some (ref, v) ∧ t = v.type ∧
      Gives (decorate m .access (.variable ref)) st () st₁ := by
  cases depth with
  | zero =>
    rw [access] at h
    exact absurd h not_gives_tooDeep
  | succ depth =>
    rw [access, gives_bind] at h
    obtain ⟨⟨ref, v⟩, st', hfind, h⟩ := h
    obtain ⟨hfind, rfl⟩ := gives_lookup hfind
    obtain ⟨_, st₃, hd, hp⟩ := gives_bind.1 h
    obtain ⟨rfl, rfl⟩ := gives_pure.1 hp
    exact ⟨ref, v, Store.findVariable?_of_lookup hfind, rfl, hd⟩

lemma access_typed {depth : Nat} {m : Mark} {name : String} (hs : Scoped known bs scope st)
    (h : Gives (access scope m .absent name depth) st t st₁) :
    Analysed known bs (.access m .absent name) t st st₁ := by
  obtain ⟨ref, v, hfind, rfl, hd⟩ := gives_access h
  obtain ⟨hplain, origin, horigin, hcell⟩ := hs.finds name ref v hfind
  have hgrows := grows_decorate hd
  refine ⟨hgrows, hplain, ?_⟩
  intro root final hle hbelow
  refine .access horigin (hle.cell? (hgrows.le.cell? hcell)) ⟨hbelow, ?_⟩
  obtain ⟨w, hw, hlike⟩ := hgrows.le.getVariable? (Store.getVariable?_of_findVariable? hfind).1
  rw [← hlike.1]
  exact State.typeOf?_of_variable hle (gives_decorate hd).2.1 hw

/-- Nothing can be accessed through an expression, since no type in a program has members. -/
lemma not_gives_access {depth : Nat} (ih : ∀ d < depth, ExpressionsTyped valid data d) {m : Mark}
    {e : Node} {name : String} (he : e.IsExpression valid data) (hs : Scoped known bs scope st) :
    ¬ Gives (access scope m e name depth) st t st₁ := by
  intro h
  cases depth with
  | zero =>
    rw [access] at h
    exact not_gives_tooDeep h
  | succ depth =>
    have hpresent : e ≠ .absent := by
      rintro rfl
      cases he
    rw [access] at h
    · obtain ⟨_, st'', hresolved, _⟩ := gives_bind.1 h
      obtain ⟨t', st', hreceiver, hfind⟩ := gives_bind.1 (gives_resolving.1 hresolved)
      have hplain := (ih depth (Nat.lt_succ_self _) he hs hreceiver).plain
      rw [hplain] at hfind
      cases (gives_consult hfind).1
    · exact hpresent

lemma call_typed {depth : Nat} (ih : ∀ d < depth, ExpressionsTyped valid data d) {m : Mark}
    {name : String} {es : List Node} (hes : ∀ e ∈ es, e.IsExpression valid data)
    (hs : Scoped known bs scope st) (h : Gives (call scope m .absent name es depth) st t st₁) :
    Analysed known bs (.call m .absent name es) t st st₁ := by
  cases depth with
  | zero =>
    rw [call] at h
    exact absurd h not_gives_tooDeep
  | succ depth =>
    rw [call, gives_bind] at h
    obtain ⟨ts, st', harguments, h⟩ := h
    obtain ⟨hgrows, hlength, htyped⟩ :=
      arguments_typed (ih depth (Nat.lt_succ_self _)) hes hs harguments
    have hs' := hs.grows hgrows (by simp)
    dsimp only at h
    rw [gives_bind] at h
    obtain ⟨⟨ref, g⟩, st'', hfind, h⟩ := h
    obtain ⟨hfind, rfl⟩ := gives_lookup hfind
    have hfind := Store.findFunction?_of_lookup hfind
    obtain ⟨hget, harity⟩ := Store.getFunction?_of_findFunction? hfind
    obtain ⟨_, st₃, hd, hrest⟩ := gives_bind.1 h
    obtain ⟨_, st₄, hrequire, hp⟩ := gives_bind.1 hrest
    obtain ⟨hfits, rfl⟩ := gives_requireArguments hrequire harity hlength
    obtain ⟨rfl, rfl⟩ := gives_pure.1 hp
    have hnode := grows_decorate hd
    have hknown := hs'.named? hfind
    refine ⟨hgrows.trans hnode, hs.plain g (List.mem_of_find?_eq_some hknown), ?_⟩
    intro root final hle hbelow
    refine .call ?_ hknown hfits ⟨hbelow, ?_⟩
    · refine htyped root final (hnode.le.trans hle) ?_
      intro e he
      exact .child hbelow (by simp [Node.children, he])
    · exact State.typeOf?_of_function hle (gives_decorate hd).2.1 (hnode.le.getFunction? hget)

/-- Nothing can be called through an expression, since no type in a program has members. -/
lemma not_gives_call {depth : Nat} (ih : ∀ d < depth, ExpressionsTyped valid data d) {m : Mark}
    {e : Node} {name : String} {es : List Node} (he : e.IsExpression valid data)
    (hes : ∀ e ∈ es, e.IsExpression valid data) (hs : Scoped known bs scope st) :
    ¬ Gives (call scope m e name es depth) st t st₁ := by
  intro h
  cases depth with
  | zero =>
    rw [call] at h
    exact not_gives_tooDeep h
  | succ depth =>
    rw [call, gives_bind] at h
    obtain ⟨ts, st', harguments, h⟩ := h
    have hgrows := (arguments_typed (ih depth (Nat.lt_succ_self _)) hes hs harguments).1
    split at h
    · cases he
    · obtain ⟨t', st'', hreceiver, h⟩ := gives_bind.1 h
      obtain ⟨_, st₃, hfind, _⟩ := gives_bind.1 h
      have hplain :=
        (ih depth (Nat.lt_succ_self _) he (hs.grows hgrows (by simp)) hreceiver).plain
      rw [hplain] at hfind
      cases (gives_lookup hfind).1

/-- An analysed expression has its type. -/
theorem expressionsTyped (depth : Nat) : ExpressionsTyped valid data depth := by
  induction depth using Nat.strongRecOn with
  | ind depth ih =>
    intro known bs scope n t st st₁ hn hs h
    cases depth with
    | zero =>
      rw [expression] at h
      exact absurd h not_gives_tooDeep
    | succ depth =>
      have ih' : ∀ d < depth, ExpressionsTyped valid data d :=
        fun d hd => ih d (Nat.lt_succ_of_lt hd)
      cases hn with
      | @literal m v sort hv hdata =>
        rw [expression] at h
        split at h
        · exact absurd h not_gives_fail
        · rename_i t' ht
          obtain ⟨_, st₂, hd, hp⟩ := gives_bind.1 h
          obtain ⟨rfl, rfl⟩ := gives_pure.1 hp
          refine ⟨grows_decorate hd, literalType?_plain ht, ?_⟩
          intro root final hle hbelow
          exact .literal hv ht ⟨hbelow, State.typeOf?_of_type hle (gives_decorate hd).2.1⟩
      | @group m e he =>
        rw [expression, gives_bind] at h
        obtain ⟨t', st₂, hbody, h⟩ := h
        obtain ⟨_, st₃, hd, hp⟩ := gives_bind.1 h
        obtain ⟨rfl, rfl⟩ := gives_pure.1 hp
        have hbody := ih depth (Nat.lt_succ_self _) he hs hbody
        have hnode := grows_decorate hd
        refine ⟨hbody.grows.trans hnode, hbody.plain, ?_⟩
        intro root final hle hbelow
        refine .group ?_ ⟨hbelow, State.typeOf?_of_type hle (gives_decorate hd).2.1⟩
        exact hbody.typed root final (hnode.le.trans hle)
          (.child hbelow (by simp [Node.children]))
      | binary _ hl hr _ _ =>
        rw [expression] at h
        exact operation_typed ih' hl hr hs h
      | name _ =>
        rw [expression] at h
        exact access_typed hs h
      -- No expression here has a type with members, so no member is ever found.
      | access he _ _ =>
        rw [expression] at h
        exact absurd h (not_gives_access ih' he hs)
      | call _ hes =>
        rw [expression] at h
        exact call_typed ih' hes hs h
      | invoke he _ _ hes =>
        rw [expression] at h
        exact absurd h (not_gives_call ih' he hes hs)

end LetDef.Analysis
