import LetDef.Proofs.Binding.Origin

/-!
# Analysis resolves names

Where analysis succeeds, the decorations that it gives lead to what the names mean. Analysis only
adds to its state, so what it decorates lasts to its end, and the scopes that it enters lead where
the bindings say. A variable is made for each origin, and no two origins share one.
-/

namespace LetDef

open Execution (Origin)

namespace Accepted

open Analysis

variable {A : Accepted} {st st₁ st₂ : State} {s s₁ : Store} {scope : Scope} {n : Node}
  {t returns : Ty} {place : Place} {bs : List Binding} {known : List Method} {depth : Nat}
  {own : Option FrameId} {name : String} {mark : Mark} {site : Site} {u : Unit}

/-! ### Scopes -/

/-- The names of the host and the frame of the program. -/
def base (A : Accepted) : Base :=
  ⟨A.store, A.frames, A.statics.frame⟩

/-- The program's frame has `print` and the known methods, all as natives. The other frames are as
they were when analysis began, but for new ones. -/
structure Table (A : Accepted) (known : List Method) (s : Store) : Prop where
  size : A.store.frames.size ≤ s.frames.size
  keys : (s.frame A.statics.frame).functions.map Function.key = Method.keys known
  natives : ∀ g ∈ (s.frame A.statics.frame).functions, ∃ n, g.body = .native n
  functions : ∀ i ≠ A.statics.frame, (s.frame i).functions = (A.store.frame i).functions
  outline : ∀ i < A.store.frames.size, i ≠ A.statics.frame →
    (s.frame i).outline = (A.store.frame i).outline

/-- A scope of analysis leads where the bindings say, with some methods known. -/
structure Reaches (A : Accepted) (known : List Method) (bs : List Binding) (scope : Scope)
    (s : Store) : Prop extends Table A known s where
  finds : Finds A.base A.Stands bs scope.chain s
  own : scope.frame = A.statics.frame ∨ A.store.frames.size ≤ scope.frame

lemma Table.lt_size (h : A.Table known s) : A.statics.frame < s.frames.size :=
  Nat.lt_of_lt_of_le A.opened.size h.size

lemma Table.grows (h : A.Table known s) (hg : s.Grows own s₁)
    (hown : ∀ i < A.store.frames.size, i ≠ A.statics.frame → own ≠ some i) : A.Table known s₁ where
  size := Nat.le_trans h.size hg.size
  keys := by rw [hg.functions, h.keys]
  natives := by
    rw [hg.functions]
    exact h.natives
  functions i hi := by rw [hg.functions, h.functions i hi]
  outline i hi hne := by
    rw [hg.others i (Nat.lt_of_lt_of_le hi h.size) (hown i hi hne), h.outline i hi hne]

namespace Reaches

lemma grows (h : A.Reaches known bs scope s) (hg : s.Grows none s₁) :
    A.Reaches known bs scope s₁ where
  toTable := h.toTable.grows hg (by simp)
  finds := h.finds.grows hg (by simp)
  own := h.own

lemma enter (h : A.Reaches known bs scope s) :
    A.Reaches known bs (s.enter (some scope)).1 (s.enter (some scope)).2 where
  toTable := h.toTable.grows (Store.grows_enter (some scope)) (by simp)
  finds := h.finds.enter (some scope)
  own := .inr h.size

/-- Frames of a program are none of the host's. -/
lemma not_mem_frames (h : A.Reaches known bs scope s) : scope.frame ∉ A.frames := by
  intro hmem
  have hlt := A.lt_statics hmem
  rcases h.own with heq | hle
  · exact Nat.ne_of_lt hlt heq
  · exact Nat.lt_asymm hlt (Nat.lt_of_lt_of_le A.opened.size hle)

lemma add {v : Variable} {origin : Origin} (h : A.Reaches known bs scope s)
    (hnew : (s.frame scope.frame).getVariable? v.name = none)
    (hd : A.Denotes origin ⟨scope.frame, v.name⟩) :
    A.Reaches known ((v.name, origin) :: bs) scope (s.addVariable scope v) where
  toTable := by
    apply h.toTable.grows (Store.grows_addVariable (h.finds.size _ (List.mem_cons_self ..)))
    rintro i hi hne ⟨⟩
    rcases h.own with heq | hle
    · exact hne heq
    · exact Nat.not_lt_of_le hle hi
  finds := h.finds.add hnew ⟨h.not_mem_frames, hd⟩
  own := h.own

lemma variableLeads {ref : VariableRef} {v : Variable} (h : A.Reaches place.known bs scope s)
    (hfind : s.findVariable? scope name = some (ref, v))
    (hd : A.final.decorations.get? mark = some (.variable ref)) :
    A.VariableLeads (.within place bs) mark name := by
  have href := Store.variableRef?_of_find hfind
  refine ⟨ref, hd, ?_, ?_⟩
  · intro origin ho
    obtain ⟨ref', href', hs⟩ := h.finds.bound name origin ho
    rw [href] at href'
    cases href'
    exact hs
  · intro hnone
    rw [h.finds.free name hnone] at href
    exact href

lemma callLeads {ref : FunctionRef} {g : Function} {arity : Nat}
    (h : A.Reaches place.known bs scope s) (hb : place.Holds A.program n)
    (hfind : s.findFunction? scope name arity = some (ref, g))
    (hd : A.final.decorations.get? mark = some (.function ref)) :
    A.CallLeads (.within place bs) n mark name arity := by
  have hchain : s.functionIn? (A.statics.frame :: A.frames) name arity = some (ref, g) :=
    (h.finds.functions name arity).symm.trans hfind
  rw [Store.functionIn?_cons] at hchain
  -- The program's frame comes first in the chain: it answers for the known methods, and a key that
  -- is none of theirs is passed on to the host's frames.
  refine ⟨hb, ref, hd, ?_, ?_⟩
  · intro hkey
    rw [← h.keys] at hkey
    cases hhome : (s.frame A.statics.frame).getFunction? name arity with
    | none => exact absurd hkey (Frame.getFunction?_eq_none_iff.1 hhome)
    | some g' =>
      rw [hhome] at hchain
      cases hchain
      rfl
  · intro hkey
    rw [← h.keys, ← Frame.getFunction?_eq_none_iff] at hkey
    have hhost : ∀ i ∈ A.frames, (s.frame i).functions = (A.store.frame i).functions :=
      fun i hi => h.functions i (Nat.ne_of_lt (A.lt_statics hi))
    rw [hkey, Store.functionIn?_congr hhost] at hchain
    exact ⟨g, hchain⟩

end Reaches

/-! ### Expressions -/

/-- Analysis of an expression has decorated it with what its names mean. -/
structure Examined (A : Accepted) (scope : Scope) (n : Node) (st st₁ : State) : Prop where
  grows : st.Grows none st₁
  resolves : ∀ place bs, st₁.Le A.final → A.Reaches place.known bs scope st.store →
    place.Holds A.program n → A.Resolves n (.within place bs)

/-- Expressions that are analysed within the depth are resolved. -/
def ExpressionsExamined (A : Accepted) (depth : Nat) : Prop :=
  ∀ {scope : Scope} {n : Node} {t : Ty} {st st₁ : State},
    Gives (expression scope n depth) st t st₁ → A.Examined scope n st st₁

lemma arguments_examined (ih : A.ExpressionsExamined depth) {es : List Node} {ts : List Ty}
    (h : Gives (es.mapM fun e => expression scope e depth) st ts st₁) :
    st.Grows none st₁ ∧ ∀ place bs, st₁.Le A.final → A.Reaches place.known bs scope st.store →
      (∀ e ∈ es, place.Holds A.program e) → Resolves.all A es (.within place bs) := by
  induction es generalizing st ts with
  | nil =>
    obtain ⟨_, rfl⟩ := gives_pure.1 h
    exact ⟨.refl _ _, fun _ _ _ _ _ => trivial⟩
  | cons e es ihes =>
    rw [List.mapM_cons] at h
    obtain ⟨t, st', he, h⟩ := gives_bind.1 h
    obtain ⟨ts', st'', hrest, h⟩ := gives_bind.1 h
    obtain ⟨_, rfl⟩ := gives_pure.1 h
    have hfirst := ih he
    obtain ⟨hgrows, hresolves⟩ := ihes hrest
    refine ⟨hfirst.grows.trans hgrows, ?_⟩
    intro place bs hle hs hbelow
    rw [List.forall_mem_cons] at hbelow
    constructor
    · exact hfirst.resolves place bs (hgrows.le.trans hle) hs hbelow.1
    · exact hresolves place bs hle (hs.grows hfirst.grows.store) hbelow.2

lemma operation_examined (ih : ∀ d < depth, A.ExpressionsExamined d) {operator : String}
    {left right : Node} (h : Gives (operation scope mark operator left right depth) st t st₁) :
    A.Examined scope (.binary mark operator left right) st st₁ := by
  cases depth with
  | zero =>
    rw [operation] at h
    exact absurd h not_gives_tooDeep
  | succ depth =>
    rw [operation] at h
    obtain ⟨l, st', hleft, h⟩ := gives_bind.1 h
    obtain ⟨r, st'', hright, h⟩ := gives_bind.1 h
    split at h
    · exact absurd h not_gives_fail
    · obtain ⟨_, st₃, hd, h⟩ := gives_bind.1 h
      obtain ⟨_, rfl⟩ := gives_pure.1 h
      have hl := ih depth (Nat.lt_succ_self _) hleft
      have hr := ih depth (Nat.lt_succ_self _) hright
      have hnode := grows_decorate hd
      refine ⟨(hl.grows.trans hr.grows).trans hnode, ?_⟩
      intro place bs hle hs hbelow
      constructor
      · exact hl.resolves place bs ((hr.grows.trans hnode).le.trans hle) hs
          (hbelow.child (by simp [Node.children]))
      · exact hr.resolves place bs (hnode.le.trans hle) (hs.grows hl.grows.store)
          (hbelow.child (by simp [Node.children]))

lemma name_examined (h : Gives (access scope mark .absent name depth) st t st₁) :
    A.Examined scope (.access mark .absent name) st st₁ := by
  obtain ⟨ref, v, hfind, _, hd⟩ := gives_access h
  refine ⟨grows_decorate hd, ?_⟩
  intro place bs hle hs _
  refine ⟨fun _ => ?_, trivial⟩
  exact hs.variableLeads hfind (hle.decorations _ _ (gives_decorate hd).2.1)

lemma access_examined (ih : ∀ d < depth, A.ExpressionsExamined d) {receiver : Node}
    (h : Gives (access scope mark receiver name depth) st t st₁) :
    A.Examined scope (.access mark receiver name) st st₁ := by
  by_cases hreceiver : receiver = .absent
  · subst hreceiver
    exact name_examined h
  cases depth with
  | zero =>
    rw [access] at h
    exact absurd h not_gives_tooDeep
  | succ depth =>
    rw [access] at h
    · obtain ⟨⟨ref, v⟩, st'', hresolved, h₁⟩ := gives_bind.1 h
      obtain ⟨t', st', hr, hfind⟩ := gives_bind.1 (gives_resolving.1 hresolved)
      obtain ⟨_, st₃, hd, h₂⟩ := gives_bind.1 h₁
      obtain ⟨_, rfl⟩ := gives_consult hfind
      obtain ⟨_, rfl⟩ := gives_pure.1 h₂
      have hr := ih depth (Nat.lt_succ_self _) hr
      have hnode := grows_decorate hd
      refine ⟨hr.grows.trans hnode, ?_⟩
      intro place bs hle hs hbelow
      refine ⟨fun habsent => absurd habsent hreceiver, ?_⟩
      apply hr.resolves place bs (hnode.le.trans hle) hs
      cases receiver with
      | absent => exact absurd rfl hreceiver
      | _ => exact hbelow.child (by simp [Node.children, Node.isPresent])
    · exact hreceiver

/-- The checks of arguments change nothing. -/
lemma gives_requireReceiver {receiver : Node} {ps : List Ty}
    (h : Gives (requireReceiver receiver t ps) st u st₁) : st₁ = st := by
  cases ps with
  | nil => exact absurd h not_gives_throw
  | cons p ps => exact (gives_require h).2

lemma state_of_requireArguments {ps : List Ty} {es : List (Node × Ty)}
    (h : Gives (requireArguments ps es) st u st₁) : st₁ = st := by
  induction es generalizing ps st with
  | nil =>
    cases ps <;> exact (gives_pure.1 h).2
  | cons e es ih =>
    cases ps with
    | nil => exact (gives_pure.1 h).2
    | cons p ps =>
      obtain ⟨_, st', hr, hrest⟩ := gives_bind.1 h
      obtain ⟨_, rfl⟩ := gives_require hr
      exact ih hrest

lemma call_examined (ih : ∀ d < depth, A.ExpressionsExamined d) {receiver : Node}
    {es : List Node} (h : Gives (call scope mark receiver name es depth) st t st₁) :
    A.Examined scope (.call mark receiver name es) st st₁ := by
  cases depth with
  | zero =>
    rw [call] at h
    exact absurd h not_gives_tooDeep
  | succ depth =>
    rw [call, gives_bind] at h
    obtain ⟨ts, st', harguments, h₁⟩ := h
    obtain ⟨hgrows, hall⟩ := arguments_examined (ih depth (Nat.lt_succ_self _)) harguments
    dsimp only at h₁
    split at h₁
    · obtain ⟨⟨ref, g⟩, st'', hlookup, h₂⟩ := gives_bind.1 h₁
      obtain ⟨_, st₃, hd, h₃⟩ := gives_bind.1 h₂
      obtain ⟨_, st₄, hrequire, h₄⟩ := gives_bind.1 h₃
      obtain ⟨hfind, rfl⟩ := gives_lookup hlookup
      obtain rfl := state_of_requireArguments hrequire
      obtain ⟨_, rfl⟩ := gives_pure.1 h₄
      have hnode := grows_decorate hd
      refine ⟨hgrows.trans hnode, ?_⟩
      intro place bs hle hs hbelow
      refine ⟨fun _ => ?_, trivial, ?_⟩
      · exact (hs.grows hgrows.store).callLeads hbelow
          (Store.findFunction?_of_lookup hfind) (hle.decorations _ _ (gives_decorate hd).2.1)
      · apply hall place bs (hnode.le.trans hle) hs
        intro e he
        exact hbelow.child (by simp [Node.children, he])
    · -- A call on a receiver: the receiver is examined after the arguments, so it meets the store
      -- that they leave.
      rename_i hreceiver
      obtain ⟨t', st'', hr, h₂⟩ := gives_bind.1 h₁
      obtain ⟨⟨ref, g⟩, st₃, hlookup, h₃⟩ := gives_bind.1 h₂
      obtain ⟨_, st₄, hd, h₄⟩ := gives_bind.1 h₃
      obtain ⟨_, st₅, hfirst, h₅⟩ := gives_bind.1 h₄
      obtain ⟨_, st₆, hrequire, h₆⟩ := gives_bind.1 h₅
      obtain ⟨_, rfl⟩ := gives_lookup hlookup
      obtain rfl := gives_requireReceiver hfirst
      obtain rfl := state_of_requireArguments hrequire
      obtain ⟨_, rfl⟩ := gives_pure.1 h₆
      have hr := ih depth (Nat.lt_succ_self _) hr
      have hnode := grows_decorate hd
      refine ⟨(hgrows.trans hr.grows).trans hnode, ?_⟩
      intro place bs hle hs hbelow
      refine ⟨fun habsent => absurd habsent hreceiver, ?_, ?_⟩
      · apply hr.resolves place bs (hnode.le.trans hle) (hs.grows hgrows.store)
        cases receiver with
        | absent => exact absurd rfl hreceiver
        | _ => exact hbelow.child (by simp [Node.children, Node.isPresent])
      · apply hall place bs ((hr.grows.trans hnode).le.trans hle) hs
        intro e he
        exact hbelow.child (by simp [Node.children, he])

/-- An analysed expression is resolved. -/
theorem expressionsExamined (depth : Nat) : A.ExpressionsExamined depth := by
  induction depth using Nat.strongRecOn with
  | ind depth ih =>
    intro scope n t st st₁ h
    cases depth with
    | zero =>
      rw [expression] at h
      exact absurd h not_gives_tooDeep
    | succ depth =>
      have ih' : ∀ d < depth, A.ExpressionsExamined d := fun d hd => ih d (Nat.lt_succ_of_lt hd)
      rw [expression.eq_def] at h
      -- A literal and a group are decorated in place; the other kinds have a rule, and a lemma, of
      -- their own.
      cases n with
      | literal mark value sort =>
        dsimp only at h
        split at h
        · exact absurd h not_gives_fail
        · obtain ⟨_, st₂, hd, h⟩ := gives_bind.1 h
          obtain ⟨_, rfl⟩ := gives_pure.1 h
          exact ⟨grows_decorate hd, fun _ _ _ _ _ => trivial⟩
      | group mark body =>
        obtain ⟨t', st₂, hbody, h⟩ := gives_bind.1 h
        obtain ⟨_, st₃, hd, h⟩ := gives_bind.1 h
        obtain ⟨_, rfl⟩ := gives_pure.1 h
        have hbody := ih depth (Nat.lt_succ_self _) hbody
        have hnode := grows_decorate hd
        refine ⟨hbody.grows.trans hnode, ?_⟩
        intro place bs hle hs hbelow
        exact hbody.resolves place bs (hnode.le.trans hle) hs
          (hbelow.child (by simp [Node.children]))
      | binary => exact operation_examined ih' h
      | access => exact access_examined ih' h
      | call => exact call_examined ih' h
      | _ => exact absurd h not_gives_fail

/-! ### Simple statements -/

/-- Analysis of a statement has decorated it with what its names mean, the scope leads where the
bindings behind the statement say, and the variables of its declarations are made. -/
structure Passed (A : Accepted) (scope : Scope) (n : Node) (st st₁ : State) : Prop where
  grows : st.Grows (some scope.frame) st₁
  resolves : ∀ place bs, st₁.Le A.final → A.Reaches place.known bs scope st.store →
    place.Holds A.program n →
    A.Resolves n (.within place bs) ∧ A.Reaches place.known (n.binds bs) scope st₁.store ∧
      A.Makes n.origins st st₁

/-- A statement that binds nothing. -/
lemma Passed.same (hn : ∀ bs, n.binds bs = bs) (hg : st.Grows none st₁)
    (hr : ∀ place bs, st₁.Le A.final → A.Reaches place.known bs scope st.store →
      place.Holds A.program n → A.Resolves n (.within place bs) ∧ A.Makes n.origins st st₁) :
    A.Passed scope n st st₁ := by
  refine ⟨hg.weaken _, ?_⟩
  intro place bs hle hs hbelow
  obtain ⟨hresolves, hmakes⟩ := hr place bs hle hs hbelow
  rw [hn bs]
  exact ⟨hresolves, hs.grows hg.store, hmakes⟩

lemma optionalValue_examined {value : Node} {found : Option (Site × Ty)}
    (h : Gives (optionalValue scope value depth) st found st₁) :
    st.Grows none st₁ ∧ ∀ place bs, st₁.Le A.final → A.Reaches place.known bs scope st.store →
      (value.isPresent = true → place.Holds A.program value) →
      A.Resolves value (.within place bs) := by
  unfold optionalValue at h
  by_cases hpresent : value.isPresent = true
  · rw [if_pos hpresent] at h
    obtain ⟨t, st', hvalue, hp⟩ := gives_bind.1 h
    obtain ⟨_, rfl⟩ := gives_pure.1 hp
    have hvalue := A.expressionsExamined depth hvalue
    refine ⟨hvalue.grows, ?_⟩
    intro place bs hle hs hbelow
    exact hvalue.resolves place bs hle hs (hbelow hpresent)
  · rw [if_neg hpresent] at h
    obtain ⟨_, rfl⟩ := gives_pure.1 h
    refine ⟨.refl _ _, ?_⟩
    intro place bs _ _ _
    cases value with
    | absent => trivial
    | _ => exact absurd rfl hpresent

lemma known_addVariable {v : Variable} (hsize : scope.frame < s.frames.size)
    (hnew : (s.frame scope.frame).getVariable? v.name = none) :
    (s.addVariable scope v).getVariable? ⟨scope.frame, v.name⟩ ≠ none := by
  unfold Store.getVariable?
  rw [Store.getVariable?_addVariable_self hsize hnew]
  simp

/-- A variable that is defined and noted is the one of its declaration. -/
lemma define_passed {kind : Node.Kind} {constant : Bool} (hmark : n.mark = mark) (hk : n.Defines)
    (hsize : scope.frame < st.store.frames.size)
    (h : Gives (do
      defineVariable site scope name t constant
      decorate mark kind (.variable ⟨scope.frame, name⟩)) st u st₁) :
    st.Grows (some scope.frame) st₁ ∧ ∀ known bs, st₁.Le A.final →
      A.Reaches known bs scope st.store → A.program.toNode.Below n →
      A.Reaches known ((name, .declaration mark) :: bs) scope st₁.store ∧
        A.Makes [.declaration mark] st st₁ := by
  obtain ⟨_, st', hadd, hdecorate⟩ := gives_bind.1 h
  obtain ⟨hnew, rfl⟩ := gives_addVariable hadd
  obtain ⟨hstore, hget, hkeep⟩ := gives_decorate hdecorate
  constructor
  · refine ⟨hkeep, ?_⟩
    rw [hstore]
    exact Store.grows_addVariable hsize
  · intro known bs hle hs hbelow
    subst hmark
    -- The decoration is what makes the new variable the one of this node, so it is needed in the
    -- final state.
    have hdenotes : A.Denotes (.declaration n.mark) ⟨scope.frame, name⟩ :=
      .declaration hbelow hk (hle.decorations _ _ hget)
    constructor
    · rw [hstore]
      exact hs.add hnew hdenotes
    · refine makes_one hdenotes hnew ?_
      rw [hstore]
      exact known_addVariable hsize hnew

lemma declare_passed {typeName : Option String} {value : Node}
    (hsize : scope.frame < st.store.frames.size)
    (h : Gives (declare scope mark name typeName value depth) st u st₁) :
    A.Passed scope (.declare mark name typeName value) st st₁ := by
  cases depth with
  | zero =>
    rw [declare] at h
    exact absurd h not_gives_tooDeep
  | succ depth =>
    rw [declare] at h
    obtain ⟨found, st', hvalue, h₁⟩ := gives_bind.1 h
    obtain ⟨t, st'', htype, h₂⟩ := gives_bind.1 h₁
    obtain ⟨rfl, -⟩ := gives_declaredType htype
    obtain ⟨hgrows, hresolves⟩ := A.optionalValue_examined hvalue
    obtain ⟨hgrows', hreaches⟩ := A.define_passed (n := .declare mark name typeName value) rfl
      (.inr rfl) (Nat.lt_of_lt_of_le hsize hgrows.store.size) h₂
    refine ⟨(hgrows.weaken _).trans hgrows', ?_⟩
    intro place bs hle hs hbelow
    obtain ⟨hs', hmakes⟩ :=
      hreaches place.known bs hle (hs.grows hgrows.store) hbelow.program_below
    refine ⟨?_, hs', hmakes.after hgrows.le hgrows'.le⟩
    apply hresolves place bs (hgrows'.le.trans hle) hs
    intro hpresent
    exact hbelow.child (by simp [Node.children, hpresent])

lemma assign_passed {receiver value : Node}
    (h : Gives (assign scope mark receiver value depth) st u st₁) :
    A.Passed scope (.assign mark receiver value) st st₁ := by
  cases depth with
  | zero =>
    rw [assign] at h
    exact absurd h not_gives_tooDeep
  | succ depth =>
    rw [assign] at h
    obtain ⟨tr, st', hreceiver, h₁⟩ := gives_bind.1 h
    obtain ⟨tv, st'', hvalue, h₂⟩ := gives_bind.1 h₁
    obtain ⟨found, st₃, hfound, h₃⟩ := gives_bind.1 h₂
    obtain ⟨rfl, _⟩ := gives_accessed? hfound
    have hend : st₁ = st₃ := by
      cases found with
      | none => exact absurd h₃ not_gives_fail
      | some v =>
        obtain ⟨st₄, hconstant, hrequire⟩ := gives_ite_bind.1 h₃
        obtain ⟨_, rfl⟩ := gives_require hrequire
        split at hconstant
        · exact absurd hconstant not_gives_fail
        · exact (gives_pure.1 hconstant).2
    subst hend
    have hr := A.expressionsExamined depth hreceiver
    have hv := A.expressionsExamined depth hvalue
    refine .same (fun _ => rfl) (hr.grows.trans hv.grows) ?_
    intro place bs hle hs hbelow
    refine ⟨⟨?_, ?_⟩, makes_nil⟩
    · exact hr.resolves place bs (hv.grows.le.trans hle) hs
        (hbelow.child (by simp [Node.children]))
    · exact hv.resolves place bs hle (hs.grows hr.grows.store)
        (hbelow.child (by simp [Node.children]))

lemma condition_examined {c : Node} (h : Gives (condition scope c depth) st u st₁) :
    A.Examined scope c st st₁ := by
  cases depth with
  | zero =>
    rw [condition] at h
    exact absurd h not_gives_tooDeep
  | succ depth =>
    rw [condition] at h
    obtain ⟨t, st', hexpression, h₁⟩ := gives_bind.1 h
    split at h₁
    · obtain ⟨_, rfl⟩ := gives_pure.1 h₁
      exact A.expressionsExamined depth hexpression
    · exact absurd h₁ not_gives_fail

lemma perform_passed {e : Node} (h : Gives (perform scope mark e depth) st u st₁) :
    A.Passed scope (.perform mark e) st st₁ := by
  cases depth with
  | zero =>
    rw [perform] at h
    exact absurd h not_gives_tooDeep
  | succ depth =>
    rw [perform.eq_def] at h
    obtain ⟨t, st', hexpression, h₁⟩ := gives_bind.1 h
    split at h₁
    · obtain ⟨_, rfl⟩ := gives_pure.1 h₁
      have he := A.expressionsExamined depth hexpression
      refine .same (fun _ => rfl) he.grows ?_
      intro place bs hle hs hbelow
      exact ⟨he.resolves place bs hle hs (hbelow.child (by simp [Node.children])), makes_nil⟩
    · exact absurd h₁ not_gives_fail

/-! ### Blocks and loops -/

/-- Statements that are analysed within the depth are resolved. -/
def StatementsPassed (A : Accepted) (depth : Nat) : Prop :=
  ∀ {scope : Scope} {returns : Ty} {n : Node} {st st₁ : State} {u : Unit},
    n.IsStatement (fun _ => True) Grammar.anyData → scope.frame < st.store.frames.size →
    Gives (statement scope returns n depth) st u st₁ → A.Passed scope n st st₁

lemma statements_passed (ih : A.StatementsPassed depth) {ns : List Node}
    (hns : ∀ n ∈ ns, n.IsStatement (fun _ => True) Grammar.anyData)
    (hsize : scope.frame < st.store.frames.size)
    (h : Gives (ns.forM fun n => statement scope returns n depth) st u st₁) :
    st.Grows (some scope.frame) st₁ ∧ ∀ place bs, st₁.Le A.final →
      A.Reaches place.known bs scope st.store → (∀ n ∈ ns, place.Holds A.program n) →
      Resolves.block A ns (.within place bs) ∧ A.Makes (Node.origins.all ns) st st₁ := by
  induction ns generalizing st with
  | nil =>
    obtain ⟨_, rfl⟩ := gives_pure.1 h
    exact ⟨.refl _ _, fun _ _ _ _ _ => ⟨trivial, makes_nil⟩⟩
  | cons n ns ihns =>
    obtain ⟨_, st', hn, hrest⟩ := gives_bind.1 h
    rw [List.forall_mem_cons] at hns
    have hfirst := ih hns.1 hsize hn
    obtain ⟨hgrows, hresolves⟩ :=
      ihns hns.2 (Nat.lt_of_lt_of_le hsize hfirst.grows.store.size) hrest
    refine ⟨hfirst.grows.trans hgrows, ?_⟩
    intro place bs hle hs hbelow
    rw [List.forall_mem_cons] at hbelow
    -- The rest of the block is read under the bindings that the first statement leaves.
    obtain ⟨hn', hs', hmakes⟩ := hfirst.resolves place bs (hgrows.le.trans hle) hs hbelow.1
    obtain ⟨hns', hmakes'⟩ := hresolves place _ hle hs' hbelow.2
    exact ⟨⟨hn', hns'⟩, hmakes.append hmakes' hfirst.grows.le hgrows.le⟩

/-- Statements in a scope of their own. -/
lemma block_passed (ih : ∀ d < depth, A.StatementsPassed d) {body : List Node}
    (hbody : ∀ n ∈ body, n.IsStatement (fun _ => True) Grammar.anyData)
    (h : Gives (do block (← enter scope) returns body depth) st u st₁) :
    st.Grows none st₁ ∧ ∀ place bs, st₁.Le A.final → A.Reaches place.known bs scope st.store →
      (∀ n ∈ body, place.Holds A.program n) →
      Resolves.block A body (.within place bs) ∧ A.Makes (Node.origins.all body) st st₁ := by
  obtain ⟨scope₁, st', henter, h₁⟩ := gives_bind.1 h
  obtain ⟨rfl, rfl⟩ := gives_enter henter
  cases depth with
  | zero =>
    rw [block] at h₁
    exact absurd h₁ not_gives_tooDeep
  | succ depth =>
    rw [block] at h₁
    obtain ⟨hgrows, hresolves⟩ := statements_passed (ih depth (Nat.lt_succ_self _)) hbody
      (by simp [Store.enter]) h₁
    refine ⟨hgrows.of_enter, ?_⟩
    intro place bs hle hs hbelow
    obtain ⟨hbody', hmakes⟩ := hresolves place bs hle hs.enter hbelow
    exact ⟨hbody', hmakes.after (State.grows_enter st scope).le hgrows.le⟩

lemma branch_passed (ih : ∀ d < depth, A.StatementsPassed d) {c : Node} {body other : List Node}
    (hbody : ∀ n ∈ body, n.IsStatement (fun _ => True) Grammar.anyData)
    (hother : ∀ n ∈ other, n.IsStatement (fun _ => True) Grammar.anyData)
    (h : Gives (branch scope returns mark c body other depth) st u st₁) :
    A.Passed scope (.branch mark c body other) st st₁ := by
  cases depth with
  | zero =>
    rw [branch] at h
    exact absurd h not_gives_tooDeep
  | succ depth =>
    have ih' : ∀ d < depth, A.StatementsPassed d := fun d hd => ih d (Nat.lt_succ_of_lt hd)
    rw [branch] at h
    obtain ⟨_, st', hcond, h₁⟩ := gives_bind.1 h
    obtain ⟨_, st'', hnonempty, h₂⟩ := gives_bind.1 h₁
    obtain rfl := gives_requireBody hnonempty
    obtain ⟨scope₁, st₃, henter, h₃⟩ := gives_bind.1 h₂
    obtain ⟨_, st₄, hblock, h₄⟩ := gives_bind.1 h₃
    have hc := A.condition_examined hcond
    obtain ⟨hgrows, hresolves⟩ :=
      block_passed ih' hbody (gives_bind.2 ⟨scope₁, st₃, henter, hblock⟩)
    have helse : st₄.Grows none st₁ ∧ ∀ place bs, st₁.Le A.final →
        A.Reaches place.known bs scope st₄.store → (∀ n ∈ other, place.Holds A.program n) →
        Resolves.block A other (.within place bs) ∧
          A.Makes (Node.origins.all other) st₄ st₁ := by
      split at h₄
      · exact block_passed ih' hother h₄
      · rename_i hempty
        obtain ⟨_, rfl⟩ := gives_pure.1 h₄
        have hnil : other = [] := by simpa using hempty
        subst hnil
        exact ⟨.refl _ _, fun _ _ _ _ _ => ⟨trivial, makes_nil⟩⟩
    obtain ⟨hgrows', hresolves'⟩ := helse
    -- Neither body binds anything outside, as each has a scope of its own.
    refine .same (fun _ => rfl) ((hc.grows.trans hgrows).trans hgrows') ?_
    intro place bs hle hs hbelow
    have hs' := hs.grows hc.grows.store
    have hc' := hc.resolves place bs ((hgrows.trans hgrows').le.trans hle) hs
      (hbelow.child (by simp [Node.children]))
    obtain ⟨hbody', hmakes⟩ := hresolves place bs (hgrows'.le.trans hle) hs'
      fun n hn => hbelow.child (by simp [Node.children, hn])
    obtain ⟨hother', hmakes'⟩ := hresolves' place bs hle (hs'.grows hgrows.store)
      fun n hn => hbelow.child (by simp [Node.children, hn])
    refine ⟨⟨hc', hbody', hother'⟩, ?_⟩
    exact (hmakes.after hc.grows.le hgrows.le).append hmakes' (hc.grows.trans hgrows).le hgrows'.le

lemma whileLoop_passed (ih : ∀ d < depth, A.StatementsPassed d) {c : Node} {body : List Node}
    (hbody : ∀ n ∈ body, n.IsStatement (fun _ => True) Grammar.anyData)
    (h : Gives (whileLoop scope returns mark c body depth) st u st₁) :
    A.Passed scope (.whileLoop mark c body) st st₁ := by
  cases depth with
  | zero =>
    rw [whileLoop] at h
    exact absurd h not_gives_tooDeep
  | succ depth =>
    rw [whileLoop] at h
    obtain ⟨_, st', hcond, h₁⟩ := gives_bind.1 h
    obtain ⟨_, st'', hnonempty, h₂⟩ := gives_bind.1 h₁
    obtain rfl := gives_requireBody hnonempty
    have hc := A.condition_examined hcond
    obtain ⟨hgrows, hresolves⟩ :=
      block_passed (fun d hd => ih d (Nat.lt_succ_of_lt hd)) hbody h₂
    refine .same (fun _ => rfl) (hc.grows.trans hgrows) ?_
    intro place bs hle hs hbelow
    have hc' := hc.resolves place bs (hgrows.le.trans hle) hs
      (hbelow.child (by simp [Node.children]))
    obtain ⟨hbody', hmakes⟩ := hresolves place bs hle (hs.grows hc.grows.store)
      fun n hn => hbelow.child (by simp [Node.children, hn])
    exact ⟨⟨hc', hbody'⟩, hmakes.after hc.grows.le hgrows.le⟩

/-- A clause of a FOR loop, which may be omitted. -/
lemma clause_passed (ih : A.StatementsPassed depth)
    (hn : n = .absent ∨ n.IsStatement (fun _ => True) Grammar.anyData)
    (hsize : scope.frame < st.store.frames.size)
    (h : Gives (if n.isPresent = true then statement scope returns n depth else pure ()) st u st₁) :
    st.Grows (some scope.frame) st₁ ∧ ∀ place bs, st₁.Le A.final →
      A.Reaches place.known bs scope st.store → (n.isPresent = true → place.Holds A.program n) →
      A.Resolves n (.within place bs) ∧ A.Reaches place.known (n.binds bs) scope st₁.store ∧
        A.Makes n.origins st st₁ := by
  by_cases hpresent : n.isPresent = true
  · rw [if_pos hpresent] at h
    rcases hn with rfl | hn
    · cases hpresent
    · have hpassed := ih hn hsize h
      refine ⟨hpassed.grows, ?_⟩
      intro place bs hle hs hbelow
      exact hpassed.resolves place bs hle hs (hbelow hpresent)
  · rw [if_neg hpresent] at h
    obtain ⟨_, rfl⟩ := gives_pure.1 h
    refine ⟨.refl _ _, ?_⟩
    intro place bs _ hs _
    cases n with
    | absent => exact ⟨trivial, hs, makes_nil⟩
    | _ => exact absurd rfl hpresent

lemma forLoop_passed (ih : ∀ d < depth, A.StatementsPassed d) {first c last : Node}
    {body : List Node} (hf : first = .absent ∨ first.IsStatement (fun _ => True) Grammar.anyData)
    (hl : last.IsIncrement (fun _ => True) Grammar.anyData)
    (hbody : ∀ n ∈ body, n.IsStatement (fun _ => True) Grammar.anyData)
    (h : Gives (forLoop scope returns mark first c last body depth) st u st₁) :
    A.Passed scope (.forLoop mark first c last body) st st₁ := by
  cases depth with
  | zero =>
    rw [forLoop] at h
    exact absurd h not_gives_tooDeep
  | succ depth =>
    rw [forLoop] at h
    obtain ⟨loop, st', henter, h₁⟩ := gives_bind.1 h
    obtain ⟨rfl, rfl⟩ := gives_enter henter
    obtain ⟨st₂, hfirst, h₂⟩ := gives_ite_bind.1 h₁
    obtain ⟨st₃, hmissing, h₃⟩ := gives_ite_bind.1 h₂
    obtain ⟨_, st₄, hcond, h₄⟩ := gives_bind.1 h₃
    obtain ⟨st₅, hlast, h₅⟩ := gives_ite_bind.1 h₄
    obtain ⟨_, st₆, hnonempty, h₆⟩ := gives_bind.1 h₅
    obtain rfl := gives_requireBody hnonempty
    split at hmissing
    · exact absurd hmissing not_gives_fail
    rename_i hpresent
    obtain ⟨_, rfl⟩ := gives_pure.1 hmissing
    -- The last clause is an assignment, so the bindings of the clauses are those of the first.
    have hlast' : last = .absent ∨ last.IsStatement (fun _ => True) Grammar.anyData := by
      cases hl with
      | none => exact .inl rfl
      | some hr _ hv => exact .inr (.assignment (.mk hr hv))
    have hkeeps : ∀ bs, last.binds bs = bs := by
      cases hl <;> exact fun _ => rfl
    have hsize : (st.store.enter (some scope)).1.frame
        < (st.store.enter (some scope)).2.frames.size := by simp [Store.enter]
    obtain ⟨hg₁, hr₁⟩ := clause_passed (ih depth (Nat.lt_succ_self _)) hf hsize hfirst
    have hsize₁ := Nat.lt_of_lt_of_le hsize hg₁.store.size
    have hc := A.condition_examined hcond
    obtain ⟨hg₂, hr₂⟩ := clause_passed (ih depth (Nat.lt_succ_self _)) hlast'
      (Nat.lt_of_lt_of_le hsize₁ hc.grows.store.size) hlast
    obtain ⟨hg₃, hr₃⟩ := block_passed (fun d hd => ih d (Nat.lt_succ_of_lt hd)) hbody h₆
    have hrest := hg₂.trans (hg₃.weaken _)
    have hrest' := (hc.grows.weaken _).trans hrest
    refine .same (fun _ => rfl) (hg₁.trans hrest').of_enter ?_
    intro place bs hle hs hbelow
    -- Analysis takes the increment before the body, so the body is reached through the store that
    -- the increment leaves; the bindings are still those of the first clause.
    obtain ⟨hfirst', hs₁, hm₁⟩ := hr₁ place bs (hrest'.le.trans hle) hs.enter
      fun hp => hbelow.child (by simp [Node.children, hp])
    have hs₂ := hs₁.grows hc.grows.store
    obtain ⟨hincrement, hs₃, hm₂⟩ := hr₂ place _ (hg₃.le.trans hle) hs₂
      fun hp => hbelow.child (by simp [Node.children, hp])
    rw [hkeeps] at hs₃
    obtain ⟨hbody', hm₃⟩ := hr₃ place _ hle hs₃
      fun n hn => hbelow.child (by simp [Node.children, hn])
    refine ⟨⟨hfirst', ?_, hincrement, ?_, hbody'⟩, ?_⟩
    · apply hc.resolves place _ (hrest.le.trans hle) hs₁
      exact hbelow.child (by simp [Node.children, show c.isPresent = true by simpa using hpresent])
    · simp only [Surroundings.after, hkeeps]
    · have hbefore := (hc.grows.weaken _).trans hg₂
      have hclauses := hm₁.append (hm₂.after hc.grows.le hg₂.le) hg₁.le hbefore.le
      exact (hclauses.append hm₃ (hg₁.trans hbefore).le hg₃.le).after
        (State.grows_enter st scope).le (hg₁.trans hrest').le

/-- An analysed statement is resolved. -/
theorem statementsPassed (depth : Nat) : A.StatementsPassed depth := by
  induction depth using Nat.strongRecOn with
  | ind depth ih =>
    intro scope returns n st st₁ u hn hsize h
    cases depth with
    | zero =>
      rw [statement] at h
      exact absurd h not_gives_tooDeep
    | succ depth =>
      have ih' : ∀ d < depth, A.StatementsPassed d := fun d hd => ih d (Nat.lt_succ_of_lt hd)
      cases hn with
      | declaration hd =>
        cases hd with
        | mk _ _ _ =>
          rw [statement] at h
          exact declare_passed hsize h
      | assignment ha =>
        cases ha with
        | mk _ _ =>
          rw [statement] at h
          exact assign_passed h
      | perform _ =>
        rw [statement] at h
        exact perform_passed h
      | branch _ hbody hother =>
        rw [statement] at h
        exact branch_passed ih' hbody hother h
      | forLoop hi _ hl hbody =>
        rw [statement] at h
        refine forLoop_passed ih' ?_ hl hbody h
        rcases hi with hi | hi | hi
        · exact .inl hi
        · exact .inr (.declaration hi)
        · exact .inr (.assignment hi)
      | whileLoop _ hbody =>
        rw [statement] at h
        exact whileLoop_passed ih' hbody h
      | giveBack _ =>
        rw [statement] at h
        obtain ⟨t, st', hvalue, hrequire⟩ := gives_bind.1 h
        obtain ⟨_, rfl⟩ := gives_require hrequire
        have he := A.expressionsExamined depth hvalue
        refine .same (fun _ => rfl) he.grows ?_
        intro place bs hle hs hbelow
        exact ⟨he.resolves place bs hle hs (hbelow.child (by simp [Node.children])), makes_nil⟩

/-! ### Fields -/

lemma field_passed {f : Field} (hsize : scope.frame < st.store.frames.size)
    (h : Gives (field scope f depth) st u st₁) :
    st.Grows (some scope.frame) st₁ ∧ ∀ bs, st₁.Le A.final → f ∈ A.program.fields →
      A.Reaches [] bs scope st.store →
      A.Resolves f.value (.within (.field f) bs) ∧
        A.Reaches [] (f.binding :: bs) scope st₁.store ∧ A.Makes [f.origin] st st₁ := by
  cases depth with
  | zero =>
    rw [field] at h
    exact absurd h not_gives_tooDeep
  | succ depth =>
    rw [field] at h
    obtain ⟨found, st', hvalue, h₁⟩ := gives_bind.1 h
    obtain ⟨st'', hconstant, h₂⟩ := gives_ite_bind.1 h₁
    obtain ⟨t, st₃, htype, h₃⟩ := gives_bind.1 h₂
    split at hconstant
    · exact absurd hconstant not_gives_fail
    obtain ⟨_, rfl⟩ := gives_pure.1 hconstant
    obtain ⟨rfl, -⟩ := gives_declaredType htype
    obtain ⟨hgrows, hresolves⟩ := A.optionalValue_examined hvalue
    obtain ⟨hgrows', hreaches⟩ := A.define_passed (n := f.toNode) rfl (.inl rfl)
      (Nat.lt_of_lt_of_le hsize hgrows.store.size) h₃
    refine ⟨(hgrows.weaken _).trans hgrows', ?_⟩
    intro bs hle hf hs
    have hholds : (Place.field f).Holds A.program f.toNode := ⟨hf, .root⟩
    obtain ⟨hs', hmakes⟩ := hreaches [] bs hle (hs.grows hgrows.store) hholds.program_below
    refine ⟨?_, hs', hmakes.after hgrows.le hgrows'.le⟩
    apply hresolves (.field f) bs (hgrows'.le.trans hle) hs
    intro hpresent
    exact hholds.child (by simp [Field.toNode, Node.children, hpresent])

lemma fields_passed (before : List Field) {fs : List Field}
    (hsize : scope.frame < st.store.frames.size)
    (h : Gives (fs.forM fun f => field scope f depth) st u st₁) :
    st.Grows (some scope.frame) st₁ ∧ (st₁.Le A.final → A.program.fields = before ++ fs →
      A.Reaches [] (Field.bindings before) scope st.store →
      (∀ b f a, fs = b ++ f :: a →
        A.Resolves f.value (.within (.field f) (Field.bindings (before ++ b)))) ∧
      A.Reaches [] (Field.bindings (before ++ fs)) scope st₁.store ∧
      A.Makes (fs.map Field.origin) st st₁) := by
  induction fs generalizing st before with
  | nil =>
    obtain ⟨_, rfl⟩ := gives_pure.1 h
    refine ⟨.refl _ _, fun _ _ hs => ⟨?_, ?_, makes_nil⟩⟩
    · intro b f a hsplit
      simp at hsplit
    · rwa [List.append_nil]
  | cons f fs ih =>
    obtain ⟨_, st', hf, hrest⟩ := gives_bind.1 h
    obtain ⟨hgrows, hfield⟩ := A.field_passed hsize hf
    obtain ⟨hgrows', hfields⟩ :=
      ih (before ++ [f]) (Nat.lt_of_lt_of_le hsize hgrows.store.size) hrest
    refine ⟨hgrows.trans hgrows', ?_⟩
    intro hle hall hs
    obtain ⟨hvalue, hs', hmakes⟩ := hfield _ (hgrows'.le.trans hle) (by simp [hall]) hs
    rw [← Field.bindings_append] at hs'
    obtain ⟨hvalues, hs₁, hmakes'⟩ := hfields hle (by simp [hall]) hs'
    rw [List.append_assoc, List.singleton_append] at hs₁
    refine ⟨?_, hs₁, hmakes.append hmakes' hgrows.le hgrows'.le⟩
    -- A field in the list is the first one or among the others, and sees the fields before it.
    intro b g a hsplit
    cases b with
    | nil =>
      rw [List.nil_append] at hsplit
      obtain ⟨rfl, rfl⟩ := List.cons_eq_cons.mp hsplit
      rwa [List.append_nil]
    | cons f' b =>
      rw [List.cons_append] at hsplit
      obtain ⟨rfl, rfl⟩ := List.cons_eq_cons.mp hsplit
      have hg := hvalues b g a rfl
      rwa [List.append_assoc, List.singleton_append] at hg

/-! ### Methods -/

lemma parameters_passed {before after : List Method} {m : Method} {k : Nat} {names : List String}
    {ts : List Ty} (hm : A.program.methods = before ++ m :: after)
    (hentry : scope.frame = A.entry before)
    (hnames : ∀ i name, names[i]? = some name → m.parameters[k + i]? = some name)
    (hlength : ts.length = names.length) (hsize : scope.frame < st.store.frames.size)
    (h : Gives (defineParameters site scope (names.zip ts)) st u st₁) :
    st.Grows (some scope.frame) st₁ ∧ A.Makes (m.parameterOrigins k names) st st₁ ∧
      ∀ known bs, A.Reaches known bs scope st.store →
        A.Reaches known (m.parameterBindings k names bs) scope st₁.store := by
  induction names generalizing ts st k with
  | nil =>
    obtain ⟨_, rfl⟩ := gives_pure.1 h
    exact ⟨.refl _ _, makes_nil, fun _ _ hs => hs⟩
  | cons name names ih =>
    obtain ⟨t, ts, rfl⟩ := List.exists_cons_of_length_eq_add_one hlength
    rw [List.length_cons, List.length_cons, Nat.add_right_cancel_iff] at hlength
    obtain ⟨_, st', hadd, hrest⟩ := gives_bind.1 h
    obtain ⟨hnew, rfl⟩ := gives_addVariable hadd
    have hgrows : st.Grows (some scope.frame)
        { st with store := st.store.addVariable scope ⟨name, name, t, false, .unset⟩ } :=
      ⟨fun _ _ hd => hd, Store.grows_addVariable hsize⟩
    have hnext : ∀ i name', names[i]? = some name' → m.parameters[k + 1 + i]? = some name' := by
      intro i name' hi
      rw [Nat.add_assoc, Nat.add_comm 1 i]
      exact hnames (i + 1) name' hi
    have hdenotes : A.Denotes (.parameter m.mark k) ⟨scope.frame, name⟩ := by
      rw [hentry]
      exact .parameter hm (hnames 0 name rfl)
    obtain ⟨hgrows', hmakes, hreaches⟩ :=
      ih hnext hlength (Nat.lt_of_lt_of_le hsize hgrows.store.size) hrest
    refine ⟨hgrows.trans hgrows', ?_, ?_⟩
    · have hknown : (st.store.addVariable scope ⟨name, name, t, false, .unset⟩).getVariable?
          ⟨scope.frame, name⟩ ≠ none := known_addVariable hsize hnew
      have hfirst : A.Makes [.parameter m.mark k] st
          { st with store := st.store.addVariable scope ⟨name, name, t, false, .unset⟩ } :=
        makes_one hdenotes hnew hknown
      exact hfirst.append hmakes hgrows.le hgrows'.le
    · intro known bs hs
      exact hreaches known _ (hs.add hnew hdenotes)

/-- A method that is added to the program's frame is known from then on. -/
lemma Reaches.addFunction {m : Method} {g : Function} {native : Native}
    (h : A.Reaches known bs A.statics s) (hkey : g.key = m.key) (hg : g.body = .native native) :
    A.Reaches (known ++ [m]) bs A.statics (s.addFunction A.statics g) := by
  have hself := Store.functions_addFunction_self (g := g) h.lt_size
  have hothers : ∀ i, i ≠ A.statics.frame → (s.addFunction A.statics g).frame i = s.frame i :=
    fun i hi => Store.frame_addFunction_of_ne hi
  refine ⟨⟨?_, ?_, ?_, ?_, ?_⟩, h.finds.addFunction, h.own⟩
  · rw [Store.size_addFunction]
    exact h.size
  · rw [hself, List.map_append, h.keys]
    simp [Method.keys, hkey]
  · rw [hself]
    intro f hf
    rw [List.mem_append, List.mem_singleton] at hf
    rcases hf with hf | rfl
    · exact h.natives f hf
    · exact ⟨native, hg⟩
  · intro i hi
    rw [hothers i hi, h.functions i hi]
  · intro i hi hne
    rw [hothers i hne, h.outline i hi hne]

/-- Analysis of a method has made it known under a key of its own, noted it, resolved its body and
made the variables of its parameters and declarations. -/
structure MethodPassed (A : Accepted) (before : List Method) (m : Method) (after : List Method)
    (st st₁ : State) : Prop where
  body : Resolves.block A m.body (.within (.method before m after) (A.program.bindings m))
  fresh : m.key ∉ Method.keys before
  decorated : A.final.decorations.get? m.mark
    = some (.function ⟨A.statics.frame, m.name, m.parameters.length⟩)
  reaches : A.Reaches (before ++ [m]) (Field.bindings A.program.fields) A.statics st₁.store
  makes : A.Makes m.origins st st₁

lemma method_passed {before after : List Method} {m : Method}
    (hm : A.program.methods = before ++ m :: after)
    (hw : m.WellFormed (fun _ => True) Grammar.anyData)
    (hentry : A.entry before = st.store.frames.size)
    (hsize : A.statics.frame < st.store.frames.size)
    (h : Gives (method A.statics m depth) st u st₁) :
    st.Le st₁ ∧ st.store.frames.size ≤ st₁.store.frames.size ∧ (st₁.Le A.final →
      A.Reaches before (Field.bindings A.program.fields) A.statics st.store →
      A.MethodPassed before m after st st₁) := by
  cases depth with
  | zero =>
    rw [method] at h
    exact absurd h not_gives_tooDeep
  | succ depth =>
    rw [method] at h
    obtain ⟨ts, st', htypes, h₁⟩ := gives_bind.1 h
    obtain ⟨returns, st'', hreturns, h₂⟩ := gives_bind.1 h₁
    obtain ⟨_, st₃, hadd, h₃⟩ := gives_bind.1 h₂
    obtain ⟨_, st₄, hdecorate, h₄⟩ := gives_bind.1 h₃
    obtain ⟨scope, st₅, henter, h₅⟩ := gives_bind.1 h₄
    obtain ⟨_, st₆, hparameters, hbody⟩ := gives_bind.1 h₅
    -- The frame of the parameters is the first one that is opened for the method, which is its
    -- entry.
    obtain ⟨rfl, -, hlength, _⟩ := gives_types htypes
    obtain ⟨rfl, _, _⟩ := gives_returnType hreturns
    obtain ⟨hnew, rfl⟩ := gives_addFunction hadd
    obtain ⟨hstore, hget, _⟩ := gives_decorate hdecorate
    obtain ⟨rfl, rfl⟩ := gives_enter henter
    have hts : ts.length = m.parameters.length := hlength.trans hw.types_length
    have hframe : st₄.store.frames.size = A.entry before := by
      rw [hentry, hstore, Store.size_addFunction]
    obtain ⟨hgrows, hmakes, hreaches⟩ := parameters_passed (k := 0) hm hframe
      (fun i name hi => by rwa [Nat.zero_add]) hts (by simp [Store.enter]) hparameters
    obtain ⟨hgrows', hresolves⟩ := statements_passed (A.statementsPassed depth) hw.body
      (Nat.lt_of_lt_of_le (by simp [Store.enter]) hgrows.store.size) hbody
    have hinner := (hgrows.trans hgrows').of_enter
    have hbefore := (State.le_addFunction hsize).trans (grows_decorate hdecorate).le
    refine ⟨hbefore.trans hinner.le, ?_, ?_⟩
    · rw [← hentry, ← hframe]
      exact hinner.store.size
    intro hle hs
    -- The method is known before its own body is analysed, so that it can call itself.
    have hs₄ : A.Reaches (before ++ [m]) (Field.bindings A.program.fields) A.statics st₄.store := by
      rw [hstore]
      refine hs.addFunction ?_ rfl
      simp [Function.key, Function.arity, Method.key, hts]
    have hholds : (Place.method before m after).Holds A.program m.toNode := ⟨hm, .root⟩
    obtain ⟨hbody', hmakes'⟩ := hresolves (.method before m after) _ hle (hreaches _ _ hs₄.enter)
      fun n hn => hholds.child (by simpa [Method.toNode, Node.children] using hn)
    refine ⟨hbody', ?_, ?_, ?_, ?_⟩
    · rw [Frame.getFunction?_eq_none_iff, hs.keys] at hnew
      simpa [Function.arity, Method.key, hts] using hnew
    · rw [← hts]
      exact hle.decorations _ _ (hinner.decorations _ _ hget)
    · exact hs₄.grows hinner.store
    · exact (hmakes.append hmakes' hgrows.le hgrows'.le).after
        (hbefore.trans (State.grows_enter st₄ A.statics).le) (hgrows.trans hgrows').le

/-- The methods behind some others have passed analysis. -/
structure MethodsPassed (A : Accepted) (before ms : List Method) (st st₁ : State) : Prop where
  bodies : ∀ b m a, ms = b ++ m :: a →
    Resolves.block A m.body (.within (.method (before ++ b) m a) (A.program.bindings m))
  keys : (Method.keys (before ++ ms)).Nodup
  decorated : ∀ m ∈ ms, A.final.decorations.get? m.mark
    = some (.function ⟨A.statics.frame, m.name, m.parameters.length⟩)
  reaches : A.Reaches (before ++ ms) (Field.bindings A.program.fields) A.statics st₁.store
  makes : A.Makes (ms.flatMap Method.origins) st st₁

lemma MethodsPassed.cons {before ms : List Method} {m : Method}
    (h : A.MethodPassed before m ms st st₁) (hs : A.MethodsPassed (before ++ [m]) ms st₁ st₂)
    (hle : st.Le st₁) (hle' : st₁.Le st₂) : A.MethodsPassed before (m :: ms) st st₂ := by
  obtain ⟨hbodies, hkeys, hdecorated, hreaches, hmakes⟩ := hs
  rw [List.append_assoc, List.singleton_append] at hkeys hreaches
  refine ⟨?_, hkeys, List.forall_mem_cons.2 ⟨h.decorated, hdecorated⟩, hreaches,
    h.makes.append hmakes hle hle'⟩
  intro b m' a hsplit
  cases b with
  | nil =>
    rw [List.nil_append] at hsplit
    obtain ⟨rfl, rfl⟩ := List.cons_eq_cons.mp hsplit
    rw [List.append_nil]
    exact h.body
  | cons m'' b =>
    rw [List.cons_append] at hsplit
    obtain ⟨rfl, rfl⟩ := List.cons_eq_cons.mp hsplit
    have hm' := hbodies b m' a rfl
    rwa [List.append_assoc, List.singleton_append] at hm'

lemma keys_append {before : List Method} {m : Method} (h : (Method.keys before).Nodup)
    (hm : m.key ∉ Method.keys before) : (Method.keys (before ++ [m])).Nodup := by
  have heq : Method.keys (before ++ [m]) = Method.keys before ++ [m.key] := by simp [Method.keys]
  rw [heq, ← List.concat_eq_append]
  exact List.Nodup.concat hm h

/-- A step for one more is done after those before. -/
lemma gives_forM_append {α : Type} {f : α → Analyze Unit} {as : List α} {a : α}
    (h : Gives (as.forM f) st () st₁) (ha : Gives (f a) st₁ () st₂) :
    Gives ((as ++ [a]).forM f) st () st₂ := by
  induction as generalizing st with
  | nil =>
    obtain ⟨_, rfl⟩ := gives_pure.1 h
    exact gives_bind.2 ⟨(), st₂, ha, rfl⟩
  | cons b as ih =>
    obtain ⟨_, st', hb, hrest⟩ := gives_bind.1 h
    exact gives_bind.2 ⟨(), st', hb, ih hrest⟩

lemma methods_passed (before : List Method) {ms : List Method}
    (hall : A.program.methods = before ++ ms)
    (hw : ∀ m ∈ ms, m.WellFormed (fun _ => True) Grammar.anyData)
    (hst : Gives (do
      A.program.fields.forM fun f => field A.statics f maxDepth
      before.forM fun m => method A.statics m maxDepth) A.initial () st)
    (hsize : A.statics.frame < st.store.frames.size)
    (h : Gives (ms.forM fun m => method A.statics m maxDepth) st u st₁) :
    st.Le st₁ ∧ (st₁.Le A.final →
      A.Reaches before (Field.bindings A.program.fields) A.statics st.store →
      (Method.keys before).Nodup → A.MethodsPassed before ms st st₁) := by
  induction ms generalizing st before with
  | nil =>
    obtain ⟨_, rfl⟩ := gives_pure.1 h
    refine ⟨.refl _, fun _ hs hkeys => ⟨?_, ?_, ?_, ?_, makes_nil⟩⟩
    · intro b m a hsplit
      simp at hsplit
    · rwa [List.append_nil]
    · simp
    · rwa [List.append_nil]
  | cons m ms ih =>
    obtain ⟨_, st', hm, hrest⟩ := gives_bind.1 h
    rw [List.forall_mem_cons] at hw
    -- The entry of a method is the number of frames that analysis has opened before it.
    have hentry : A.entry before = st.store.frames.size := by
      unfold entry
      rw [hst]
    obtain ⟨hle, hsize', hmethod⟩ := method_passed hall hw.1 hentry hsize hm
    obtain ⟨_, st'', hfields, hbefore⟩ := gives_bind.1 hst
    obtain ⟨hle', hmethods⟩ := ih (before ++ [m]) (by simp [hall]) hw.2
      (gives_bind.2 ⟨(), st'', hfields, gives_forM_append hbefore hm⟩)
      (Nat.lt_of_lt_of_le hsize hsize') hrest
    refine ⟨hle.trans hle', ?_⟩
    intro hfinal hs hkeys
    have hfirst := hmethod (hle'.trans hfinal) hs
    exact .cons hfirst (hmethods hfinal hfirst.reaches (keys_append hkeys hfirst.fresh)) hle hle'

/-! ### Programs -/

variable (A)

lemma reaches_initial : A.Reaches [] [] A.statics A.initial.store := by
  have hframe : A.store.frame A.statics.frame = ⟨[], [Analysis.printFunction]⟩ := A.opened.frame
  refine ⟨⟨Nat.le_refl _, ?_, ?_, fun _ _ => rfl, fun _ _ _ => rfl⟩, ?_, .inl rfl⟩
  · change (A.store.frame _).functions.map _ = _
    rw [hframe]
    rfl
  · intro g hg
    change g ∈ (A.store.frame _).functions at hg
    rw [hframe, List.mem_singleton] at hg
    exact ⟨.nothing, by rw [hg]; rfl⟩
  · refine Finds.globals ?_ ?_ fun _ _ => rfl
    · rw [List.forall_mem_cons]
      exact ⟨A.opened.size, fun i hi => Nat.lt_trans (A.lt_statics hi) A.opened.size⟩
    · exact congrArg Frame.vars hframe

lemma gives_program :
    Gives (Analysis.program maxDepth A.statics A.program) A.initial () A.final := by
  have haccepted : (outcome (analyze maxDepth A.statics A.parsed) A.initial).1 = .ok () :=
    A.accepted
  unfold Gives final program
  rw [outcome_analyze] at haccepted ⊢
  rcases hrun : outcome (Analysis.program maxDepth A.statics A.parsed.numbered) A.initial
    with ⟨halt | u, state⟩
  · rw [hrun] at haccepted
    cases halt <;> cases haccepted
  · rfl

lemma state_of_requireMain (h : Gives (requireMain scope site) st u st₁) : st₁ = st := by
  unfold requireMain at h
  obtain ⟨g, _, hmain, hreturns⟩ := gives_bind.1 h
  obtain ⟨rfl, _⟩ := gives_findMain hmain
  split at hreturns
  · exact (gives_pure.1 hreturns).2
  · exact absurd hreturns not_gives_fail

/-- Analysis has decorated the program with what its names mean and made a variable for each of its
origins. It leaves the frames of others as they were. -/
structure ProgramPassed (A : Accepted) : Prop where
  resolved : A.Resolved
  table : A.Table A.program.methods A.final.store
  makes : A.Makes A.program.origins A.initial A.final

theorem program_passed : A.ProgramPassed := by
  have hw := (Program.wellFormed_of_ofText A.text).numbered
  have hs := A.reaches_initial
  obtain ⟨_, st, hfields, h₁⟩ := gives_bind.1 A.gives_program
  obtain ⟨_, st', hmethods, hmain⟩ := gives_bind.1 h₁
  have hfinal : st' = A.final := (state_of_requireMain hmain).symm
  obtain ⟨hgrows, hfields'⟩ := A.fields_passed [] hs.lt_size hfields
  obtain ⟨hle, hmethods'⟩ := A.methods_passed [] rfl hw.methods
    (gives_bind.2 ⟨(), st, hfields, rfl⟩) (Nat.lt_of_lt_of_le hs.lt_size hgrows.store.size) hmethods
  rw [hfinal] at hle hmethods'
  obtain ⟨hvalues, hs₁, hmakes⟩ := hfields' hle rfl hs
  have hpassed := hmethods' (.refl _) hs₁ (by decide)
  exact ⟨⟨hvalues, hpassed.bodies, hpassed.keys, hpassed.decorated⟩, hpassed.reaches.toTable,
    hmakes.append hpassed.makes hgrows.le hle⟩

/-! ### Variables and origins -/

section

variable {A} {o o' : Origin} {ref ref' : VariableRef}

lemma Denotes.decorated (h : A.Denotes (.declaration mark) ref) :
    A.final.decorations.get? mark = some (.variable ref) := by
  generalize ho : Origin.declaration mark = o at h
  cases h with
  | declaration _ _ hd =>
    cases ho
    exact hd
  | parameter => cases ho

lemma Denotes.entered {i : Nat} (h : A.Denotes (.parameter mark i) ref) :
    ∃ before m after name, A.program.methods = before ++ m :: after ∧ m.mark = mark ∧
      m.parameters[i]? = some name ∧ ref = ⟨A.entry before, name⟩ := by
  generalize ho : Origin.parameter mark i = o at h
  cases h with
  | declaration => cases ho
  | parameter hm hi =>
    cases ho
    exact ⟨_, _, _, _, hm, rfl, hi, rfl⟩

/-- Methods with one mark are one method. -/
lemma eq_of_mark {before before' after after' : List Method} {m m' : Method}
    (hm : A.program.methods = before ++ m :: after)
    (hm' : A.program.methods = before' ++ m' :: after') (hmark : m.mark = m'.mark) :
    before = before' ∧ m = m' := by
  obtain ⟨_, _, hkeys, hdecorated⟩ := A.program_passed.resolved
  have hmem : m ∈ A.program.methods := by simp [hm]
  have hmem' : m' ∈ A.program.methods := by simp [hm']
  have hnodup := (List.nodup_cons.1 hkeys).2
  have hd := hdecorated m hmem
  rw [hmark, hdecorated m' hmem'] at hd
  simp only [Option.some.injEq, Decoration.function.injEq, FunctionRef.mk.injEq, true_and] at hd
  have heq := List.inj_on_of_nodup_map hnodup hmem hmem' (Prod.ext hd.1.symm hd.2.symm)
  subst heq
  have hsplit := List.Nodup.of_map _ hnodup
  rw [hm, List.nodup_middle, List.nodup_cons, List.mem_append, not_or] at hsplit
  rw [hm] at hm'
  exact ⟨((List.append_cons_inj_of_notMem hsplit.1.1 hsplit.1.2).1 hm').1, rfl⟩

/-- An origin has one variable. -/
lemma Denotes.ref_eq (h : A.Denotes o ref) (h' : A.Denotes o ref') : ref = ref' := by
  cases h with
  | declaration _ _ hd =>
    have hd' := h'.decorated
    rw [hd] at hd'
    cases hd'
    rfl
  | parameter hm hi =>
    obtain ⟨before, m, after, name, hm', hmark, hi', rfl⟩ := h'.entered
    obtain ⟨rfl, rfl⟩ := eq_of_mark hm' hm hmark
    rw [hi] at hi'
    cases hi'
    rfl

lemma Denotes.mem_origins (h : A.Denotes o ref) : o ∈ A.program.origins := by
  cases h with
  | declaration hn hk _ =>
    exact (Program.wellFormed_of_ofText A.text).numbered.mem_origins hn hk
  | @parameter _ _ m _ _ hm hi =>
    have hparameter := m.mem_parameterOrigins (k := 0) hi
    rw [Nat.zero_add] at hparameter
    exact List.mem_append_right _
      (List.mem_flatMap.2 ⟨m, by simp [hm], List.mem_append_left _ hparameter⟩)

/-- A variable has one origin. -/
theorem Denotes.origin_eq (h : A.Denotes o ref) (h' : A.Denotes o' ref) : o = o' := by
  obtain ⟨entries, horigins, hmade⟩ := A.program_passed.makes
  have hentry : ∀ {o : Origin}, A.Denotes o ref → (o, ref) ∈ entries := by
    intro o h
    have hmem := h.mem_origins
    rw [← horigins] at hmem
    obtain ⟨e, he, rfl⟩ := List.mem_map.1 hmem
    rwa [h.ref_eq (hmade.denotes e he)]
  have heq := List.inj_on_of_nodup_map hmade.distinct (hentry h) (hentry h') rfl
  exact congrArg Prod.fst heq

end

end Accepted

end LetDef
