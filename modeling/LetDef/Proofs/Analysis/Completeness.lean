import LetDef.Proofs.Analysis.Congruence
import LetDef.Proofs.Analysis.Footprint

/-!
# Decorations are complete

However a step of analysis ends, it has only added to the state: no decoration is lost or changed.
A step that succeeds has found every node that it decorates undecorated. And where analysis
succeeds it has come by every node, so that whatever analysis was to find out can be read.
-/

namespace LetDef.Analysis

variable {α β : Type} {x : Analyze α} {st st₁ st₂ final : State} {site : Site} {scope : Scope}
  {n : Node} {ns ms : List Node} {t : Ty} {ks : List Nat} {depth : Nat}

/-! ### Analysis only adds -/

/-- The state has all that an earlier one had, and at least as many frames. -/
structure State.Later (st st₁ : State) : Prop extends st.Le st₁ where
  size : st.store.frames.size ≤ st₁.store.frames.size

namespace State.Later

lemma refl (st : State) : st.Later st :=
  ⟨.refl st, Nat.le_refl _⟩

lemma trans (h : st.Later st₁) (h' : st₁.Later st₂) : st.Later st₂ :=
  ⟨h.toLe.trans h'.toLe, h.size.trans h'.size⟩

lemma addVariable (st : State) (scope : Scope) (v : Variable) :
    st.Later { st with store := st.store.addVariable scope v } := by
  rcases Nat.lt_or_ge scope.frame st.store.frames.size with hsize | hsize
  · have hgrows := Store.grows_addVariable (v := v) hsize
    exact ⟨⟨fun _ _ hd => hd, hgrows.outline, fun i => by rw [hgrows.functions i]⟩, hgrows.size⟩
  · rw [Store.addVariable_of_size_le hsize]
    exact .refl st

lemma addFunction (st : State) (scope : Scope) (g : Function) :
    st.Later { st with store := st.store.addFunction scope g } := by
  refine ⟨⟨fun _ _ hd => hd, fun i => ?_, fun i => ?_⟩, ?_⟩
  · rw [Frame.outline, Frame.outline, Store.vars_addFunction]
  · rcases Nat.lt_or_ge scope.frame st.store.frames.size with hsize | hsize
    · exact Store.functions_addFunction_prefix hsize
    · by_cases hi : i = scope.frame
      · rw [hi, Store.addFunction, Store.frame_modifyFrame_of_size_le hsize]
      · rw [Store.frame_addFunction_of_ne hi]
  · rw [Store.size_addFunction]

lemma enter (st : State) (parent : Option Scope) :
    st.Later { st with store := (st.store.enter parent).2 } := by
  have hgrows := Store.grows_enter (s := st.store) parent
  exact ⟨⟨fun _ _ hd => hd, hgrows.outline, fun i => by rw [hgrows.functions i]⟩, hgrows.size⟩

lemma decorate {m : Mark} (h : st.decorations.get? m = none) (d : Decoration) :
    st.Later { st with decorations := ⟨st.decorations.slots.insert m.number d⟩ } := by
  refine ⟨⟨fun m' d' hd => ?_, fun _ => List.prefix_rfl, fun _ => List.prefix_rfl⟩, Nat.le_refl _⟩
  unfold Decorations.get? at h hd ⊢
  rw [Std.TreeMap.getElem?_insert, if_neg]
  · exact hd
  · intro heq
    rw [← Std.LawfulEqCmp.eq_of_compare heq, h] at hd
    cases hd

end State.Later

/-- However the step ends, it leaves a later state. -/
def Advances (x : Analyze α) : Prop :=
  ∀ st : State, st.Later (outcome x st).2

lemma advances_of_still (h : ∀ st, (outcome x st).2 = st) : Advances x := by
  intro st
  rw [h st]
  exact .refl st

lemma Advances.later (h : Advances x) {a : α} (hx : Gives x st a st₁) : st.Later st₁ := by
  have hlater := h st
  rwa [hx] at hlater

lemma Advances.bind {f : α → Analyze β} (hx : Advances x) (hf : ∀ a, Advances (f a)) :
    Advances (x >>= f) := by
  intro st
  have hst := hx st
  rw [outcome_bind]
  rcases hout : outcome x st with ⟨halt | a, st₁⟩ <;> rw [hout] at hst
  · exact hst
  · exact hst.trans (hf a st₁)

lemma Advances.mapM {f : β → Analyze α} (hf : ∀ b, Advances (f b)) (bs : List β) :
    Advances (bs.mapM f) := by
  induction bs with
  | nil => exact advances_of_still fun _ => rfl
  | cons b bs ih =>
    rw [List.mapM_cons]
    exact (hf b).bind fun a => ih.bind fun as => advances_of_still fun _ => rfl

lemma Advances.resolving (hx : Advances x) : Advances (resolving site x) := by
  intro st
  rw [outcome_resolving]
  exact hx st

lemma advances_lookup {find : Store → Except NameError α} : Advances (lookup site find) := by
  refine advances_of_still fun st => ?_
  unfold lookup
  rw [outcome_resolving, outcome_consult]

lemma advances_lookupMethod {f : FunctionRef → Function → Analyze α} {members : Option Scope}
    {name : String} {arity : Nat} (hf : ∀ ref g, g.arity = arity → Advances (f ref g)) :
    Advances (lookup site (fun s => s.lookupMethod members name arity) >>= fun found =>
      f found.1 found.2) := by
  intro st
  unfold lookup
  rw [outcome_bind, outcome_resolving, outcome_consult]
  cases hfound : st.store.lookupMethod members name arity with
  | error e => exact .refl st
  | ok found => exact hf _ _ (Store.getFunction?_of_lookupMethod hfound).2 st

/-- All of analysis only adds to the state. -/
lemma congruence_advances : Congruence fun _ _ x _ => Advances x where
  pure _ := advances_of_still fun _ => rfl
  bind := Advances.bind
  fail _ _ := advances_of_still fun _ => rfl
  tooDeep _ := advances_of_still fun _ => rfl
  resolving _ := Advances.resolving
  decorate m kind d st := by
    rw [outcome_decorate]
    cases h : st.decorations.get? m with
    | some _ => exact .refl st
    | none => exact .decorate h d
  resolve site result := by
    refine advances_of_still fun st => ?_
    unfold resolve
    rw [outcome_resolving, outcome_unwrap]
  lookupField _ _ _ := advances_lookup
  lookupMethod _ _ _ _ hf := advances_lookupMethod hf
  addVariable site scope v st := by
    unfold addVariable
    rw [outcome_resolving, outcome_newVariable]
    cases st.store.variableConflict? scope v.name with
    | some _ => exact .refl st
    | none => exact .addVariable st scope v
  addFunction site scope g st := by
    unfold addFunction
    rw [outcome_resolving, outcome_newFunction]
    cases st.store.functionConflict? scope g.name g.arity with
    | some _ => exact .refl st
    | none => exact .addFunction st scope g
  enter scope st := .enter st (some scope)
  accessed n := by
    refine advances_of_still fun st => ?_
    unfold accessed?
    rw [outcome_bind, outcome_get]
    dsimp only
    split
    · split <;> rfl
    · rfl
  findMain globals site := by
    refine advances_of_still fun st => ?_
    rw [outcome_findMain]

/-! ### Every node is decorated once -/

/-- If the step succeeds, none of the nodes of the numbers was decorated before. -/
structure Undecorated (ks : List Nat) (x : Analyze α) : Prop where
  advances : Advances x
  free : ∀ ⦃st a st₁⦄, Gives x st a st₁ → ∀ k ∈ ks, st.decorations.slots[k]? = none

lemma State.Le.free (h : st.Le st₁) {k : Nat} (hk : st₁.decorations.slots[k]? = none) :
    st.decorations.slots[k]? = none := by
  cases hd : st.decorations.slots[k]? with
  | none => rfl
  | some d =>
    have hkept : st₁.decorations.slots[k]? = some d := h.decorations { number := k } d hd
    rw [hk] at hkept
    cases hkept

lemma undecorated_nil (h : Advances x) : Undecorated [] x :=
  ⟨h, by simp⟩

lemma undecorated_throw (halt : Halt) : Undecorated ks (throw halt : Analyze α) :=
  ⟨advances_of_still fun _ => rfl, fun _ _ _ h => absurd h not_gives_throw⟩

/-- Analysis that succeeds comes by no node that was decorated before. -/
lemma congruence_undecorated : Congruence fun ks _ x _ => Undecorated ks x where
  pure a := undecorated_nil (congruence_advances.pure a)
  -- What is free behind the first step was free before it, as decorations are kept.
  bind hx hf := by
    refine ⟨hx.advances.bind fun a => (hf a).advances, fun st b st₁ h k hk => ?_⟩
    obtain ⟨a, st', ha, hb⟩ := gives_bind.1 h
    rcases List.mem_append.1 hk with hk | hk
    · exact hx.free ha k hk
    · exact (hx.advances.later ha).free ((hf a).free hb k hk)
  fail _ _ := undecorated_throw _
  tooDeep _ := undecorated_throw _
  resolving site hx :=
    ⟨hx.advances.resolving, fun _ _ _ h => hx.free (gives_resolving.1 h)⟩
  -- Only this step comes by a node, and it refuses one that is decorated.
  decorate m kind d := by
    refine ⟨congruence_advances.decorate m kind d, fun st a st₁ h k hk => ?_⟩
    rw [List.mem_singleton.1 hk]
    unfold Gives at h
    rw [outcome_decorate] at h
    cases hd : st.decorations.get? m with
    | none => exact hd
    | some _ =>
      rw [hd] at h
      cases h
  resolve site result := undecorated_nil (congruence_advances.resolve site result)
  lookupField site members name :=
    undecorated_nil (congruence_advances.lookupField site members name)
  lookupMethod site members name arity hf := by
    refine ⟨advances_lookupMethod fun ref g hg => (hf ref g hg).advances, fun st b st₁ h => ?_⟩
    obtain ⟨found, st', hfound, hb⟩ := gives_bind.1 h
    obtain ⟨hfound, rfl⟩ := gives_lookup hfound
    exact (hf _ _ (Store.getFunction?_of_lookupMethod hfound).2).free hb
  addVariable site scope v := undecorated_nil (congruence_advances.addVariable site scope v)
  addFunction site scope g := undecorated_nil (congruence_advances.addFunction site scope g)
  enter scope := undecorated_nil (congruence_advances.enter scope)
  accessed n := undecorated_nil (congruence_advances.accessed n)
  findMain globals site := undecorated_nil (congruence_advances.findMain globals site)

/-! ### What can be read -/

namespace State

/-- The variable of the node can be read. -/
def ReadsVariable (st : State) (m : Mark) : Prop :=
  ∃ ref v, st.decorations.get? m = some (.variable ref) ∧ st.store.getVariable? ref = some v

/-- The function of the node can be read. -/
def ReadsFunction (st : State) (m : Mark) : Prop :=
  ∃ ref g, st.decorations.get? m = some (.function ref) ∧ st.store.getFunction? ref = some g

/-- The type of the node can be read. -/
def ReadsType (st : State) (m : Mark) : Prop :=
  ∃ t, st.decorations.get? m = some (.type t)

/-- All that analysis finds out about nodes of the kind can be read from this one. A group has the
type of what it holds, an access that of its variable, and a call what its function returns. -/
def Readable (st : State) : Node → Prop
  | .absent => False
  | .literal m _ _ => st.ReadsType m
  | .group m body => ∃ t, st.decorations.get? m = some (.type t) ∧ st.typeOf? body = some t
  | .binary m _ _ _ => st.ReadsType m
  | .access m receiver name =>
    ∃ ref v, st.decorations.get? m = some (.variable ref) ∧ st.store.getVariable? ref = some v ∧
      st.typeOf? (.access m receiver name) = some v.type
  | .call m receiver name arguments =>
    ∃ ref g, st.decorations.get? m = some (.function ref) ∧ st.store.getFunction? ref = some g ∧
      st.typeOf? (.call m receiver name arguments) = some g.returns
  | .declare m _ _ _ => st.ReadsVariable m
  | .field m _ _ _ _ => st.ReadsVariable m
  | .method m _ _ _ _ _ => st.ReadsFunction m
  | _ => True

/-- The whole tree can be read. -/
def Complete (st : State) (root : Node) : Prop :=
  ∀ n, root.Below n → st.Readable n

lemma complete_of_children (h : st.Readable n) (hc : ∀ c ∈ n.children, st.Complete c) :
    st.Complete n := by
  intro m hm
  rcases hm.eq_or_child with rfl | ⟨c, hmem, hbelow⟩
  · exact h
  · exact hc c hmem m hbelow

end State

/-! ### Expressions -/

/-- If the step succeeds, the expression can be read from then on, and has the type that the step
yields. -/
def Reads (n : Node) (x : Analyze Ty) : Prop :=
  ∀ ⦃st t st₁⦄, Gives x st t st₁ → ∀ final, State.Le st₁ final →
    final.Complete n ∧ final.typeOf? n = some t

lemma reads_throw (halt : Halt) : Reads n (throw halt) :=
  fun _ _ _ h => absurd h not_gives_throw

lemma advances_expression : Advances (expression scope n depth) :=
  (congruence_advances.relatedAt 0 depth).expression scope n

lemma le_of_decorate {m : Mark} {kind : Node.Kind} {d : Decoration} {u : Unit}
    (h : Gives (decorate m kind d) st u st₁) : st.Le st₁ :=
  (congruence_advances.decorate m kind d |>.later h).toLe

/-- What a call is decorated with can be read once its parts can. -/
lemma called {mark : Mark} {receiver : Node} {name : String} {arguments : List Node}
    {ref : FunctionRef} {g : Function} {u : Unit} (hg : st.store.getFunction? ref = some g)
    (hd : Gives (decorate mark .call (.function ref)) st u st₁) (hle : st₁.Le final)
    (hparts : ∀ c ∈ [receiver].filter Node.isPresent ++ arguments, final.Complete c) :
    final.Complete (.call mark receiver name arguments) ∧
      final.typeOf? (.call mark receiver name arguments) = some g.returns := by
  have hread := hle.decorations _ _ (gives_decorate hd).2.1
  have hg' := ((le_of_decorate hd).trans hle).getFunction? hg
  have htype : final.typeOf? (.call mark receiver name arguments) = some g.returns :=
    State.typeOf?_of_function (.refl _) hread hg'
  exact ⟨State.complete_of_children ⟨ref, g, hread, hg', htype⟩ hparts, htype⟩

/-- The rules for expressions leave them complete. -/
structure ExpressionsRead (depth : Nat) : Prop where
  expression (scope : Scope) (n : Node) : Reads n (expression scope n depth)
  operation (scope : Scope) (mark : Mark) (operator : String) (left right : Node) :
    Reads (.binary mark operator left right) (operation scope mark operator left right depth)
  access (scope : Scope) (mark : Mark) (receiver : Node) (name : String) :
    Reads (.access mark receiver name) (access scope mark receiver name depth)
  call (scope : Scope) (mark : Mark) (receiver : Node) (name : String) (arguments : List Node) :
    Reads (.call mark receiver name arguments) (call scope mark receiver name arguments depth)

namespace ExpressionsRead

variable {mark : Mark} {receiver : Node} {name : String} (ih : ExpressionsRead depth)

include ih

lemma arguments {ts : List Ty}
    (h : Gives (ns.mapM fun e => Analysis.expression scope e depth) st ts st₁)
    (hle : st₁.Le final) : ∀ n ∈ ns, final.Complete n := by
  induction ns generalizing st ts with
  | nil => simp
  | cons n ns ihns =>
    rw [List.mapM_cons] at h
    obtain ⟨t, st', hn, h⟩ := gives_bind.1 h
    obtain ⟨ts', st'', hrest, h⟩ := gives_bind.1 h
    obtain ⟨_, rfl⟩ := gives_pure.1 h
    have hle' := (Advances.mapM (fun _ => advances_expression) ns).later hrest
    refine List.forall_mem_cons.2 ⟨?_, ihns hrest⟩
    exact (ih.expression scope n hn final (hle'.toLe.trans hle)).1

lemma expression_succ : Reads n (Analysis.expression scope n (depth + 1)) := by
  rw [expression.eq_def]
  cases n with
  | literal mark value sort =>
    dsimp only
    split
    · exact reads_throw _
    · intro st t st₁ h final hle
      obtain ⟨_, st', hd, hp⟩ := gives_bind.1 h
      obtain ⟨rfl, rfl⟩ := gives_pure.1 hp
      have hread := hle.decorations _ _ (gives_decorate hd).2.1
      exact ⟨State.complete_of_children ⟨_, hread⟩ (by simp [Node.children]),
        State.typeOf?_of_type (.refl _) hread⟩
  | group mark body =>
    intro st t st₁ h final hle
    obtain ⟨t', st', hbody, h⟩ := gives_bind.1 h
    obtain ⟨_, st'', hd, hp⟩ := gives_bind.1 h
    obtain ⟨rfl, rfl⟩ := gives_pure.1 hp
    have hread := hle.decorations _ _ (gives_decorate hd).2.1
    have hinner := ih.expression scope body hbody final ((le_of_decorate hd).trans hle)
    refine ⟨State.complete_of_children ⟨_, hread, hinner.2⟩ ?_,
      State.typeOf?_of_type (.refl _) hread⟩
    simpa [Node.children] using hinner.1
  | binary mark operator left right => exact ih.operation scope mark operator left right
  | access mark receiver name => exact ih.access scope mark receiver name
  | call mark receiver name arguments => exact ih.call scope mark receiver name arguments
  | _ => exact reads_throw _

lemma operation_succ {operator : String} {left right : Node} :
    Reads (.binary mark operator left right)
      (Analysis.operation scope mark operator left right (depth + 1)) := by
  intro st t st₁ h final hle
  rw [Analysis.operation] at h
  obtain ⟨l, st', hl, h⟩ := gives_bind.1 h
  obtain ⟨r, st'', hr, h⟩ := gives_bind.1 h
  split at h
  · exact absurd h not_gives_fail
  · obtain ⟨_, st₃, hd, hp⟩ := gives_bind.1 h
    obtain ⟨rfl, rfl⟩ := gives_pure.1 hp
    have hread := hle.decorations _ _ (gives_decorate hd).2.1
    have hle' := (le_of_decorate hd).trans hle
    have hright := ih.expression scope right hr final hle'
    have hleft := ih.expression scope left hl final
      ((advances_expression.later hr).toLe.trans hle')
    refine ⟨State.complete_of_children ⟨_, hread⟩ ?_, State.typeOf?_of_type (.refl _) hread⟩
    simpa [Node.children] using ⟨hleft.1, hright.1⟩

/-- A part that may be omitted is complete if it is there. -/
lemma optional (h : Gives (Analysis.expression scope receiver depth) st t st₁)
    (hle : st₁.Le final) : ∀ c ∈ [receiver].filter Node.isPresent, final.Complete c := by
  intro c hc
  rw [List.mem_singleton.1 (List.mem_of_mem_filter hc)]
  exact (ih.expression scope receiver h final hle).1

lemma access_succ :
    Reads (.access mark receiver name) (Analysis.access scope mark receiver name (depth + 1)) := by
  intro st t st₁ h final hle
  rw [access.eq_def] at h
  obtain ⟨⟨ref, v⟩, st', hfound, h⟩ := gives_bind.1 h
  obtain ⟨_, st'', hd, hp⟩ := gives_bind.1 h
  obtain ⟨rfl, rfl⟩ := gives_pure.1 hp
  have hle' := (le_of_decorate hd).trans hle
  have hread := hle.decorations _ _ (gives_decorate hd).2.1
  have hparts : (∀ c ∈ [receiver].filter Node.isPresent, final.Complete c) ∧
      st'.store.getVariable? ref = some v := by
    have hfound := gives_resolving.1 hfound
    split at hfound
    · obtain ⟨hfind, rfl⟩ := gives_consult hfound
      have hfind := Store.findVariable?_of_lookup hfind
      exact ⟨by simp [Node.isPresent], (Store.getVariable?_of_findVariable? hfind).1⟩
    · obtain ⟨t, u, hreceiver, hfind⟩ := gives_bind.1 hfound
      obtain ⟨hfind, rfl⟩ := gives_consult hfind
      exact ⟨ih.optional hreceiver hle', Store.getVariable?_of_lookupField hfind⟩
  obtain ⟨w, hw, hlike⟩ := hle'.getVariable? hparts.2
  have htype : final.typeOf? (.access mark receiver name) = some w.type :=
    State.typeOf?_of_variable (.refl _) hread hw
  rw [← hlike.1]
  exact ⟨State.complete_of_children ⟨ref, w, hread, hw, htype⟩ hparts.1, htype⟩

lemma call_succ {arguments : List Node} :
    Reads (.call mark receiver name arguments)
      (Analysis.call scope mark receiver name arguments (depth + 1)) := by
  intro st t st₁ h final hle
  rw [call.eq_def] at h
  obtain ⟨ts, st', harguments, h₁⟩ := gives_bind.1 h
  split at h₁
  · obtain ⟨⟨ref, g⟩, st'', hfind, h₂⟩ := gives_bind.1 h₁
    obtain ⟨hfind, rfl⟩ := gives_lookup hfind
    obtain ⟨_, st₃, hd, h₃⟩ := gives_bind.1 h₂
    obtain ⟨_, st₄, hrequire, hp⟩ := gives_bind.1 h₃
    obtain ⟨rfl, rfl⟩ := gives_pure.1 hp
    have hle₃ := (congruence_advances.requireArguments _ _ |>.later hrequire).toLe.trans hle
    have hget := (Store.getFunction?_of_findFunction? (Store.findFunction?_of_lookup hfind)).1
    refine called hget hd hle₃ ?_
    exact ih.arguments harguments ((le_of_decorate hd).trans hle₃)
  · -- The decorations of the receiver and of the arguments are kept up to the final state, through
    -- all that follows them.
    obtain ⟨t', u, hreceiver, h₂⟩ := gives_bind.1 h₁
    obtain ⟨⟨ref, g⟩, st'', hfind, h₃⟩ := gives_bind.1 h₂
    obtain ⟨hfind, rfl⟩ := gives_lookup hfind
    obtain ⟨hget, harity⟩ := Store.getFunction?_of_lookupMethod hfind
    obtain ⟨_, st₃, hd, h₄⟩ := gives_bind.1 h₃
    obtain ⟨_, st₄, hfirst, h₅⟩ := gives_bind.1 h₄
    obtain ⟨_, st₅, hrequire, hp⟩ := gives_bind.1 h₅
    obtain ⟨rfl, rfl⟩ := gives_pure.1 hp
    have hle₄ := (congruence_advances.requireArguments _ _ |>.later hrequire).toLe.trans hle
    have hle₃ := (congruence_advances.requireReceiver harity |>.later hfirst).toLe.trans hle₄
    have hle₂ := (le_of_decorate hd).trans hle₃
    refine called hget hd hle₃ fun c hc => ?_
    rcases List.mem_append.1 hc with hc | hc
    · exact ih.optional hreceiver hle₂ c hc
    · exact ih.arguments harguments ((advances_expression.later hreceiver).toLe.trans hle₂) c hc

end ExpressionsRead

lemma expressionsRead (depth : Nat) : ExpressionsRead depth := by
  induction depth with
  | zero => constructor <;> intros <;> exact reads_throw _
  | succ depth ih =>
    exact
      { expression := fun _ _ => ih.expression_succ
        operation := fun _ _ _ _ _ => ih.operation_succ
        access := fun _ _ _ _ => ih.access_succ
        call := fun _ _ _ _ _ => ih.call_succ }

/-! ### Statements -/

/-- The step only adds to the state, and if it succeeds in a scope that has a frame, the trees can
be read from then on. -/
structure Completes (scope : Scope) (ns : List Node) (x : Analyze α) : Prop where
  advances : Advances x
  complete : ∀ ⦃st a st₁⦄, scope.frame < st.store.frames.size → Gives x st a st₁ →
    ∀ final, State.Le st₁ final → ∀ n ∈ ns, final.Complete n

namespace Completes

lemma of_advances (h : Advances x) : Completes scope [] x :=
  ⟨h, by simp⟩

/-- A step that stops at once. -/
lemma of_stop {halt : Halt} (h : ∀ st, outcome x st = (.error halt, st)) :
    Completes scope ns x := by
  refine ⟨advances_of_still fun st => by rw [h st], fun st a st₁ _ hx => ?_⟩
  rw [Gives, h st] at hx
  cases hx

protected lemma throw (halt : Halt) : Completes scope ns (throw halt : Analyze α) :=
  of_stop fun _ => rfl

protected lemma bind {f : α → Analyze β} (hx : Completes scope ns x)
    (hf : ∀ a, Completes scope ms (f a)) : Completes scope (ns ++ ms) (x >>= f) := by
  refine ⟨hx.advances.bind fun a => (hf a).advances, fun st b st₁ hsize h final hle n hn => ?_⟩
  obtain ⟨a, st', ha, hb⟩ := gives_bind.1 h
  have hsize' := hsize.trans_le (hx.advances.later ha).size
  rcases List.mem_append.1 hn with hn | hn
  · exact hx.complete hsize ha final (((hf a).advances.later hb).toLe.trans hle) n hn
  · exact (hf a).complete hsize' hb final hle n hn

/-- What follows a step that decorates nothing. -/
lemma nilBind {f : α → Analyze β} (hx : Advances x) (hf : ∀ a, Completes scope ms (f a)) :
    Completes scope ms (x >>= f) :=
  (of_advances hx).bind hf

/-- A step that is followed by one that decorates nothing. -/
lemma bindNil {f : α → Analyze β} (hx : Completes scope ns x) (hf : ∀ a, Advances (f a)) :
    Completes scope ns (x >>= f) := by
  have h := hx.bind fun a => of_advances (hf a)
  rwa [List.append_nil] at h

/-- What is analysed in a new scope, which has a frame. -/
lemma enter {f : Scope → Analyze α} {outer : Scope} (hf : ∀ inner, Completes inner ns (f inner)) :
    Completes scope ns (enter outer >>= f) := by
  refine ⟨(congruence_advances.enter outer).bind fun inner => (hf inner).advances,
    fun st a st₁ _ h => ?_⟩
  obtain ⟨inner, st', henter, h⟩ := gives_bind.1 h
  obtain ⟨rfl, rfl⟩ := gives_enter henter
  refine (hf _).complete ?_ h
  change st.store.frames.size < (st.store.enter (some outer)).2.frames.size
  rw [Store.size_enter]
  exact Nat.lt_succ_self _

lemma forM {f : β → Analyze PUnit} {node : β → Node} (hf : ∀ b, Completes scope [node b] (f b))
    (bs : List β) : Completes scope (bs.map node) (bs.forM f) := by
  induction bs with
  | nil => exact of_advances (advances_of_still fun _ => rfl)
  | cons b bs ih => exact (hf b).bind fun _ => ih

lemma forM_nodes {f : Node → Analyze PUnit} (hf : ∀ n, Completes scope [n] (f n))
    (ns : List Node) : Completes scope ns (ns.forM f) := by
  simpa only [List.map_id'] using forM hf ns

/-- A tree that is not decorated itself is complete with its parts. -/
lemma node (h : Completes scope n.children x) (hn : ∀ final : State, final.Readable n) :
    Completes scope [n] x := by
  refine ⟨h.advances, fun st a st₁ hsize hx final hle m hm => ?_⟩
  rw [List.mem_singleton.1 hm]
  exact State.complete_of_children (hn final) (h.complete hsize hx final hle)

lemma expression : Completes scope [n] (expression scope n depth) := by
  refine ⟨advances_expression, fun st t st₁ _ h final hle m hm => ?_⟩
  rw [List.mem_singleton.1 hm]
  exact ((expressionsRead depth).expression scope n h final hle).1

lemma condition : Completes scope [n] (condition scope n depth) := by
  cases depth with
  | zero => exact .throw _
  | succ depth =>
    rw [Analysis.condition]
    refine expression.bindNil fun t => ?_
    split <;> exact advances_of_still fun _ => rfl

lemma perform {mark : Mark} : Completes scope [n] (perform scope mark n depth) := by
  cases depth with
  | zero => exact .throw _
  | succ depth =>
    rw [perform.eq_def]
    refine expression.bindNil fun t => ?_
    split <;> exact advances_of_still fun _ => rfl

lemma assign {mark : Mark} {receiver value : Node} :
    Completes scope [receiver, value] (assign scope mark receiver value depth) := by
  cases depth with
  | zero => exact .throw _
  | succ depth =>
    rw [Analysis.assign]
    refine expression.bind fun _ => expression.bindNil fun t => ?_
    refine (congruence_advances.accessed receiver).bind fun found => ?_
    split
    · exact advances_of_still fun _ => rfl
    · split
      · exact (advances_of_still fun _ => rfl).bind fun _ => congruence_advances.require
      · exact congruence_advances.require

lemma optionalValue :
    Completes scope ([n].filter Node.isPresent) (optionalValue scope n depth) := by
  unfold Analysis.optionalValue
  cases n with
  | absent => exact of_advances (advances_of_still fun _ => rfl)
  | _ => exact expression.bindNil fun _ => advances_of_still fun _ => rfl

/-- A tree that is decorated after its parts. -/
lemma decorated {f : α → Analyze β} (hx : Completes scope n.children x) (hf : ∀ a, Advances (f a))
    (hread : ∀ ⦃a st b st₁⦄, scope.frame < st.store.frames.size → Gives (f a) st b st₁ →
      ∀ final, State.Le st₁ final → final.Readable n) : Completes scope [n] (x >>= f) := by
  refine ⟨hx.advances.bind hf, fun st b st₁ hsize h final hle m hm => ?_⟩
  obtain ⟨a, st', ha, hb⟩ := gives_bind.1 h
  have hsize' := hsize.trans_le (hx.advances.later ha).size
  rw [List.mem_singleton.1 hm]
  refine State.complete_of_children (hread hsize' hb final hle) ?_
  exact hx.complete hsize ha final (((hf a).later hb).toLe.trans hle)

end Completes

/-- Variables are declared in a scope that has a frame, and can be read from then on. -/
lemma readsVariable_of_define {m : Mark} {kind : Node.Kind} {name : String}
    {typeName : Option String} {value : Option (Site × Ty)} {constant : Bool} {u : Unit}
    (hsize : scope.frame < st.store.frames.size)
    (h : Gives (do
      let t ← declaredType site name typeName value
      defineVariable site scope name t constant
      decorate m kind (.variable ⟨scope.frame, name⟩)) st u st₁)
    (hle : st₁.Le final) : final.ReadsVariable m := by
  obtain ⟨t, st', htype, h₁⟩ := gives_bind.1 h
  have hstore := (onlyDecorates_declaredType htype).store
  obtain ⟨_, st'', hadd, hd⟩ := gives_bind.1 h₁
  obtain ⟨hnew, rfl⟩ := gives_addVariable hadd
  rw [hstore] at hnew hd
  have hget : (st.store.addVariable scope _).getVariable? ⟨scope.frame, name⟩ = some _ :=
    Store.getVariable?_addVariable_self hsize hnew
  obtain ⟨w, hw, _⟩ := ((le_of_decorate hd).trans hle).getVariable? hget
  exact ⟨_, w, hle.decorations _ _ (gives_decorate hd).2.1, hw⟩

lemma advances_define {m : Mark} {kind : Node.Kind} {name : String} {typeName : Option String}
    {value : Option (Site × Ty)} {constant : Bool} :
    Advances (do
      let t ← declaredType site name typeName value
      defineVariable site scope name t constant
      decorate m kind (.variable ⟨scope.frame, name⟩)) :=
  (congruence_advances.declaredType typeName value).bind fun _ =>
    (congruence_advances.addVariable _ _ _).bind fun _ => congruence_advances.decorate _ _ _

lemma completes_declare {mark : Mark} {name : String} {typeName : Option String} {value : Node} :
    Completes scope [.declare mark name typeName value]
      (declare scope mark name typeName value depth) := by
  cases depth with
  | zero => exact .throw _
  | succ depth =>
    rw [declare]
    exact .decorated .optionalValue (fun _ => advances_define) fun _ _ _ _ hsize h final hle =>
      readsVariable_of_define hsize h hle

/-- The rules for statements leave them complete. -/
structure StatementsComplete (depth : Nat) : Prop where
  block (scope : Scope) (returns : Ty) (body : List Node) :
    Completes scope body (block scope returns body depth)
  statement (scope : Scope) (returns : Ty) (n : Node) :
    Completes scope [n] (statement scope returns n depth)
  branch (scope : Scope) (returns : Ty) (mark : Mark) (c : Node) (thenBody elseBody : List Node) :
    Completes scope [.branch mark c thenBody elseBody]
      (branch scope returns mark c thenBody elseBody depth)
  forLoop (scope : Scope) (returns : Ty) (mark : Mark) (first c last : Node) (body : List Node) :
    Completes scope [.forLoop mark first c last body]
      (forLoop scope returns mark first c last body depth)
  whileLoop (scope : Scope) (returns : Ty) (mark : Mark) (c : Node) (body : List Node) :
    Completes scope [.whileLoop mark c body] (whileLoop scope returns mark c body depth)

namespace StatementsComplete

variable {returns : Ty} {mark : Mark} {c : Node} {body : List Node} (ih : StatementsComplete depth)

include ih

/-- A block in a scope of its own. -/
lemma inner (outer : Scope) (returns : Ty) (body : List Node) :
    Completes scope body (do Analysis.block (← enter outer) returns body depth) :=
  .enter fun inner => ih.block inner returns body

/-- A part of a loop is analysed if there is one, and then the rest. -/
lemma clause (hx : Completes scope ns x) :
    Completes scope ([n].filter Node.isPresent ++ ns)
      (if n.isPresent = true then (do
        Analysis.statement scope returns n depth
        x) else x) := by
  cases n with
  | absent => exact hx
  | _ => exact (ih.statement scope returns _).bind fun _ => hx

lemma statement_succ :
    Completes scope [n] (Analysis.statement scope returns n (depth + 1)) := by
  rw [statement.eq_def]
  cases n with
  | perform mark e => exact Completes.perform.node fun _ => trivial
  | declare mark name typeName value => exact completes_declare
  | assign mark receiver value => exact Completes.assign.node fun _ => trivial
  | branch mark c thenBody elseBody => exact ih.branch _ _ _ _ _ _
  | forLoop mark first c last body => exact ih.forLoop _ _ _ _ _ _ _
  | whileLoop mark c body => exact ih.whileLoop _ _ _ _ _
  | giveBack mark value =>
    refine .node ?_ fun _ => trivial
    exact Completes.expression.bindNil fun _ => congruence_advances.require
  | _ => exact .throw _

lemma branch_succ {thenBody elseBody : List Node} :
    Completes scope [.branch mark c thenBody elseBody]
      (Analysis.branch scope returns mark c thenBody elseBody (depth + 1)) := by
  rw [Analysis.branch]
  refine .node ?_ fun _ => trivial
  change Completes scope ([c] ++ (thenBody ++ elseBody)) _
  refine Completes.condition.bind fun _ => .nilBind congruence_advances.requireBody fun _ => ?_
  rw [← bind_assoc]
  refine (ih.inner scope returns thenBody).bind fun _ => ?_
  cases elseBody with
  | nil => exact .of_advances (advances_of_still fun _ => rfl)
  | cons n ns => exact ih.inner scope returns (n :: ns)

lemma forLoop_succ {first last : Node} :
    Completes scope [.forLoop mark first c last body]
      (Analysis.forLoop scope returns mark first c last body (depth + 1)) := by
  rw [Analysis.forLoop]
  refine .node ?_ fun _ => trivial
  have hchildren : (Node.forLoop mark first c last body).children =
      [first].filter Node.isPresent ++ ([c].filter Node.isPresent ++
        ([last].filter Node.isPresent ++ body)) := by
    rw [← List.append_assoc, ← List.append_assoc, ← List.filter_append, ← List.filter_append]
    rfl
  rw [hchildren]
  refine .enter fun loop => ih.clause ?_
  cases c with
  | absent => exact .of_stop fun _ => rfl
  | _ =>
    refine Completes.condition.bind fun _ => ih.clause ?_
    exact .nilBind congruence_advances.requireBody fun _ => ih.inner loop returns body

lemma whileLoop_succ :
    Completes scope [.whileLoop mark c body]
      (Analysis.whileLoop scope returns mark c body (depth + 1)) := by
  rw [Analysis.whileLoop]
  refine .node ?_ fun _ => trivial
  change Completes scope ([c] ++ body) _
  refine Completes.condition.bind fun _ => .nilBind congruence_advances.requireBody fun _ => ?_
  exact ih.inner scope returns body

end StatementsComplete

lemma statementsComplete (depth : Nat) : StatementsComplete depth := by
  induction depth with
  | zero => constructor <;> intros <;> exact .throw _
  | succ depth ih =>
    refine {
      block := fun scope returns body => ?_
      statement := fun _ _ _ => ih.statement_succ
      branch := fun _ _ _ _ _ _ => ih.branch_succ
      forLoop := fun _ _ _ _ _ _ _ => ih.forLoop_succ
      whileLoop := fun _ _ _ _ _ => ih.whileLoop_succ }
    rw [block]
    exact .forM_nodes (ih.statement scope returns) body

/-! ### Programs -/

lemma completes_field {globals : Scope} {f : Field} :
    Completes globals [f.toNode] (field globals f depth) := by
  cases depth with
  | zero => exact .throw _
  | succ depth =>
    rw [field]
    refine .decorated .optionalValue (fun valueType => ?_) ?_
    · dsimp only
      split
      · exact (advances_of_still fun _ => rfl).bind fun _ => advances_define
      · exact advances_define
    · intro valueType st b st₁ hsize h final hle
      dsimp only at h
      split at h
      · exact absurd h not_gives_throw
      · exact readsVariable_of_define hsize h hle

lemma completes_method {globals : Scope} {m : Method} :
    Completes globals [m.toNode] (method globals m depth) := by
  cases depth with
  | zero => exact .throw _
  | succ depth =>
    refine ⟨congruence_advances.method_succ (congruence_advances.statementsRelatedAt 0 depth)
      globals m, fun st u st₁ hsize h final hle n hn => ?_⟩
    rw [List.mem_singleton.1 hn]
    rw [method] at h
    obtain ⟨parameters, st', htypes, h₁⟩ := gives_bind.1 h
    obtain ⟨returns, st'', hreturns, h₂⟩ := gives_bind.1 h₁
    obtain ⟨_, st₃, hadd, h₃⟩ := gives_bind.1 h₂
    obtain ⟨_, st₄, hd, hbody⟩ := gives_bind.1 h₃
    have hinner : Completes globals m.body (do
        let scope ← enter globals
        defineParameters m.site scope (m.parameters.zip parameters)
        m.body.forM fun n => statement scope returns n depth) := by
      refine .enter fun scope => .nilBind (congruence_advances.defineParameters _) fun _ => ?_
      exact .forM_nodes ((statementsComplete depth).statement scope returns) m.body
    -- The steps before the function is added keep the frames, so that it is found where it is put.
    have hsize' := hsize.trans_le ((Advances.mapM
      (fun _ => congruence_advances.resolve _ _) _).later htypes).size
    have hsize'' := hsize'.trans_le ((congruence_advances.returnType m).later hreturns).size
    obtain ⟨hnew, rfl⟩ := gives_addFunction hadd
    have hget := Store.getFunction?_addFunction_self hsize'' hnew
    have hdecorated := le_of_decorate hd
    have hfinal : st₄.Le final := (hinner.advances.later hbody).toLe.trans hle
    refine State.complete_of_children (n := m.toNode) ?_ ?_
    · exact ⟨_, _, hfinal.decorations _ _ (gives_decorate hd).2.1,
        hfinal.getFunction? (hdecorated.getFunction? hget)⟩
    · have hlater := (State.Later.addFunction st'' globals _).trans
        ((congruence_advances.decorate _ _ _).later hd)
      exact hinner.complete (hsize''.trans_le hlater.size) hbody final hle

lemma completes_program {globals : Scope} {p : Program} :
    Completes globals p.toNode.children (program depth globals p) := by
  refine (Completes.forM (fun _ => completes_field) p.fields).bind fun _ => ?_
  refine Completes.bindNil (.forM (fun _ => completes_method) p.methods) fun _ => ?_
  exact congruence_advances.requireMain globals p.site

/-! ### Analysers -/

/-- An analyser: the scope where it defines the names of a program, the store of that scope, and how
deeply its rules may be nested. -/
structure Analyser where
  globals : Scope
  store : Store
  depth : Nat
  known : globals.frame < store.frames.size

namespace Analyser

/-- An analyser with a new global scope inside a scope of the host. -/
def fresh (parent : Option Scope) (host : Store) (depth : Nat) : Analyser where
  globals := (globalScope parent host).1
  store := (globalScope parent host).2
  depth := depth
  known := by simp [globalScope, Store.enter, Store.addFunction]

/-- How the analysis of a program ends whose nodes have decorations already. -/
def analyse (a : Analyser) (p : Program) (d : Decorations) : Except Halt Unit × State :=
  outcome (analyze a.depth a.globals p) ⟨a.store, d⟩

variable {a : Analyser} {p : Program} {d : Decorations}

lemma later_analyse (a : Analyser) (p : Program) (d : Decorations) :
    State.Later ⟨a.store, d⟩ (a.analyse p d).2 := by
  unfold analyse
  rw [outcome_analyze]
  exact congruence_advances.program (Nat.le_refl _) a.globals p.numbered _

/-- Where analysis succeeds, the rules have succeeded with the numbered program. -/
lemma gives_of_analyse (h : (a.analyse p d).1 = .ok ()) :
    Gives (program a.depth a.globals p.numbered) ⟨a.store, d⟩ () (a.analyse p d).2 := by
  unfold analyse at h ⊢
  rw [outcome_analyze] at h ⊢
  unfold Gives
  rcases hout : outcome (program a.depth a.globals p.numbered) ⟨a.store, d⟩ with ⟨halt | u, st₁⟩
  · rw [hout] at h
    cases h
  · rfl

/-- Where analysis fails, the rules have stopped, and too much nesting is made a fault. -/
lemma halts_of_analyse {e : Halt} (h : (a.analyse p d).1 = .error e) :
    ∃ halt, Halts (program a.depth a.globals p.numbered) ⟨a.store, d⟩ halt (a.analyse p d).2 ∧
      e = halt.guarded p.site := by
  unfold analyse at h ⊢
  rw [outcome_analyze] at h ⊢
  unfold Halts
  rcases hout : outcome (program a.depth a.globals p.numbered) ⟨a.store, d⟩ with ⟨halt | u, st₁⟩
  · rw [hout] at h
    cases h
    exact ⟨halt, rfl, rfl⟩
  · rw [hout] at h
    cases h

lemma complete_of_analyse (h : (a.analyse p d).1 = .ok ()) :
    (a.analyse p d).2.Complete p.numbered.toNode :=
  State.complete_of_children trivial
    (completes_program.complete a.known (gives_of_analyse h) _ (.refl _))

lemma free_of_analyse (h : (a.analyse p d).1 = .ok ()) :
    ∀ k ∈ p.numbered.slots, d.slots[k]? = none :=
  (congruence_undecorated.program (Nat.le_refl _) a.globals p.numbered).free (gives_of_analyse h)

end Analyser

end LetDef.Analysis
