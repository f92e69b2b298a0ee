import LetDef.Proofs.Analysis.Expression
import LetDef.Proofs.Parser.Completeness
import LetDef.Proofs.Syntax.Numbering
import LetDef.Proofs.Token.Shape

/-!
# Analysed programs are typed

Where analysis succeeds, the type system derives the program from the state in which analysis ends.
Scopes that analysis enters become blocks of bindings, and each declaration adds one to its block.
-/

namespace LetDef.Analysis

open Execution (Origin)

variable {st st₁ st₂ final : State} {site : Site} {scope : Scope} {n : Node} {t returns : Ty}
  {known : List Function} {bs outer block : List Binding} {name : String} {depth : Nat}
  {valid : String → Prop} {data : Value → Prop}

/-! ### Declarations -/

lemma ofName_plain (h : Ty.ofName name = .ok t) : t.members? = none := by
  unfold Ty.ofName at h
  split at h
  · rename_i t' ht
    cases h
    have hall : ∀ t ∈ Ty.builtin, t.members? = none := by decide
    exact hall t (List.mem_of_find?_eq_some ht)
  · cases h

/-- The type of an optional value, once it fits, types the value. -/
lemma optionalValue_typed {value : Node} {found : Option (Site × Ty)}
    (hv : value.IsOptional valid data) (hs : Scoped known bs scope st)
    (h : Gives (optionalValue scope value depth) st found st₁) :
    st.Grows none st₁ ∧ (∀ p ∈ found, p.2.members? = none) ∧
      ∀ target root final, (∀ p ∈ found, Ty.accepts target p.2 = true) → st₁.Le final →
        (value.isPresent = true → root.Below value) →
        Typing.Fits root final known bs value target := by
  unfold optionalValue at h
  rcases hv with rfl | he
  · obtain ⟨rfl, rfl⟩ := gives_pure.1 h
    exact ⟨.refl _ _, by simp, fun _ _ _ _ _ _ => .inl rfl⟩
  · have hpresent : value.isPresent = true := by
      cases he <;> rfl
    rw [if_pos hpresent, gives_bind] at h
    obtain ⟨t, st', hvalue, hp⟩ := h
    obtain ⟨rfl, rfl⟩ := gives_pure.1 hp
    have hvalue := expressionsTyped depth he hs hvalue
    refine ⟨hvalue.grows, by simpa using hvalue.plain, ?_⟩
    intro target root final hfits hle hbelow
    exact .inr ⟨t, hvalue.typed root final hle (hbelow hpresent), hfits _ rfl⟩

/-- A declared type is one of a program's. -/
lemma plain_of_declaredType {typeName : Option String} {found : Option (Site × Ty)}
    (hplain : ∀ p ∈ found, p.2.members? = none)
    (h : Gives (declaredType site name typeName found) st t st₁) : t.members? = none := by
  obtain ⟨-, -, htype⟩ := gives_declaredType h
  cases typeName with
  | none =>
    obtain ⟨p, hp, rfl⟩ := htype
    exact hplain p hp
  | some declared => exact ofName_plain htype

/-- A block with a variable more has a binding more. -/
lemma InBlock.add {v : Variable} {origin : Origin} (h : InBlock known outer block scope st)
    (hnew : (st.store.frame scope.frame).getVariable? v.name = none)
    (hplain : v.type.members? = none) (hle : st.Le st₁)
    (hstore : st₁.store = st.store.addVariable scope v)
    (hcell : st₁.cell? origin = some (v.type, v.constant)) :
    InBlock known outer ((v.name, origin) :: block) scope st₁ := by
  have hsize := h.size scope.frame (List.mem_cons_self ..)
  have hgrows := Store.grows_addVariable (v := v) hsize
  rw [← hstore] at hgrows
  have hself := Store.getVariable?_addVariable_self hsize hnew
  rw [← hstore] at hself
  refine ⟨⟨?_, ?_, ?_, h.plain, ?_⟩, ?_⟩
  · intro i hi
    exact Nat.lt_of_lt_of_le (h.size i hi) hgrows.size
  · rw [hgrows.functions, h.functions]
  · intro i hi
    rw [hgrows.functions, h.others i hi]
  · -- The new name leads to the new variable, and hides what it led to before.
    intro name' ref w hw
    rw [hstore] at hw
    by_cases hname : name' = v.name
    · subst hname
      rw [Store.findVariable?_addVariable_self hsize hnew] at hw
      cases hw
      exact ⟨hplain, origin, List.lookup_cons_self, hcell⟩
    · rw [Store.findVariable?_addVariable_of_ne hname] at hw
      obtain ⟨hplain', origin', horigin, hcell'⟩ := h.finds name' ref w hw
      refine ⟨hplain', origin', ?_, hle.cell? hcell'⟩
      rw [List.cons_append, List.lookup_cons, beq_false_of_ne hname]
      exact horigin
  · intro name' hname'
    rcases List.mem_cons.1 hname' with rfl | hname'
    · rw [hself]
      rfl
    · obtain ⟨w, hw⟩ := Option.isSome_iff_exists.1 (h.defined name' hname')
      obtain ⟨w', hw', _⟩ := Frame.getVariable?_of_prefix (hgrows.outline scope.frame) hw
      rw [hw']
      rfl

/-- A name that the frame does not have is new to the block. -/
lemma InBlock.fresh (h : InBlock known outer block scope st)
    (hnew : (st.store.frame scope.frame).getVariable? name = none) :
    name ∉ block.map Prod.fst := by
  intro hmem
  have hsome := h.defined name hmem
  rw [hnew] at hsome
  cases hsome

/-- A declaration adds a binding to its block. -/
lemma define_typed {m : Mark} {kind : Node.Kind} {constant : Bool} {u : Unit}
    (h : InBlock known outer block scope st) (hplain : t.members? = none)
    (hd : Gives (do
      defineVariable site scope name t constant
      decorate m kind (.variable ⟨scope.frame, name⟩)) st u st₁) :
    InBlock known outer ((name, .declaration m) :: block) scope st₁ ∧
      st.Grows (some scope.frame) st₁ ∧
      ∀ final, st₁.Le final → Typing.Adds final block name (.declaration m) t constant := by
  obtain ⟨_, st', hadd, hdecorate⟩ := gives_bind.1 hd
  obtain ⟨hnew, rfl⟩ := gives_addVariable hadd
  obtain ⟨hstore, hget, hkeep⟩ := gives_decorate hdecorate
  have hsize := h.size scope.frame (List.mem_cons_self ..)
  have hgrows : st.Grows (some scope.frame) st₁ := by
    refine ⟨hkeep, ?_⟩
    rw [hstore]
    exact Store.grows_addVariable hsize
  have hcell : st₁.cell? (.declaration m) = some (t, constant) := by
    simp only [State.cell?, hget]
    rw [Store.getVariable?, hstore, Store.getVariable?_addVariable_self hsize hnew]
    rfl
  refine ⟨h.add hnew hplain hgrows.le hstore hcell, hgrows, ?_⟩
  intro final hle
  exact ⟨h.fresh hnew, hle.cell? hcell⟩

/-! ### Simple statements -/

/-- Only an access stands for a variable: the one that it is decorated with. -/
lemma gives_accessed? {found : Option Variable} (h : Gives (accessed? n) st found st₁) :
    st₁ = st ∧ ∀ v ∈ found, ∃ m e name ref, n = .access m e name ∧
      st.decorations.get? m = some (.variable ref) ∧ st.store.getVariable? ref = some v := by
  unfold accessed? at h
  obtain ⟨st', u, hget, hmatch⟩ := gives_bind.1 h
  obtain ⟨rfl, rfl⟩ := gives_get.1 hget
  split at hmatch
  · rename_i m e name
    split at hmatch
    · rename_i ref hd
      obtain ⟨rfl, rfl⟩ := gives_pure.1 hmatch
      exact ⟨rfl, fun v hv => ⟨m, e, name, ref, rfl, hd, hv⟩⟩
    · obtain ⟨rfl, rfl⟩ := gives_pure.1 hmatch
      exact ⟨rfl, by simp⟩
  · obtain ⟨rfl, rfl⟩ := gives_pure.1 hmatch
    exact ⟨rfl, by simp⟩

/-- An expression that stands for a variable is the name of one that the scope finds. -/
lemma accessed_found {m : Mark} {e : Node} {ref : VariableRef} {v : Variable}
    (he : (Node.access m e name).IsExpression valid data) (hs : Scoped known bs scope st)
    (h : Gives (expression scope (.access m e name) depth) st t st₁) (hle : st₁.Le st₂)
    (hd : st₂.decorations.get? m = some (.variable ref))
    (hv : st₂.store.getVariable? ref = some v) :
    e = .absent ∧ ∃ w, st.store.findVariable? scope name = some (ref, w) ∧ v.Like w := by
  have htyped := (expressionsTyped depth he hs h).typed _ _ (.refl _) .root
  cases htyped with
  | access _ _ _ =>
    refine ⟨rfl, ?_⟩
    cases depth with
    | zero =>
      rw [expression] at h
      exact absurd h not_gives_tooDeep
    | succ depth =>
      rw [expression] at h
      obtain ⟨ref', w, hfind, _, hdecorate⟩ := gives_access h
      obtain ⟨hstore, hget, _⟩ := gives_decorate hdecorate
      have heq := hle.decorations _ _ hget
      rw [hd] at heq
      cases heq
      have hw := (Store.getVariable?_of_findVariable? hfind).1
      rw [← hstore] at hw
      obtain ⟨v', hv', hlike⟩ := hle.getVariable? hw
      rw [hv] at hv'
      cases hv'
      exact ⟨w, hfind, hlike⟩

/-- An analysed assignment puts a value that fits into a variable that is no constant. -/
lemma assign_typed {m : Mark} {receiver value : Node} {u : Unit}
    (hr : receiver.IsExpression valid data) (hv : value.IsExpression valid data)
    (hs : Scoped known (block ++ outer) scope st)
    (h : Gives (assign scope m receiver value depth) st u st₁) :
    st.Grows none st₁ ∧ ∀ root final, st₁.Le final → root.Below (.assign m receiver value) →
      Typing.Statement root final known returns outer block (.assign m receiver value) block := by
  cases depth with
  | zero =>
    rw [assign] at h
    exact absurd h not_gives_tooDeep
  | succ depth =>
    rw [assign] at h
    obtain ⟨tr, st', hreceiver, h₁⟩ := gives_bind.1 h
    obtain ⟨tv, st'', hvalue, h₂⟩ := gives_bind.1 h₁
    obtain ⟨found, st₃, hfound, h₃⟩ := gives_bind.1 h₂
    have hr' := expressionsTyped depth hr hs hreceiver
    have hv' := expressionsTyped depth hv (hs.grows hr'.grows (by simp)) hvalue
    obtain ⟨rfl, hfound⟩ := gives_accessed? hfound
    cases found with
    | none => exact absurd h₃ not_gives_fail
    -- The variable that is checked is found by the decoration of the receiver. It is the one that
    -- the name leads to, whose cell says that it is no constant.
    | some v =>
      obtain ⟨a, e, name, ref, rfl, hdec, hget⟩ := hfound v rfl
      obtain ⟨st₄, hconstant, hrequire⟩ := gives_ite_bind.1 h₃
      split at hconstant
      · exact absurd hconstant not_gives_fail
      rename_i hchangeable
      obtain ⟨_, rfl⟩ := gives_pure.1 hconstant
      obtain ⟨hacc, rfl⟩ := gives_require hrequire
      obtain ⟨rfl, w, hfind, hlike⟩ := accessed_found hr hs hreceiver hv'.grows.le hdec hget
      obtain ⟨_, origin, horigin, hcell⟩ := hs.finds name ref w hfind
      have hgrows := hr'.grows.trans hv'.grows
      refine ⟨hgrows, ?_⟩
      intro root final hle hbelow
      have hcell' := hle.cell? (hgrows.le.cell? hcell)
      rw [← hlike.1, ← hlike.2, eq_false_of_ne_true hchangeable] at hcell'
      refine .assign horigin hcell' ?_ hacc
      exact hv'.typed root final hle (.child hbelow (by simp [Node.children]))

lemma condition_typed {c : Node} {u : Unit} (hc : c.IsExpression valid data)
    (hs : Scoped known bs scope st) (h : Gives (condition scope c depth) st u st₁) :
    Analysed known bs c .boolean st st₁ := by
  cases depth with
  | zero =>
    rw [condition] at h
    exact absurd h not_gives_tooDeep
  | succ depth =>
    rw [condition] at h
    obtain ⟨t, st', hexpression, h₁⟩ := gives_bind.1 h
    split at h₁
    · rename_i ht
      obtain ⟨_, rfl⟩ := gives_pure.1 h₁
      subst ht
      exact expressionsTyped depth hc hs hexpression
    · exact absurd h₁ not_gives_fail

/-! ### Blocks and loops -/

/-- Analysed statements are typed, whatever is added to the state later, and leave the scope with
the bindings that they declare. -/
structure Passed (known : List Function) (returns : Ty) (outer block : List Binding)
    (scope : Scope) (ns : List Node) (st st₁ : State) (block₁ : List Binding) : Prop where
  inBlock : InBlock known outer block₁ scope st₁
  grows : st.Grows (some scope.frame) st₁
  typed : ∀ root final, st₁.Le final → (∀ n ∈ ns, root.Below n) →
    Typing.Statements root final known returns outer block ns block₁

variable (valid data) in
/-- Statements that are analysed within the depth are typed. -/
def StatementsTyped (depth : Nat) : Prop :=
  ∀ {known : List Function} {outer block : List Binding} {scope : Scope} {returns : Ty} {n : Node}
    {st st₁ : State} {u : Unit}, n.IsStatement valid data → InBlock known outer block scope st →
    Gives (statement scope returns n depth) st u st₁ →
    ∃ block₁, Passed known returns outer block scope [n] st st₁ block₁

lemma Passed.nil (h : InBlock known outer block scope st) :
    Passed known returns outer block scope [] st st block :=
  ⟨h, .refl _ _, fun _ _ _ _ => .nil⟩

lemma Passed.cons {ns : List Node} {block₁ block₂ : List Binding}
    (h : Passed known returns outer block scope [n] st st₁ block₁)
    (hs : Passed known returns outer block₁ scope ns st₁ st₂ block₂) :
    Passed known returns outer block scope (n :: ns) st st₂ block₂ := by
  refine ⟨hs.inBlock, h.grows.trans hs.grows, ?_⟩
  intro root final hle hbelow
  have hfirst := h.typed root final (hs.grows.le.trans hle) fun m hm => by
    rw [List.mem_singleton] at hm
    exact hbelow m (hm ▸ List.mem_cons_self ..)
  cases hfirst with
  | cons hn hnil =>
    cases hnil
    exact .cons hn (hs.typed root final hle fun m hm => hbelow m (List.mem_cons_of_mem _ hm))

/-- A statement that leaves the bindings of its block as they are. -/
lemma Passed.same (h : InBlock known outer block scope st) (hg : st.Grows none st₁)
    (ht : ∀ root final, st₁.Le final → root.Below n →
      Typing.Statement root final known returns outer block n block) :
    Passed known returns outer block scope [n] st st₁ block := by
  refine ⟨h.grows hg (by simp), hg.weaken _, ?_⟩
  intro root final hle hbelow
  exact .cons (ht root final hle (hbelow n (List.mem_singleton_self n))) .nil

lemma statements_typed (ih : StatementsTyped valid data depth) {ns : List Node} {u : Unit}
    (hns : ∀ n ∈ ns, n.IsStatement valid data) (hb : InBlock known outer block scope st)
    (h : Gives (ns.forM fun n => statement scope returns n depth) st u st₁) :
    ∃ block₁, Passed known returns outer block scope ns st st₁ block₁ := by
  induction ns generalizing st block with
  | nil =>
    obtain ⟨_, rfl⟩ := gives_pure.1 h
    exact ⟨block, .nil hb⟩
  | cons n ns ihns =>
    obtain ⟨_, st', hn, hrest⟩ := gives_bind.1 h
    obtain ⟨block₁, hfirst⟩ := ih (hns n (List.mem_cons_self ..)) hb hn
    obtain ⟨block₂, hpassed⟩ :=
      ihns (fun m hm => hns m (List.mem_cons_of_mem _ hm)) hfirst.inBlock hrest
    exact ⟨block₂, hfirst.cons hpassed⟩

lemma State.grows_enter (st : State) (scope : Scope) :
    st.Grows none { st with store := (st.store.enter (some scope)).2 } :=
  ⟨fun _ _ hd => hd, Store.grows_enter (some scope)⟩

/-- What is added to a new scope adds nothing to the scopes around it. -/
lemma State.Grows.of_enter
    (h : State.Grows (some (st.store.enter (some scope)).1.frame)
      { st with store := (st.store.enter (some scope)).2 } st₁) : st.Grows none st₁ :=
  ⟨h.decorations, .of_enter (some scope) h.store⟩

/-- A new scope begins a block of its own. -/
lemma InBlock.enter (h : Scoped known bs scope st) :
    InBlock known bs [] (st.store.enter (some scope)).1
      { st with store := (st.store.enter (some scope)).2 } := by
  refine ⟨⟨?_, ?_, ?_, h.plain, ?_⟩, by simp⟩
  · intro i hi
    rw [Store.size_enter]
    rcases List.mem_cons.1 hi with rfl | hi
    · exact Nat.lt_succ_self _
    · exact Nat.lt_succ_of_lt (h.size i hi)
  · rw [Store.frame_enter, h.functions]
  · intro i hi
    rw [Store.frame_enter, h.others i hi]
  · intro name ref v hv
    rw [Store.findVariable?_enter] at hv
    obtain ⟨hplain, origin, horigin, hcell⟩ := h.finds name ref v hv
    exact ⟨hplain, origin, horigin, (State.grows_enter st scope).le.cell? hcell⟩

/-- Statements in a scope of their own are typed, and add nothing to the scopes around. -/
lemma block_typed (ih : ∀ d < depth, StatementsTyped valid data d) {body : List Node} {u : Unit}
    (hbody : ∀ n ∈ body, n.IsStatement valid data) (hs : Scoped known bs scope st)
    (h : Gives (do LetDef.Analysis.block (← enter scope) returns body depth) st u st₁) :
    st.Grows none st₁ ∧ ∃ block₁, ∀ root final, st₁.Le final → (∀ n ∈ body, root.Below n) →
      Typing.Statements root final known returns bs [] body block₁ := by
  obtain ⟨scope₁, st', henter, h₁⟩ := gives_bind.1 h
  obtain ⟨rfl, rfl⟩ := gives_enter henter
  cases depth with
  | zero =>
    rw [LetDef.Analysis.block] at h₁
    exact absurd h₁ not_gives_tooDeep
  | succ depth =>
    rw [LetDef.Analysis.block] at h₁
    obtain ⟨block₁, hpassed⟩ :=
      statements_typed (ih depth (Nat.lt_succ_self _)) hbody (.enter hs) h₁
    refine ⟨hpassed.grows.of_enter, block₁, ?_⟩
    intro root final hle hbelow
    exact hpassed.typed root final hle hbelow

lemma gives_requireBody {construct : String} {body : List Node} {u : Unit}
    (h : Gives (requireBody site construct body) st u st₁) : st₁ = st := by
  unfold requireBody at h
  split at h
  · exact absurd h not_gives_fail
  · exact (gives_pure.1 h).2

lemma perform_typed {m : Mark} {e : Node} {u : Unit} (he : e.IsExpression valid data)
    (hs : Scoped known bs scope st) (h : Gives (perform scope m e depth) st u st₁) :
    ∃ t, Analysed known bs e t st st₁ := by
  cases depth with
  | zero =>
    rw [perform] at h
    exact absurd h not_gives_tooDeep
  | succ depth =>
    rw [perform.eq_def] at h
    obtain ⟨t, st', hexpression, h₁⟩ := gives_bind.1 h
    split at h₁
    · obtain ⟨_, rfl⟩ := gives_pure.1 h₁
      exact ⟨t, expressionsTyped depth he hs hexpression⟩
    · exact absurd h₁ not_gives_fail

lemma declare_typed {m : Mark} {typeName : Option String} {value : Node} {u : Unit}
    (hv : value.IsOptional valid data) (hb : InBlock known outer block scope st)
    (h : Gives (declare scope m name typeName value depth) st u st₁) :
    Passed known returns outer block scope [.declare m name typeName value] st st₁
      ((name, .declaration m) :: block) := by
  cases depth with
  | zero =>
    rw [declare] at h
    exact absurd h not_gives_tooDeep
  | succ depth =>
    rw [declare] at h
    obtain ⟨found, st', hvalue, h₁⟩ := gives_bind.1 h
    obtain ⟨t, st'', htype, h₂⟩ := gives_bind.1 h₁
    obtain ⟨hgrows, hplain, hfits⟩ := optionalValue_typed hv hb.toScoped hvalue
    have ht := plain_of_declaredType hplain htype
    obtain ⟨rfl, hacc, -⟩ := gives_declaredType htype
    obtain ⟨hb', hgrows', hadds⟩ := define_typed (hb.grows hgrows (by simp)) ht h₂
    refine ⟨hb', (hgrows.weaken _).trans hgrows', ?_⟩
    intro root final hle hbelow
    refine .cons (.declare ?_ (hadds final hle)) .nil
    refine hfits t root final hacc (hgrows'.le.trans hle) ?_
    intro hpresent
    exact .child (hbelow _ (List.mem_singleton_self _)) (by simp [Node.children, hpresent])

lemma branch_typed (ih : ∀ d < depth, StatementsTyped valid data d) {m : Mark} {c : Node}
    {body other : List Node} {u : Unit} (hc : c.IsExpression valid data)
    (hbody : ∀ n ∈ body, n.IsStatement valid data)
    (hother : ∀ n ∈ other, n.IsStatement valid data) (hb : InBlock known outer block scope st)
    (h : Gives (branch scope returns m c body other depth) st u st₁) :
    Passed known returns outer block scope [.branch m c body other] st st₁ block := by
  cases depth with
  | zero =>
    rw [branch] at h
    exact absurd h not_gives_tooDeep
  | succ depth =>
    have ih' : ∀ d < depth, StatementsTyped valid data d :=
      fun d hd => ih d (Nat.lt_succ_of_lt hd)
    rw [branch] at h
    obtain ⟨_, st', hcond, h₁⟩ := gives_bind.1 h
    obtain ⟨_, st'', hnonempty, h₂⟩ := gives_bind.1 h₁
    obtain rfl := gives_requireBody hnonempty
    obtain ⟨scope₁, st₃, henter, h₃⟩ := gives_bind.1 h₂
    obtain ⟨_, st₄, hblock, h₄⟩ := gives_bind.1 h₃
    have hc' := condition_typed hc hb.toScoped hcond
    have hs' := hb.toScoped.grows hc'.grows (by simp)
    obtain ⟨hgrows, block₁, htyped⟩ :=
      block_typed ih' hbody hs' (gives_bind.2 ⟨scope₁, st₃, henter, hblock⟩)
    have hgrows' := hc'.grows.trans hgrows
    split at h₄
    · obtain ⟨hgrows₂, block₂, htyped₂⟩ := block_typed ih' hother (hs'.grows hgrows (by simp)) h₄
      refine .same hb (hgrows'.trans hgrows₂) ?_
      intro root final hle hbelow
      have hbody' := htyped root final (hgrows₂.le.trans hle) fun n hn =>
        .child hbelow (by simp [Node.children, hn])
      have hother' := htyped₂ root final hle fun n hn =>
        .child hbelow (by simp [Node.children, hn])
      refine .branch ?_ hbody' hother'
      exact hc'.typed root final ((hgrows.trans hgrows₂).le.trans hle)
        (.child hbelow (by simp [Node.children]))
    · rename_i hempty
      obtain ⟨_, rfl⟩ := gives_pure.1 h₄
      have hother : other = [] := by simpa using hempty
      subst hother
      refine .same hb hgrows' ?_
      intro root final hle hbelow
      have hbody' := htyped root final hle fun n hn =>
        .child hbelow (by simp [Node.children, hn])
      refine .branch ?_ hbody' .nil
      exact hc'.typed root final (hgrows.le.trans hle) (.child hbelow (by simp [Node.children]))

lemma whileLoop_typed (ih : ∀ d < depth, StatementsTyped valid data d) {m : Mark} {c : Node}
    {body : List Node} {u : Unit} (hc : c.IsExpression valid data)
    (hbody : ∀ n ∈ body, n.IsStatement valid data) (hb : InBlock known outer block scope st)
    (h : Gives (whileLoop scope returns m c body depth) st u st₁) :
    Passed known returns outer block scope [.whileLoop m c body] st st₁ block := by
  cases depth with
  | zero =>
    rw [whileLoop] at h
    exact absurd h not_gives_tooDeep
  | succ depth =>
    rw [whileLoop] at h
    obtain ⟨_, st', hcond, h₁⟩ := gives_bind.1 h
    obtain ⟨_, st'', hnonempty, h₂⟩ := gives_bind.1 h₁
    obtain rfl := gives_requireBody hnonempty
    have hc' := condition_typed hc hb.toScoped hcond
    obtain ⟨hgrows, block₁, htyped⟩ :=
      block_typed (fun d hd => ih d (Nat.lt_succ_of_lt hd)) hbody
        (hb.toScoped.grows hc'.grows (by simp)) h₂
    refine .same hb (hc'.grows.trans hgrows) ?_
    intro root final hle hbelow
    have hbody' := htyped root final hle fun n hn => .child hbelow (by simp [Node.children, hn])
    refine .whileLoop ?_ hbody'
    exact hc'.typed root final (hgrows.le.trans hle) (.child hbelow (by simp [Node.children]))

/-- The first clause of a FOR loop is a statement, or there is none. -/
lemma initializer_typed (ih : StatementsTyped valid data depth) {first : Node} {u : Unit}
    (hi : first = .absent ∨ first.IsDeclaration valid data ∨ first.IsAssignment valid data)
    (hb : InBlock known outer block scope st)
    (h : Gives (if first.isPresent = true then statement scope returns first depth else pure ())
      st u st₁) :
    ∃ clauses, Passed known returns outer block scope ([first].filter Node.isPresent) st st₁
      clauses := by
  rcases hi with rfl | hi
  · obtain ⟨_, rfl⟩ := gives_pure.1 h
    exact ⟨block, .nil hb⟩
  · have hstatement : first.IsStatement valid data := by
      rcases hi with hd | ha
      · exact .declaration hd
      · exact .assignment ha
    have hpresent : first.isPresent = true := by
      rcases hi with hd | ha
      · cases hd
        rfl
      · cases ha
        rfl
    rw [if_pos hpresent] at h
    rw [List.filter_cons_of_pos hpresent]
    exact ih hstatement hb h

/-- The last clause of a FOR loop declares nothing. -/
lemma increment_typed {last : Node} {u : Unit} (hn : last.IsIncrement valid data)
    (hb : InBlock known outer block scope st)
    (h : Gives (if last.isPresent = true then statement scope returns last depth else pure ())
      st u st₁) :
    Passed known returns outer block scope ([last].filter Node.isPresent) st st₁ block := by
  cases hn with
  | none =>
    obtain ⟨_, rfl⟩ := gives_pure.1 h
    exact .nil hb
  | some hr _ hv =>
    cases depth with
    | zero => exact absurd h not_gives_tooDeep
    | succ depth =>
      simp only [Node.isPresent, if_true, statement] at h
      obtain ⟨hgrows, htyped⟩ := assign_typed hr hv hb.toScoped h
      exact .same hb hgrows htyped

lemma forLoop_typed (ih : ∀ d < depth, StatementsTyped valid data d) {m : Mark}
    {first c last : Node} {body : List Node} {u : Unit}
    (hi : first = .absent ∨ first.IsDeclaration valid data ∨ first.IsAssignment valid data)
    (hc : c.IsOptional valid data) (hn : last.IsIncrement valid data)
    (hbody : ∀ n ∈ body, n.IsStatement valid data) (hb : InBlock known outer block scope st)
    (h : Gives (forLoop scope returns m first c last body depth) st u st₁) :
    Passed known returns outer block scope [.forLoop m first c last body] st st₁ block := by
  cases depth with
  | zero =>
    rw [forLoop] at h
    exact absurd h not_gives_tooDeep
  | succ depth =>
    rw [forLoop] at h
    obtain ⟨loop, st', henter, h₁⟩ := gives_bind.1 h
    obtain ⟨rfl, rfl⟩ := gives_enter henter
    obtain ⟨st₂, hfirst, h₂⟩ := gives_ite_bind.1 h₁
    obtain ⟨st₃, hmissing, h₃⟩ := gives_ite_bind.1 h₂
    obtain ⟨_, st₄, hcond, h₄⟩ := gives_bind.1 h₃
    obtain ⟨st₅, hlast, h₅⟩ := gives_ite_bind.1 h₄
    obtain ⟨_, st₆, hnonempty, h₆⟩ := gives_bind.1 h₅
    obtain rfl := gives_requireBody hnonempty
    -- A condition is optional in the grammar and required here.
    have hc' : c.IsExpression valid data := by
      rcases hc with rfl | hc
      · exact absurd hmissing not_gives_fail
      · exact hc
    split at hmissing
    · exact absurd hmissing not_gives_fail
    obtain ⟨_, rfl⟩ := gives_pure.1 hmissing
    obtain ⟨clauses, hclauses⟩ :=
      initializer_typed (ih depth (Nat.lt_succ_self _)) hi (.enter hb.toScoped) hfirst
    have hcond' := condition_typed hc' hclauses.inBlock.toScoped hcond
    have hlast' := increment_typed hn (hclauses.inBlock.grows hcond'.grows (by simp)) hlast
    obtain ⟨hgrows, block₁, htyped⟩ :=
      block_typed (fun d hd => ih d (Nat.lt_succ_of_lt hd)) hbody hlast'.inBlock.toScoped h₆
    have hrest := hlast'.grows.trans (hgrows.weaken _)
    have hall := hclauses.grows.trans ((hcond'.grows.weaken _).trans hrest)
    refine .same hb hall.of_enter ?_
    intro root final hle hbelow
    -- The parts are typed in the final state, in which their decorations still stand.
    have hfirst' := hclauses.typed root final
      (((hcond'.grows.weaken _).trans hrest).le.trans hle) fun n hn => .child hbelow (by
        rcases List.mem_filter.1 hn with ⟨hmem, hpresent⟩
        rw [List.mem_singleton] at hmem
        subst hmem
        simp [Node.children, hpresent])
    have hincrement := hlast'.typed root final (hgrows.le.trans hle) fun n hn => .child hbelow (by
        rcases List.mem_filter.1 hn with ⟨hmem, hpresent⟩
        rw [List.mem_singleton] at hmem
        subst hmem
        simp [Node.children, hpresent])
    have hbody' := htyped root final hle fun n hn => .child hbelow (by simp [Node.children, hn])
    refine .forLoop hfirst' ?_ hincrement hbody'
    exact hcond'.typed root final (hrest.le.trans hle) (.child hbelow (by
      have hpresent : c.isPresent = true := by
        cases hc' <;> rfl
      simp [Node.children, hpresent]))

/-- An analysed statement is typed. -/
theorem statementsTyped (depth : Nat) : StatementsTyped valid data depth := by
  induction depth using Nat.strongRecOn with
  | ind depth ih =>
    intro known outer block scope returns n st st₁ u hn hb h
    cases depth with
    | zero =>
      rw [statement] at h
      exact absurd h not_gives_tooDeep
    | succ depth =>
      have ih' : ∀ d < depth, StatementsTyped valid data d :=
        fun d hd => ih d (Nat.lt_succ_of_lt hd)
      -- Only a declaration changes the block; the other statements leave it as it is.
      cases hn with
      | declaration hd =>
        cases hd with
        | mk _ _ hv =>
          rw [statement] at h
          exact ⟨_, declare_typed hv hb h⟩
      | assignment ha =>
        cases ha with
        | mk hr hv =>
          rw [statement] at h
          obtain ⟨hgrows, htyped⟩ := assign_typed hr hv hb.toScoped h
          exact ⟨block, .same hb hgrows htyped⟩
      | perform he =>
        rw [statement] at h
        obtain ⟨t, he'⟩ := perform_typed he hb.toScoped h
        refine ⟨block, .same hb he'.grows ?_⟩
        intro root final hle hbelow
        exact .perform (he'.typed root final hle (.child hbelow (by simp [Node.children])))
      | branch hc hbody hother =>
        rw [statement] at h
        exact ⟨block, branch_typed ih' hc hbody hother hb h⟩
      | forLoop hi hc hl hbody =>
        rw [statement] at h
        exact ⟨block, forLoop_typed ih' hi hc hl hbody hb h⟩
      | whileLoop hc hbody =>
        rw [statement] at h
        exact ⟨block, whileLoop_typed ih' hc hbody hb h⟩
      | giveBack he =>
        rw [statement] at h
        obtain ⟨t, st', hvalue, hrequire⟩ := gives_bind.1 h
        obtain ⟨hacc, rfl⟩ := gives_require hrequire
        have he' := expressionsTyped depth he hb.toScoped hvalue
        refine ⟨block, .same hb he'.grows ?_⟩
        intro root final hle hbelow
        refine .giveBack ?_ hacc
        exact he'.typed root final hle (.child hbelow (by simp [Node.children]))

/-! ### Fields -/

/-- An analysed field adds a binding to those of the program. -/
lemma field_typed {f : Field} {globals : List Binding} {u : Unit} (hf : f.WellFormed valid data)
    (hb : InBlock known [] globals scope st) (h : Gives (field scope f depth) st u st₁) :
    InBlock known [] ((f.name, .declaration f.mark) :: globals) scope st₁ ∧
      st.Grows (some scope.frame) st₁ ∧
      ∃ t, ∀ root final, st₁.Le final → root.Below f.toNode →
        Typing.Fits root final known globals f.value t ∧
          Typing.Adds final globals f.name (.declaration f.mark) t f.constant := by
  cases depth with
  | zero =>
    rw [field] at h
    exact absurd h not_gives_tooDeep
  | succ depth =>
    rw [field] at h
    obtain ⟨found, st', hvalue, h₁⟩ := gives_bind.1 h
    obtain ⟨st'', hconstant, h₂⟩ := gives_ite_bind.1 h₁
    obtain ⟨t, st₃, htype, h₃⟩ := gives_bind.1 h₂
    split at hconstant
    · exact absurd hconstant not_gives_fail
    obtain ⟨_, rfl⟩ := gives_pure.1 hconstant
    obtain ⟨hgrows, hplain, hfits⟩ := optionalValue_typed hf.value hb.toScoped hvalue
    have ht := plain_of_declaredType hplain htype
    obtain ⟨rfl, hacc, -⟩ := gives_declaredType htype
    obtain ⟨hb', hgrows', hadds⟩ := define_typed (hb.grows hgrows (by simp)) ht h₃
    refine ⟨hb', (hgrows.weaken _).trans hgrows', t, ?_⟩
    intro root final hle hbelow
    refine ⟨?_, hadds final hle⟩
    rw [List.append_nil] at hfits
    refine hfits t root final hacc (hgrows'.le.trans hle) fun hpresent => ?_
    exact .child hbelow (by simp [Field.toNode, Node.children, hpresent])

lemma fields_typed {fs : List Field} {globals : List Binding} {u : Unit}
    (hfs : ∀ f ∈ fs, f.WellFormed valid data) (hb : InBlock known [] globals scope st)
    (h : Gives (fs.forM fun f => field scope f depth) st u st₁) :
    ∃ globals₁, InBlock known [] globals₁ scope st₁ ∧ st.Grows (some scope.frame) st₁ ∧
      ∀ root final, st₁.Le final → (∀ f ∈ fs, root.Below f.toNode) →
        Typing.FieldsTyped root final known globals fs globals₁ := by
  induction fs generalizing st globals with
  | nil =>
    obtain ⟨_, rfl⟩ := gives_pure.1 h
    exact ⟨globals, hb, .refl _ _, fun _ _ _ _ => .nil⟩
  | cons f fs ih =>
    obtain ⟨_, st', hf, hrest⟩ := gives_bind.1 h
    obtain ⟨hb', hgrows, t, htyped⟩ := field_typed (hfs f (List.mem_cons_self ..)) hb hf
    obtain ⟨globals₁, hb₁, hgrows₁, htyped₁⟩ :=
      ih (fun f' hf' => hfs f' (List.mem_cons_of_mem _ hf')) hb' hrest
    refine ⟨globals₁, hb₁, hgrows.trans hgrows₁, ?_⟩
    intro root final hle hbelow
    obtain ⟨hfits, hadds⟩ :=
      htyped root final (hgrows₁.le.trans hle) (hbelow f (List.mem_cons_self ..))
    refine .cons hfits hadds (htyped₁ root final hle fun f' hf' => ?_)
    exact hbelow f' (List.mem_cons_of_mem _ hf')

/-! ### Methods -/

lemma gives_types {names : List String} {ts : List Ty}
    (h : Gives (names.mapM fun name => resolve site (Ty.ofName name)) st ts st₁) :
    st₁ = st ∧ names.mapM Ty.ofName = .ok ts ∧ ts.length = names.length ∧
      ∀ t ∈ ts, t.members? = none := by
  induction names generalizing ts with
  | nil =>
    obtain ⟨rfl, rfl⟩ := gives_pure.1 h
    exact ⟨rfl, rfl, rfl, by simp⟩
  | cons name names ih =>
    rw [List.mapM_cons] at h
    obtain ⟨t, st', hname, h₁⟩ := gives_bind.1 h
    obtain ⟨ts', st'', hrest, hp⟩ := gives_bind.1 h₁
    obtain ⟨htype, rfl⟩ := gives_resolve hname
    obtain ⟨rfl, rfl⟩ := gives_pure.1 hp
    obtain ⟨rfl, hnames, hlength, hplain⟩ := ih hrest
    refine ⟨rfl, ?_, by simp [hlength], ?_⟩
    · rw [List.mapM_cons, htype, hnames]
      rfl
    intro t' ht'
    rcases List.mem_cons.1 ht' with rfl | ht'
    · exact ofName_plain htype
    · exact hplain t' ht'

lemma gives_returnType {m : Method} (h : Gives (returnType m) st t st₁) :
    st₁ = st ∧ t.members? = none ∧ m.returns = .ok t := by
  unfold returnType at h
  unfold Method.returns
  split at h
  · rename_i name hreturns
    obtain ⟨hname, rfl⟩ := gives_resolve h
    rw [hreturns]
    exact ⟨rfl, ofName_plain hname, hname⟩
  · rename_i hreturns
    obtain ⟨rfl, rfl⟩ := gives_pure.1 h
    rw [hreturns]
    exact ⟨rfl, rfl, rfl⟩

/-- Parameters add their bindings to the block of a method. -/
lemma parameters_typed {m : Mark} {k : Nat} {names : List String} {ts : List Ty} {u : Unit}
    (hb : InBlock known outer block scope st) (hlength : ts.length = names.length)
    (hplain : ∀ t ∈ ts, t.members? = none)
    (hcells : ∀ i t, ts[i]? = some t → st.cell? (.parameter m (k + i)) = some (t, false))
    (h : Gives (defineParameters site scope (names.zip ts)) st u st₁) :
    st.Grows (some scope.frame) st₁ ∧ ∃ block₁, InBlock known outer block₁ scope st₁ ∧
      ∀ final, st₁.Le final → Typing.Parameters final m k names ts block block₁ := by
  induction names generalizing ts st k block with
  | nil =>
    rw [List.length_nil, List.length_eq_zero_iff] at hlength
    subst hlength
    obtain ⟨_, rfl⟩ := gives_pure.1 h
    exact ⟨.refl _ _, block, hb, fun _ _ => .nil⟩
  | cons name names ih =>
    obtain ⟨t, ts, rfl⟩ := List.exists_cons_of_length_eq_add_one hlength
    rw [List.length_cons, List.length_cons, Nat.add_right_cancel_iff] at hlength
    obtain ⟨_, st', hadd, hrest⟩ := gives_bind.1 h
    obtain ⟨hnew, rfl⟩ := gives_addVariable hadd
    have hsize := hb.size scope.frame (List.mem_cons_self ..)
    have hgrows : st.Grows (some scope.frame)
        { st with store := st.store.addVariable scope ⟨name, name, t, false, .unset⟩ } :=
      ⟨fun _ _ hd => hd, Store.grows_addVariable hsize⟩
    have hcell := hgrows.le.cell? (hcells 0 t rfl)
    have hb' := hb.add hnew (hplain t (List.mem_cons_self ..)) hgrows.le rfl hcell
    obtain ⟨hgrows', block₁, hb₁, htyped⟩ := ih hb' hlength
      (fun t' ht' => hplain t' (List.mem_cons_of_mem _ ht'))
      (fun i t' ht' => by
        have hnext := hgrows.le.cell? (hcells (i + 1) t' ht')
        rwa [Nat.add_comm i 1, ← Nat.add_assoc] at hnext) hrest
    refine ⟨hgrows.trans hgrows', block₁, hb₁, ?_⟩
    intro final hle
    exact .cons ⟨hb.fresh hnew, (hgrows'.le.trans hle).cell? hcell⟩ (htyped final hle)

lemma State.le_addFunction {g : Function} (h : scope.frame < st.store.frames.size) :
    st.Le { st with store := st.store.addFunction scope g } where
  decorations _ _ hd := hd
  outline i := by
    unfold Frame.outline
    rw [Store.vars_addFunction]
  functions i := Store.functions_addFunction_prefix h

/-- A function that is added to the outermost frame is known from then on. -/
lemma Scoped.addFunction {g : Function} (h : Scoped known bs ⟨0, []⟩ st)
    (hplain : g.returns.members? = none) (hle : st.Le st₁)
    (hstore : st₁.store = st.store.addFunction ⟨0, []⟩ g) :
    Scoped (known ++ [g]) bs ⟨0, []⟩ st₁ := by
  have hsize := h.size 0 (List.mem_cons_self ..)
  refine ⟨?_, ?_, ?_, ?_, ?_⟩
  · intro i hi
    rw [hstore, Store.size_addFunction]
    exact h.size i hi
  · rw [hstore, Store.functions_addFunction_self hsize, h.functions]
  · intro i hi
    rw [hstore, Store.frame_addFunction_of_ne hi, h.others i hi]
  · intro g' hg'
    rcases List.mem_append.1 hg' with hg' | hg'
    · exact h.plain g' hg'
    · rw [List.mem_singleton] at hg'
      rw [hg']
      exact hplain
  · intro name ref v hv
    rw [hstore, Store.findVariable?_addFunction] at hv
    obtain ⟨hplain', origin, horigin, hcell⟩ := h.finds name ref v hv
    exact ⟨hplain', origin, horigin, hle.cell? hcell⟩

/-- A method whose function is added and noted is known, with its parameters and its type. -/
lemma signature_typed {m : Method} {globals : List Binding} {g : Function} {u v : Unit}
    (hs : Scoped known globals ⟨0, []⟩ st) (hplain : g.returns.members? = none)
    (hadd : Gives (addFunction site ⟨0, []⟩ g) st u st₁)
    (hd : Gives (decorate m.mark .method (.function ⟨0, g.name, g.arity⟩)) st₁ v st₂) :
    named? known g.name g.arity = none ∧ Scoped (known ++ [g]) globals ⟨0, []⟩ st₂ ∧ st.Le st₂ ∧
      st₂.returns? m = some g.returns ∧
      ∀ i t, g.parameters[i]? = some t → st₂.cell? (.parameter m.mark i) = some (t, false) := by
  obtain ⟨hnew, rfl⟩ := gives_addFunction hadd
  obtain ⟨hstore, hget, _⟩ := gives_decorate hd
  have hnone : named? known g.name g.arity = none := by
    rw [← hs.functions]
    exact hnew
  have hle : st.Le st₂ :=
    (State.le_addFunction (hs.size 0 (List.mem_cons_self ..))).trans (grows_decorate hd).le
  have hs₂ := hs.addFunction hplain hle hstore
  have hfind : st₂.store.getFunction? ⟨0, g.name, g.arity⟩ = some g := by
    have hkey : named? (known ++ [g]) g.name g.arity = some g := by
      unfold named? at hnone ⊢
      rw [List.find?_append, hnone]
      simp
    rw [← hs₂.functions] at hkey
    exact hkey
  refine ⟨hnone, hs₂, hle, ?_, ?_⟩
  · simp only [State.returns?, hget, hfind, Option.map_some]
  · intro i t ht
    simp only [State.cell?, hget, hfind, Option.bind_some, ht, Option.map_some]

/-- An analysed method is typed with itself and the functions before it known. -/
lemma method_typed {m : Method} {globals : List Binding} {u : Unit}
    (hm : m.WellFormed valid data) (hs : Scoped known globals ⟨0, []⟩ st)
    (h : Gives (method ⟨0, []⟩ m depth) st u st₁) :
    ∃ g, named? known g.name g.arity = none ∧ Scoped (known ++ [g]) globals ⟨0, []⟩ st₁ ∧
      st.Le st₁ ∧ ∀ root final, st₁.Le final → root.Below m.toNode →
        Typing.MethodTyped root final (known ++ [g]) globals m g := by
  cases depth with
  | zero =>
    rw [method] at h
    exact absurd h not_gives_tooDeep
  | succ depth =>
    rw [method] at h
    obtain ⟨ts, st', htypes, h₁⟩ := gives_bind.1 h
    obtain ⟨returns, st'', hreturns, h₂⟩ := gives_bind.1 h₁
    obtain ⟨_, st₃, hadd, h₃⟩ := gives_bind.1 h₂
    obtain ⟨_, st₄, hdecorate, h₄⟩ := gives_bind.1 h₃
    obtain ⟨scope, st₅, henter, h₅⟩ := gives_bind.1 h₄
    obtain ⟨_, st₆, hparameters, hbody⟩ := gives_bind.1 h₅
    obtain ⟨rfl, -, hlength, hplain⟩ := gives_types htypes
    obtain ⟨rfl, hrplain, hdeclared⟩ := gives_returnType hreturns
    -- The method is among the known functions from here on, for its own body too.
    obtain ⟨hnone, hs₄, hle, hreturned, hcells⟩ := signature_typed hs hrplain hadd hdecorate
    obtain ⟨rfl, rfl⟩ := gives_enter henter
    obtain ⟨hgrows, block, hb, hparams⟩ :=
      parameters_typed (m := m.mark) (k := 0) (.enter hs₄) (hlength.trans hm.types_length) hplain
        (fun i t ht => by
          rw [Nat.zero_add]
          exact (State.grows_enter st₄ ⟨0, []⟩).le.cell? (hcells i t ht)) hparameters
    obtain ⟨block₁, hpassed⟩ := statements_typed (statementsTyped depth) hm.body hb hbody
    have hgrows₁ := (hgrows.trans hpassed.grows).of_enter
    refine ⟨_, hnone, hs₄.grows hgrows₁ (by simp), hle.trans hgrows₁.le, ?_⟩
    intro root final hfinal hbelow
    refine ⟨hbelow, rfl, hdeclared, (hgrows₁.le.trans hfinal).returns? hreturned, block, block₁,
      hparams final (hpassed.grows.le.trans hfinal), ?_⟩
    refine hpassed.typed root final hfinal fun n hn => ?_
    exact .child hbelow (by simpa [Method.toNode, Node.children] using hn)

lemma methods_typed {ms : List Method} {globals : List Binding} {u : Unit}
    (hms : ∀ m ∈ ms, m.WellFormed valid data) (hs : Scoped known globals ⟨0, []⟩ st)
    (h : Gives (ms.forM fun m => method ⟨0, []⟩ m depth) st u st₁) :
    ∃ known₁, Scoped known₁ globals ⟨0, []⟩ st₁ ∧ st.Le st₁ ∧
      ∀ root final, st₁.Le final → (∀ m ∈ ms, root.Below m.toNode) →
        Typing.MethodsTyped root final globals known ms known₁ := by
  induction ms generalizing st known with
  | nil =>
    obtain ⟨_, rfl⟩ := gives_pure.1 h
    exact ⟨known, hs, .refl _, fun _ _ _ _ => .nil⟩
  | cons m ms ih =>
    obtain ⟨_, st', hm, hrest⟩ := gives_bind.1 h
    obtain ⟨g, hnone, hs', hle, htyped⟩ := method_typed (hms m (List.mem_cons_self ..)) hs hm
    obtain ⟨known₁, hs₁, hle₁, htyped₁⟩ :=
      ih (fun m' hm' => hms m' (List.mem_cons_of_mem _ hm')) hs' hrest
    refine ⟨known₁, hs₁, hle.trans hle₁, ?_⟩
    intro root final hfinal hbelow
    refine .cons hnone ?_ (htyped₁ root final hfinal fun m' hm' => ?_)
    · exact htyped root final (hle₁.trans hfinal) (hbelow m (List.mem_cons_self ..))
    · exact hbelow m' (List.mem_cons_of_mem _ hm')

/-! ### Programs -/

/-- The state in which the analysis of a program without names from outside begins. -/
def initial : State :=
  { store := (globalScope none {}).2 }

lemma initial_inBlock : InBlock [Analysis.printFunction] [] [] ⟨0, []⟩ initial where
  size := by decide
  functions := rfl
  others i hi := by
    have hne : i ≠ (({} : Store).enter none).1.frame := hi
    unfold initial globalScope
    rw [Store.frame_addFunction_of_ne hne, Store.frame_enter,
      Store.frame_of_size_le (Nat.zero_le i)]
  plain := by decide
  finds name ref v hv := by
    have hnone : initial.store.findVariable? ⟨0, []⟩ name = none := by
      unfold initial globalScope
      rw [Store.findVariable?_addFunction]
      rfl
    rw [hnone] at hv
    cases hv
  defined := by simp

lemma gives_findMain {g : Function} (h : Gives (findMain scope site) st g st₁) :
    st₁ = st ∧ ∃ ref, st.store.findFunction? scope "main" 0 = some (ref, g) := by
  unfold Gives at h
  rw [outcome_findMain] at h
  cases hlookup : st.store.lookupFunction scope "main" 0 with
  | error e =>
    rw [hlookup] at h
    cases h
  | ok found =>
    rw [hlookup] at h
    cases h
    exact ⟨rfl, found.1, Store.findFunction?_of_lookup hlookup⟩

lemma gives_requireMain {u : Unit} (hs : Scoped known bs scope st)
    (h : Gives (requireMain scope site) st u st₁) :
    st₁ = st ∧ ∃ g, named? known "main" 0 = some g ∧ g.returns = .integer := by
  unfold requireMain at h
  obtain ⟨g, _, hmain, hreturns⟩ := gives_bind.1 h
  obtain ⟨rfl, ref, hfind⟩ := gives_findMain hmain
  split at hreturns
  · rename_i hinteger
    exact ⟨(gives_pure.1 hreturns).2, g, hs.named? hfind, hinteger⟩
  · exact absurd hreturns not_gives_fail

/-- An analysed program is typed. -/
theorem program_typed {p : Program} {u : Unit} (hp : p.WellFormed valid data)
    (h : Gives (program depth ⟨0, []⟩ p) initial u final) :
    ∃ globals known, Typing.ProgramTyped final p globals known := by
  unfold program at h
  obtain ⟨_, st, hfields, h₁⟩ := gives_bind.1 h
  obtain ⟨_, st', hmethods, hmain⟩ := gives_bind.1 h₁
  obtain ⟨globals, hb, hgrows, hftyped⟩ := fields_typed hp.fields initial_inBlock hfields
  have hs := hb.toScoped
  rw [List.append_nil] at hs
  obtain ⟨known, hs', hle, hmtyped⟩ := methods_typed hp.methods hs hmethods
  obtain ⟨rfl, hinteger⟩ := gives_requireMain hs' hmain
  refine ⟨globals, known, ?_, ?_, hinteger⟩
  · refine hftyped p.toNode final hle fun f hf => ?_
    exact .child .root (List.mem_append_left _ (List.mem_map_of_mem hf))
  · refine hmtyped p.toNode final (.refl _) fun m hm => ?_
    exact .child .root (List.mem_append_right _ (List.mem_map_of_mem hm))

end LetDef.Analysis

namespace LetDef

/-- A program that is read from a text is well formed. -/
lemma Program.wellFormed_of_ofText {file source : String} {p : Program}
    (h : Program.ofText file source = .ok p) :
    p.WellFormed (fun _ => True) Grammar.anyData := by
  unfold Program.ofText at h
  cases hscan : Token.scan file source with
  | error e =>
    rw [hscan] at h
    cases h
  | ok tokens =>
    rw [hscan] at h
    cases hread : Program.ofTokens Parser.maxDepth tokens with
    | error e =>
      simp [Except.mapError, hread, bind, Except.bind] at h
    | ok q =>
      have hok : (Except.ok q : Except Failure Program) = .ok p := by
        simpa [Except.mapError, hread, bind, Except.bind] using h
      cases hok
      exact (Program.source_of_ofTokens (Token.scan_shape hscan) hread).wellFormed
        (fun _ _ => trivial) trivial

/-- A program that passes the check was analysed to its end. -/
lemma Program.gives_of_check {p : Program} {c : Checked} (h : p.check = .ok c) :
    c.program = p.numbered ∧
      ∃ u, Gives (Analysis.program Analysis.maxDepth ⟨0, []⟩ p.numbered) Analysis.initial u
        c.state := by
  unfold Program.check at h
  split at h
  rename_i globals store hscope
  cases hscope
  split at h
  · rename_i u state hends
    cases h
    have hanalyze : outcome (Analysis.analyze Analysis.maxDepth ⟨0, []⟩ p) Analysis.initial
        = (.ok u, state) := hends
    rw [Analysis.outcome_analyze] at hanalyze
    rcases hrun : outcome (Analysis.program Analysis.maxDepth ⟨0, []⟩ p.numbered)
        Analysis.initial with ⟨halt | u', state'⟩
    · rw [hrun] at hanalyze
      cases halt <;> cases hanalyze
    · rw [hrun] at hanalyze
      cases hanalyze
      exact ⟨rfl, u', hrun⟩
  · cases h

/-- A text that passes the check is a typed program. -/
theorem check_typed {file source : String} {c : Checked} (h : check file source = .ok c) :
    ∃ globals known, Typing.ProgramTyped c.state c.program globals known := by
  unfold check at h
  cases hread : Program.ofText file source with
  | error e =>
    rw [hread] at h
    cases h
  | ok p =>
    rw [hread] at h
    obtain ⟨hprogram, u, hgives⟩ := Program.gives_of_check h
    rw [hprogram]
    exact Analysis.program_typed (Program.wellFormed_of_ofText hread).numbered hgives

end LetDef
