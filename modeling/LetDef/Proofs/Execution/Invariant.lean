import LetDef.Proofs.Execution.Conformance
import LetDef.Proofs.Execution.Step
import LetDef.Proofs.Store.Growth

/-!
# The invariant of a run

A run of a typed program is followed by its journal. At each moment every variable that was made
for a declaration or a parameter holds nil or a value of its type, every expression has yielded nil
or a value of its type, and so has every method. `Inv` adds to this what the next step needs: that
the scopes of the run find the variables which the bindings of the type system name, and that the
functions of the run are those which analysis knew.
-/

namespace LetDef.Execution

open LetDef.Typing

/-! ### Moments -/

/-- The moments that a run has recorded. -/
def World.log (w : World) : Journal :=
  w.journal.getD []

/-- The event is in the journal. -/
def Occurs (j : Journal) (e : Event) : Prop :=
  ∃ m ∈ j, m.event = e

/-- The event is the last in the journal. -/
def Latest (j : Journal) (e : Event) : Prop :=
  ∃ s earlier, j = ⟨e, s⟩ :: earlier

/-- A variable was made for the origin. -/
def Created (j : Journal) (origin : Origin) (ref : VariableRef) : Prop :=
  Occurs j (.created origin ref)

/-- What an expression or a method yields is nil or of the type that analysis gave it. -/
def Event.Typed (root : Node) (final : Analysis.State) : Event → Prop
  | .evaluated n o => ∃ t, Noted root final n t ∧ t.Admits o.value
  | .returned m o => ∃ t, root.Below m.toNode ∧ m.returns = .ok t ∧ final.returns? m = some t ∧
    t.Admits o.value
  | _ => True

/-- The variables of the store are those that were made. Each holds nil or a value of its type, and
is a constant if declared so. -/
structure CellsTyped (final : Analysis.State) (j : Journal) (s : Store) : Prop where
  typed : ∀ origin ref, Created j origin ref → ∃ t v, final.cell? origin = some (t, v.constant) ∧
    s.getVariable? ref = some v ∧ t.Admits v.value.value
  made : ∀ ref v, s.getVariable? ref = some v → ∃ origin, Created j origin ref

/-- The run keeps a journal, all of whose moments are typed, and so is the present. -/
structure Tracked (root : Node) (final : Analysis.State) (w : World) : Prop where
  kept : w.journal = some w.log
  moments : ∀ m earlier, (m :: earlier) <:+ w.log →
    m.event.Typed root final ∧ CellsTyped final (m :: earlier) m.store
  cells : CellsTyped final w.log w.store
  unique : ∀ origin origin' ref, Created w.log origin ref → Created w.log origin' ref →
    origin = origin'

variable {root : Node} {final : Analysis.State} {w w₁ w₂ : World} {e : Event} {s : Store}
  {own : Option FrameId} {origin : Origin} {ref : VariableRef} {j k : Journal}
  {outer block bs : List Binding} {scope : Scope} {name : String} {t : Ty}

lemma Occurs.mono (h : Occurs j e) (hjk : j <:+ k) : Occurs k e := by
  obtain ⟨m, hm, he⟩ := h
  exact ⟨m, hjk.subset hm, he⟩

lemma Latest.occurs (h : Latest j e) : Occurs j e := by
  obtain ⟨s, earlier, rfl⟩ := h
  exact ⟨_, List.mem_cons_self .., rfl⟩

lemma occurs_cons {m : Moment} : Occurs (m :: j) e ↔ m.event = e ∨ Occurs j e := by
  unfold Occurs
  simp

lemma World.log_after (h : w.journal = some w.log) : (w.after e s).log = ⟨e, s⟩ :: w.log := by
  unfold World.log World.after
  rw [h]
  rfl

lemma World.kept_after (h : w.journal = some w.log) :
    (w.after e s).journal = some (w.after e s).log := by
  rw [w.log_after h]
  unfold World.after
  rw [h]
  rfl

namespace Tracked

lemma log_after (h : Tracked root final w) : (w.after e s).log = ⟨e, s⟩ :: w.log :=
  w.log_after h.kept

lemma suffix_after (h : Tracked root final w) : w.log <:+ (w.after e s).log := by
  rw [h.log_after]
  exact List.suffix_cons _ _

/-- An event is recorded: what is left to show is the present. -/
lemma after (h : Tracked root final w) (he : e.Typed root final)
    (hcells : CellsTyped final (⟨e, s⟩ :: w.log) s)
    (hunique : ∀ origin origin' ref, Created (⟨e, s⟩ :: w.log) origin ref →
      Created (⟨e, s⟩ :: w.log) origin' ref → origin = origin') :
    Tracked root final (w.after e s) := by
  have hlog := h.log_after (e := e) (s := s)
  refine ⟨w.kept_after h.kept, ?_, ?_, ?_⟩
  · intro m earlier hm
    rw [hlog, List.suffix_cons_iff] at hm
    rcases hm with heq | hm
    · cases heq
      exact ⟨he, hcells⟩
    · exact h.moments m earlier hm
  · rw [hlog]
    exact hcells
  · rw [hlog]
    exact hunique

/-- An event that makes no variable and leaves all as they are. -/
lemma after_same (h : Tracked root final w) (he : e.Typed root final)
    (hnot : ∀ origin ref, e ≠ .created origin ref)
    (hs : ∀ ref, s.getVariable? ref = w.store.getVariable? ref) :
    Tracked root final (w.after e s) := by
  have hcreated {origin ref} (hc : Created (⟨e, s⟩ :: w.log) origin ref) :
      Created w.log origin ref := by
    rcases occurs_cons.1 hc with heq | hc
    · exact absurd heq (hnot origin ref)
    · exact hc
  refine h.after he ⟨?_, ?_⟩ ?_
  · intro origin ref hc
    obtain ⟨t, v, hcell, hv, ha⟩ := h.cells.typed origin ref (hcreated hc)
    exact ⟨t, v, hcell, by rw [hs, hv], ha⟩
  · intro ref v hv
    rw [hs] at hv
    obtain ⟨origin, hc⟩ := h.cells.made ref v hv
    exact ⟨origin, occurs_cons.2 (.inr hc)⟩
  · intro origin origin' ref hc hc'
    exact h.unique origin origin' ref (hcreated hc) (hcreated hc')

/-- A variable is made for an origin with an object of its type. -/
lemma addVariable {v : Variable} (h : Tracked root final w)
    (hsize : scope.frame < w.store.frames.size)
    (hnew : (w.store.frame scope.frame).getVariable? v.name = none)
    (hcell : final.cell? origin = some (t, v.constant)) (hv : t.Admits v.value.value) :
    Tracked root final
      (w.after (.created origin ⟨scope.frame, v.name⟩) (w.store.addVariable scope v)) := by
  -- No variable was made at the address before, since it would be there still.
  have hfirst {origin'} (hc : Created w.log origin' ⟨scope.frame, v.name⟩) : False := by
    obtain ⟨_, v', _, hv', _⟩ := h.cells.typed origin' _ hc
    rw [Store.getVariable?, hnew] at hv'
    cases hv'
  refine h.after trivial ⟨?_, ?_⟩ ?_
  · intro origin' ref hc
    rcases occurs_cons.1 hc with heq | hc
    · cases heq
      exact ⟨t, v, hcell, Store.getVariable?_addVariable_self hsize hnew, hv⟩
    · obtain ⟨t', v', hcell', hv', ha⟩ := h.cells.typed origin' ref hc
      refine ⟨t', v', hcell', ?_, ha⟩
      rw [Store.getVariable?_addVariable_of_ref_ne, hv']
      rintro rfl
      exact hfirst hc
  · intro ref v' hv'
    by_cases hself : ref = ⟨scope.frame, v.name⟩
    · exact ⟨origin, occurs_cons.2 (.inl (by rw [hself]))⟩
    · rw [Store.getVariable?_addVariable_of_ref_ne hself] at hv'
      obtain ⟨origin', hc⟩ := h.cells.made ref v' hv'
      exact ⟨origin', occurs_cons.2 (.inr hc)⟩
  · intro origin₁ origin₂ ref hc₁ hc₂
    rcases occurs_cons.1 hc₁ with heq₁ | hc₁ <;> rcases occurs_cons.1 hc₂ with heq₂ | hc₂
    · cases heq₁
      cases heq₂
      rfl
    · cases heq₁
      exact (hfirst hc₂).elim
    · cases heq₂
      exact (hfirst hc₁).elim
    · exact h.unique _ _ ref hc₁ hc₂

/-- A variable is given an object of the type of its origin. -/
lemma setVariable {v : Variable} {o : Object} {access : Node} (h : Tracked root final w)
    (hc : Created w.log origin ref) (hv : w.store.getVariable? ref = some v)
    (hcell : final.cell? origin = some (t, v.constant)) (ho : t.Admits o.value) :
    Tracked root final (w.after (.assigned scope access ref) (w.store.setVariable ref o)) := by
  have hcreated {origin' ref'}
      (hc : Created (⟨.assigned scope access ref, w.store.setVariable ref o⟩ :: w.log) origin'
        ref') : Created w.log origin' ref' := by
    rcases occurs_cons.1 hc with heq | hc
    · cases heq
    · exact hc
  refine h.after trivial ⟨?_, ?_⟩ ?_
  · intro origin' ref' hc₁
    have hc' := hcreated hc₁
    by_cases href : ref' = ref
    · subst href
      obtain rfl := h.unique origin origin' ref' hc hc'
      exact ⟨t, { v with value := o }, hcell, Store.getVariable?_setVariable_self hv, ho⟩
    · obtain ⟨t', v', hcell', hv', ha⟩ := h.cells.typed origin' ref' hc'
      refine ⟨t', v', hcell', ?_, ha⟩
      rw [Store.getVariable?_setVariable_of_ne hv href, hv']
  · intro ref' v' hv'
    by_cases href : ref' = ref
    · exact ⟨origin, occurs_cons.2 (.inr (href ▸ hc))⟩
    · rw [Store.getVariable?_setVariable_of_ne hv href] at hv'
      obtain ⟨origin', hc'⟩ := h.cells.made ref' v' hv'
      exact ⟨origin', occurs_cons.2 (.inr hc')⟩
  · intro origin₁ origin₂ ref' hc₁ hc₂
    exact h.unique _ _ ref' (hcreated hc₁) (hcreated hc₂)

end Tracked

/-! ### Scopes -/

/-- From the world `w` to `w₁` the store grows and the journal goes on. -/
structure Step (own : Option FrameId) (w w₁ : World) : Prop where
  store : w.store.Grows own w₁.store
  log : w.log <:+ w₁.log

lemma Step.refl (own : Option FrameId) (w : World) : Step own w w :=
  ⟨.refl own w.store, List.suffix_rfl⟩

lemma Step.trans (h : Step own w w₁) (h' : Step own w₁ w₂) : Step own w w₂ :=
  ⟨h.store.trans h'.store, h.log.trans h'.log⟩

lemma Step.weaken (h : Step none w w₁) (own : Option FrameId) : Step own w w₁ :=
  ⟨h.store.weaken own, h.log⟩

/-- A scope of a run finds the variables that the bindings name. The outermost frame is one of its
frames. -/
structure Sees (bs : List Binding) (scope : Scope) (w : World) : Prop where
  size : ∀ i ∈ scope.chain, i < w.store.frames.size
  home : 0 ∈ scope.chain
  finds : ∀ name origin, bs.lookup name = some origin →
    ∃ ref v, w.store.findVariable? scope name = some (ref, v) ∧ Created w.log origin ref

/-- A scope whose own frame has at most the variables that the bindings of its block name. -/
structure Holds (outer block : List Binding) (scope : Scope) (w : World) : Prop
    extends Sees (block ++ outer) scope w where
  own : ∀ v ∈ (w.store.frame scope.frame).vars, v.name ∈ block.map Prod.fst

/-- A scope of a method. -/
structure Inside (outer block : List Binding) (scope : Scope) (w : World) : Prop
    extends Holds outer block scope w where
  inner : scope.frame ≠ 0

/-- A scope sees what it saw while other frames grow. -/
lemma Sees.step (h : Sees bs scope w) (hs : Step own w w₁)
    (hown : ∀ i ∈ scope.chain, own ≠ some i) : Sees bs scope w₁ where
  size i hi := Nat.lt_of_lt_of_le (h.size i hi) hs.store.size
  home := h.home
  finds name origin ho := by
    obtain ⟨ref, v, hv, hc⟩ := h.finds name origin ho
    obtain ⟨v', hv', _⟩ := hs.store.findVariable? h.size hown hv
    exact ⟨ref, v', hv', Occurs.mono hc hs.log⟩

lemma names_of_outline {f g : Frame} (h : f.outline = g.outline) :
    f.vars.map Variable.name = g.vars.map Variable.name := by
  have hnames := congrArg (List.map Prod.fst) h
  simpa [Frame.outline, List.map_map, Function.comp_def] using hnames

lemma Holds.step (h : Holds outer block scope w) (hs : Step own w w₁)
    (hown : ∀ i ∈ scope.chain, own ≠ some i) : Holds outer block scope w₁ where
  toSees := h.toSees.step hs hown
  own v hv := by
    have hself : scope.frame ∈ scope.chain := List.mem_cons_self ..
    have hnames := names_of_outline
      (hs.store.others scope.frame (h.size _ hself) (hown _ hself))
    have hmem : v.name ∈ (w.store.frame scope.frame).vars.map Variable.name := by
      rw [← hnames]
      exact List.mem_map_of_mem hv
    obtain ⟨v', hv', heq⟩ := List.mem_map.1 hmem
    rw [← heq]
    exact h.own v' hv'

/-- A name that is new to the block is new to the frame. -/
lemma Holds.fresh (h : Holds outer block scope w) (hname : name ∉ block.map Prod.fst) :
    (w.store.frame scope.frame).getVariable? name = none := by
  unfold Frame.getVariable?
  rw [List.find?_eq_none]
  intro v hv heq
  rw [beq_iff_eq] at heq
  exact hname (heq ▸ h.own v hv)

/-- A new scope sees what the scope around it does. -/
lemma Sees.enter (h : Sees bs scope w) (hlog : w.log <:+ w₁.log)
    (hs : w₁.store = (w.store.enter (some scope)).2) :
    Inside bs [] (w.store.enter (some scope)).1 w₁ where
  size i hi := by
    rw [hs, Store.size_enter]
    rcases List.mem_cons.1 hi with rfl | hi
    · exact Nat.lt_succ_self _
    · exact Nat.lt_succ_of_lt (h.size i hi)
  home := List.mem_cons_of_mem _ h.home
  finds name origin ho := by
    obtain ⟨ref, v, hv, hc⟩ := h.finds name origin ho
    refine ⟨ref, v, ?_, Occurs.mono hc hlog⟩
    rw [hs, Store.findVariable?_enter, hv]
  inner := Nat.ne_of_gt (Nat.lt_of_le_of_lt (Nat.zero_le 0) (h.size 0 h.home))
  own v hv := by
    have hempty : (w₁.store.frame w.store.frames.size).vars = [] := by
      rw [hs, Store.frame_enter, Store.frame_of_size_le (Nat.le_refl _)]
    rw [show (w.store.enter (some scope)).1.frame = w.store.frames.size from rfl, hempty] at hv
    cases hv

/-- A scope with a variable more has a binding more. -/
lemma Sees.add {v : Variable} (h : Sees (block ++ outer) scope w)
    (hnew : (w.store.frame scope.frame).getVariable? v.name = none)
    (hlog : w₁.log = ⟨.created origin ⟨scope.frame, v.name⟩, w₁.store⟩ :: w.log)
    (hs : w₁.store = w.store.addVariable scope v) :
    Sees ((v.name, origin) :: block ++ outer) scope w₁ where
  size i hi := by
    rw [hs]
    exact Nat.lt_of_lt_of_eq (h.size i hi) Store.size_modifyFrame.symm
  home := h.home
  finds name' origin' ho := by
    rw [hlog, hs]
    by_cases hname : name' = v.name
    · subst hname
      rw [List.cons_append, List.lookup_cons_self] at ho
      cases ho
      have hsize := h.size scope.frame (List.mem_cons_self ..)
      exact ⟨_, v, Store.findVariable?_addVariable_self hsize hnew, occurs_cons.2 (.inl rfl)⟩
    · rw [List.cons_append, List.lookup_cons, beq_false_of_ne hname] at ho
      obtain ⟨ref, v', hv', hc⟩ := h.finds name' origin' ho
      refine ⟨ref, v', ?_, occurs_cons.2 (.inr hc)⟩
      rw [Store.findVariable?_addVariable_of_ne hname, hv']

lemma Holds.add {v : Variable} (h : Holds outer block scope w)
    (hnew : (w.store.frame scope.frame).getVariable? v.name = none)
    (hlog : w₁.log = ⟨.created origin ⟨scope.frame, v.name⟩, w₁.store⟩ :: w.log)
    (hs : w₁.store = w.store.addVariable scope v) :
    Holds outer ((v.name, origin) :: block) scope w₁ where
  toSees := h.toSees.add hnew hlog hs
  own v' hv' := by
    have hsize := h.size scope.frame (List.mem_cons_self ..)
    rw [hs, Store.frame_addVariable_self hsize] at hv'
    rcases List.mem_append.1 hv' with hv' | hv'
    · exact List.mem_cons_of_mem _ (h.own v' hv')
    · rw [List.mem_singleton] at hv'
      rw [hv']
      exact List.mem_cons_self ..

/-! ### Functions -/

/-- A typed program as a run sees it: its tree, what analysis knows in the end, and the functions
and global variables that its methods may use. -/
structure Setting where
  root : Node
  final : Analysis.State
  known : List Function
  globals : List Binding

namespace Setting

/-- The function of a run behaves as the one that analysis knows. -/
inductive Implements (S : Setting) : Function → Function → Prop
  | print : Implements S Analysis.printFunction printFunction
  | method {known : List Function} {m : Method} {g : Function} (hp : known <+: S.known)
      (hm : MethodTyped S.root S.final known S.globals m g) :
      Implements S g (methodFunction ⟨0, []⟩ m)

/-- The invariant of a run. -/
structure Inv (S : Setting) (w : World) : Prop extends Tracked S.root S.final w where
  functions : List.Forall₂ S.Implements S.known (w.store.frame 0).functions
  others : ∀ i, i ≠ 0 → (w.store.frame i).functions = []
  fields : Sees S.globals ⟨0, []⟩ w

variable {S : Setting}

lemma length_of_parameters {m : Mark} {k : Nat} {names : List String} {ts : List Ty}
    {block block₁ : List Binding} (h : Parameters final m k names ts block block₁) :
    names.length = ts.length := by
  induction h with
  | nil => rfl
  | cons _ _ ih => rw [List.length_cons, List.length_cons, ih]

lemma Implements.key {g h : Function} (hi : S.Implements g h) :
    h.name = g.name ∧ h.arity = g.arity := by
  cases hi with
  | print => exact ⟨rfl, rfl⟩
  | method _ hm =>
    obtain ⟨block, block₁, hparameters, _⟩ := hm.body
    refine ⟨hm.name.symm, ?_⟩
    unfold Function.arity methodFunction
    rw [List.length_map]
    exact length_of_parameters hparameters

/-- A function that analysis knows has its counterpart among the functions of the run. -/
lemma exists_implements {known functions : List Function} {arity : Nat} {g : Function}
    (h : List.Forall₂ S.Implements known functions) (hg : named? known name arity = some g) :
    ∃ f, named? functions name arity = some f ∧ S.Implements g f := by
  induction h with
  | nil => cases hg
  | @cons g' f' known functions hi _ ih =>
    obtain ⟨hname, harity⟩ := hi.key
    unfold named? at hg ih ⊢
    rw [List.find?_cons] at hg ⊢
    rw [hname, harity]
    split at hg
    · cases hg
      exact ⟨f', rfl, hi⟩
    · exact ih hg

/-- The counterpart of a function is unique by its name and arity. -/
lemma named?_eq_none {known functions : List Function} {arity : Nat}
    (h : List.Forall₂ S.Implements known functions) (hg : named? known name arity = none) :
    named? functions name arity = none := by
  induction h with
  | nil => rfl
  | @cons g' f' known functions hi _ ih =>
    obtain ⟨hname, harity⟩ := hi.key
    unfold named? at hg ih ⊢
    rw [List.find?_cons] at hg ⊢
    rw [hname, harity]
    split at hg
    · cases hg
    · exact ih hg

lemma named?_mono {known known₁ : List Function} {arity : Nat} {g : Function}
    (h : known <+: known₁) (hg : named? known name arity = some g) :
    named? known₁ name arity = some g := by
  obtain ⟨rest, rfl⟩ := h
  unfold named? at hg ⊢
  rw [List.find?_append, hg]
  rfl

end Setting

end LetDef.Execution
