import LetDef.Proofs.Binding.Analysis
import LetDef.Proofs.Execution.Safety

/-!
# Runs follow decorations

What it means for a run to agree with the decorations of its program, and the invariant that makes
it so. Each scope of the program leads to the variables that were made for what binds its names, and
to the host's where nothing does. The global frame has `print` and the methods defined so far. Code
of the host runs in scopes in which the global frame is not found, and nothing is said of it.
-/

namespace LetDef

open Execution

/-! ### Launches -/

/-- An accepted program and a store to run it in, where the host has the names that it had and no
method is closed over the global frame yet. -/
structure Launch extends Accepted where
  /-- The store in which the run begins. -/
  start : Store
  /-- The frame of the global scope of the run. -/
  globalFrame : FrameId
  ready : start.Opened toAccepted.host globalFrame Execution.printFunction
  outline : ∀ i ∈ toAccepted.frames, (start.frame i).outline = (store.frame i).outline
  functions : ∀ i ∈ toAccepted.frames, (start.frame i).functions = (store.frame i).functions
  unreached : ∀ i, ∀ g ∈ (start.frame i).functions, ∀ m home, g.body = .method m home →
    globalFrame ∉ home.chain

namespace Launch

variable (L : Launch)

/-- The global scope of the run. -/
def globals : Scope :=
  ⟨L.globalFrame, L.frames⟩

/-- The world in which the run begins, with a journal to be kept. -/
def initial : World :=
  { store := L.start, journal := some [] }

/-- The journal of the run. -/
def log (N : Natives) (fuel depth : Nat) : Journal :=
  (outcome (run N fuel depth L.globals L.program) L.initial).2.log

/-- The names of the host and the global frame. -/
def runBase : Base :=
  ⟨L.store, L.frames, L.globals.frame⟩

/-! ### Agreement -/

/-- The name is decorated with a variable of the host, and it is that one; or else the decoration is
the variable of one origin, for which it was made. -/
def VariableAgrees (j : Journal) (mark : Mark) (ref : VariableRef) : Prop :=
  ∃ decorated, L.final.decorations.get? mark = some (.variable decorated) ∧
    (decorated.frame ∈ L.frames → ref = decorated) ∧
    (decorated.frame ∉ L.frames →
      ∃ origin, (∀ o, L.Denotes o decorated ↔ o = origin) ∧ Created j origin ref)

/-- The function `print` as analysis knows it. -/
def printRef : FunctionRef :=
  ⟨L.statics.frame, "print", 1⟩

/-- A call of a name with so many arguments, decorated with a function of the host, invokes that
function if it stands in a field, or in a method with no such method below. Otherwise it invokes the
method below. -/
def HostAgrees (call : Node) (key : String × Nat) (decorated : FunctionRef) (g : Function) : Prop :=
  (∃ f ∈ L.program.fields, f.toNode.Below call ∧ L.store.getFunction? decorated = some g) ∨
  ∃ before m after, L.program.methods = before ++ m :: after ∧ m.toNode.Below call ∧
    (∀ m' ∈ after, m'.key = key → g = methodFunction L.globals m') ∧
    ((∀ m' ∈ after, m'.key ≠ key) → L.store.getFunction? decorated = some g)

/-- The call invokes what it is decorated with: `print`, a method, or a function of the host. -/
structure CallAgrees (call : Node) (key : String × Nat) (decorated : FunctionRef) (g : Function) :
    Prop where
  known : decorated = L.printRef ∨
    (∃ m ∈ L.program.methods,
      L.final.decorations.get? m.mark = some (.function decorated)) ∨
    decorated.frame ∈ L.frames
  print : decorated = L.printRef → g = Execution.printFunction
  method : ∀ m ∈ L.program.methods,
    L.final.decorations.get? m.mark = some (.function decorated) → g = methodFunction L.globals m
  host : decorated.frame ∈ L.frames → L.HostAgrees call key decorated g

/-- The event, if it happens in a scope of the program, agrees with the decorations. -/
def Agrees (j : Journal) : Event → Prop
  | .read scope n ref => L.globals.frame ∈ scope.chain →
      ∀ mark name, n = .access mark .absent name → L.VariableAgrees j mark ref
  | .assigned scope n ref => L.globals.frame ∈ scope.chain →
      ∀ mark name, n = .access mark .absent name → L.VariableAgrees j mark ref
  | .called scope n g => L.globals.frame ∈ scope.chain →
      ∀ mark name arguments, n = .call mark .absent name arguments →
        ∃ decorated, L.final.decorations.get? mark = some (.function decorated) ∧
          L.CallAgrees n (name, arguments.length) decorated g
  | _ => True

/-- The run keeps a journal, all of whose moments agree with the decorations. -/
structure Faithful (w : World) : Prop where
  kept : w.journal = some w.log
  moments : ∀ m earlier, (m :: earlier) <:+ w.log → L.Agrees earlier m.event

variable {L} {w : World} {e : Event} {s : Store}

lemma Faithful.suffix_after (h : L.Faithful w) : w.log <:+ (w.after e s).log := by
  rw [w.log_after h.kept]
  exact List.suffix_cons _ _

lemma Faithful.after (h : L.Faithful w) (he : L.Agrees w.log e) : L.Faithful (w.after e s) := by
  refine ⟨w.kept_after h.kept, ?_⟩
  intro m earlier hm
  rw [w.log_after h.kept, List.suffix_cons_iff] at hm
  rcases hm with heq | hm
  · cases heq
    exact he
  · exact h.moments m earlier hm

end Launch

/-! ### Stages of a run -/

/-- How far a run has come: the methods that are defined and the bindings of the global scope. -/
structure Stage extends Launch where
  table : List Method
  bs : List Binding

namespace Stage

/-- Code is run only while no method is defined yet, or when all are and the fields are bound. -/
def Complete (S : Stage) : Prop :=
  S.table = [] ∨ S.table = S.program.methods ∧ S.bs = Field.bindings S.program.fields

/-- The functions that a run may invoke: natives, methods of the host and the methods defined. -/
inductive Callable (S : Stage) (g : Function) : Prop
  | native {n : Native} (h : g.body = .native n) : Callable S g
  | foreign {m : Method} {home : Scope} (h : g.body = .method m home)
      (hout : S.globals.frame ∉ home.chain) : Callable S g
  | method {m : Method} (hm : m ∈ S.table) (h : g.body = .method m S.globals) : Callable S g

/-- The invariant of a run. -/
structure Inv (S : Stage) (w : World) : Prop extends S.Faithful w where
  callable : ∀ i, ∀ g ∈ (w.store.frame i).functions, S.Callable g
  host : ∀ i ∈ S.frames, (w.store.frame i).functions = (S.store.frame i).functions
  defined : (w.store.frame S.globals.frame).functions
    = Execution.printFunction :: S.table.map (methodFunction S.globals)
  fields : Finds S.runBase (Created w.log) S.bs S.globals.chain w.store

/-- A scope of a run leads where its surroundings say. -/
def Ready (S : Stage) : Surroundings → Scope → World → Prop
  | .foreign, scope, _ => S.globals.frame ∉ scope.chain
  | .within place bs, scope, w =>
    place.defined = S.table ∧ Finds S.runBase (Created w.log) bs scope.chain w.store

/-- A scope of its own inside a method. -/
structure Inside (S : Stage) (around : Surroundings) (scope : Scope) (w : World) : Prop where
  ready : S.Ready around scope w
  above : S.globals.frame < scope.frame
  size : scope.frame < w.store.frames.size

variable {S : Stage} {w w₁ : World} {own : Option FrameId} {around : Surroundings} {scope : Scope}
  {name : String} {mark : Mark} {n : Node} {e : Event} {s : Store}

/-- The frames of the host come before the global frame. -/
lemma lt_globals {i : FrameId} (hi : i ∈ S.frames) : i < S.globals.frame :=
  S.ready.older i hi

lemma Ready.step (h : S.Ready around scope w) (hs : Step none w w₁) : S.Ready around scope w₁ := by
  cases around with
  | foreign => exact h
  | within place bs =>
    refine ⟨h.1, (h.2.grows hs.store (by simp)).mono ?_⟩
    intro origin ref hc
    exact Occurs.mono hc hs.log

lemma Inside.step (h : S.Inside around scope w) (hs : Step none w w₁) :
    S.Inside around scope w₁ :=
  ⟨h.ready.step hs, h.above, Nat.lt_of_lt_of_le h.size hs.store.size⟩

/-- The name of a variable that is made in a scope leads to it from then on. -/
lemma finds_create {B : Base} {bs : List Binding} {origin : Origin} {v : Variable}
    (h : Finds B (Created w.log) bs scope.chain w.store) (hkept : w.journal = some w.log)
    (hnew : (w.store.frame scope.frame).getVariable? v.name = none) :
    Finds B (Created (w.after (.created origin ⟨scope.frame, v.name⟩)
        (w.store.addVariable scope v)).log)
      ((v.name, origin) :: bs) scope.chain (w.store.addVariable scope v) := by
  rw [w.log_after hkept]
  refine (h.mono ?_).add hnew (occurs_cons.2 (.inl rfl))
  intro _ _ hc
  exact Occurs.mono hc (List.suffix_cons _ _)

/-- The invariant lasts while neither the global frame nor the host gets a variable. -/
lemma Inv.step (hi : S.Inv w) (hf : S.Faithful w₁) (hs : Step own w w₁)
    (hown : ∀ i ∈ S.globals.chain, own ≠ some i) : S.Inv w₁ where
  toFaithful := hf
  callable i := by
    rw [hs.store.functions]
    exact hi.callable i
  host i hi' := by rw [hs.store.functions, hi.host i hi']
  defined := by rw [hs.store.functions, hi.defined]
  fields := (hi.fields.grows hs.store hown).mono fun _ _ hc => Occurs.mono hc hs.log

/-- A frame above the global one is none of those that the global scope finds. -/
lemma Inside.not_globals (h : S.Inside around scope w) :
    ∀ i ∈ S.globals.chain, some scope.frame ≠ some i := by
  rintro i hi ⟨⟩
  rcases List.mem_cons.1 hi with hi | hi
  · exact Nat.ne_of_gt h.above hi
  · exact Nat.lt_asymm h.above (S.lt_globals hi)

/-! ### Variables -/

/-- The variable that a scope finds is the one that the decoration means. -/
lemma Ready.variable_agrees {ref : VariableRef} {v : Variable} (hr : S.Ready around scope w)
    (hl : S.VariableLeads around mark name)
    (hfind : w.store.lookupVariable scope name = .ok (ref, v))
    (hin : S.globals.frame ∈ scope.chain) : S.VariableAgrees w.log mark ref := by
  cases around with
  | foreign => exact absurd hin hr
  | within place bs =>
    obtain ⟨decorated, hd, hbound, hfree⟩ := hl
    have href := Store.variableRef?_of_find (Store.findVariable?_of_lookup hfind)
    refine ⟨decorated, hd, ?_, ?_⟩
    · -- A name of the host is bound by nothing in the program, and so it is found in the same
      -- frame.
      intro hhost
      cases ho : bs.lookup name with
      | some origin => exact absurd hhost (hbound origin ho).1
      | none =>
        have hsame := (hr.2.free name ho).symm.trans href
        rw [show S.runBase.store.variableRef? S.runBase.host name = some decorated from hfree ho]
          at hsame
        cases hsame
        rfl
    · intro hhost
      cases ho : bs.lookup name with
      | some origin =>
        obtain ⟨ref', href', hc⟩ := hr.2.bound name origin ho
        rw [href] at href'
        cases href'
        have hdenotes := (hbound origin ho).2
        refine ⟨origin, fun o => ⟨fun h => h.origin_eq hdenotes, ?_⟩, hc⟩
        rintro rfl
        exact hdenotes
      | none => exact absurd (Store.mem_of_variableRef? (hfree ho)) hhost

/-! ### Calls -/

lemma mem_keys {key : String × Nat} {ms : List Method} :
    key ∈ Method.keys ms ↔ key = ("print", 1) ∨ ∃ m ∈ ms, m.key = key := by
  simp [Method.keys]

lemma Inv.keys (hi : S.Inv w) :
    (w.store.frame S.globals.frame).functions.map Function.key = Method.keys S.table := by
  rw [hi.defined, List.map_cons, List.map_map]
  exact congrArg _ (List.map_congr_left fun m _ => key_methodFunction S.globals m)

lemma Complete.nodup (h : S.Complete) : (Method.keys S.table).Nodup := by
  rcases h with h | ⟨h, _⟩
  · rw [h]
    decide
  · rw [h]
    exact S.program_passed.resolved.keys

/-- What a scope of the program finds is `print`, a method that is defined, or else the host's. -/
lemma Inv.found {fref : FunctionRef} {g : Function} {arity : Nat} (hi : S.Inv w)
    (hc : S.Complete)
    (hfind : w.store.functionIn? (S.globals.frame :: S.frames) name arity = some (fref, g)) :
    ((name, arity) = ("print", 1) → g = Execution.printFunction) ∧
    (∀ m ∈ S.table, m.key = (name, arity) → g = methodFunction S.globals m) ∧
    ((name, arity) ∉ Method.keys S.table →
      S.store.functionIn? S.frames name arity = some (fref, g)) := by
  have hnodup := hc.nodup
  rw [← hi.keys] at hnodup
  have hhome : ∀ h ∈ (w.store.frame S.globals.frame).functions, h.key = (name, arity) → g = h := by
    intro h hmem hkey
    have hget := Frame.getFunction?_of_mem hnodup hmem
    rw [show h.name = name from congrArg Prod.fst hkey,
      show h.arity = arity from congrArg Prod.snd hkey] at hget
    rw [Store.functionIn?_cons, hget] at hfind
    cases hfind
    rfl
  rw [hi.defined] at hhome
  refine ⟨?_, ?_, ?_⟩
  · intro hkey
    exact hhome Execution.printFunction (List.mem_cons_self ..) hkey.symm
  · intro m hm hkey
    apply hhome _ (List.mem_cons_of_mem _ (List.mem_map_of_mem hm))
    rw [key_methodFunction, hkey]
  · intro hkey
    rw [← hi.keys, ← Frame.getFunction?_eq_none_iff] at hkey
    rw [Store.functionIn?_cons, hkey, Store.functionIn?_congr hi.host] at hfind
    exact hfind

section

variable {place : Place} {fref decorated : FunctionRef} {g : Function} {arity : Nat}

lemma statics_not_mem_frames (A : Accepted) : A.statics.frame ∉ A.frames := by
  intro hmem
  exact Nat.lt_irrefl _ (A.lt_statics hmem)

/-- What analysis knows at a place is defined when a run gets there. -/
lemma mem_defined {m : Method} (h : m ∈ place.known) : m ∈ place.defined := by
  cases place with
  | field f => cases h
  | method before m' after =>
    rw [Place.known, List.mem_append, List.mem_singleton] at h
    rcases h with h | rfl
    · simp [Place.defined, h]
    · simp [Place.defined]

/-- A call that is decorated with a function of the program. -/
lemma Inv.call_agrees_known (hi : S.Inv w) (hc : S.Complete) (ht : place.defined = S.table)
    (hkey : (name, arity) ∈ Method.keys place.known)
    (hd : decorated = ⟨S.statics.frame, name, arity⟩)
    (hfind : w.store.functionIn? (S.globals.frame :: S.frames) name arity = some (fref, g)) :
    S.CallAgrees n (name, arity) decorated g := by
  have hresolved := S.program_passed.resolved
  obtain ⟨hprint, hmethod, _⟩ := hi.found hc hfind
  -- A method that analysis knows is defined, and so it is a method of the program.
  have hmethods : ∀ m ∈ S.table, m ∈ S.program.methods := by
    intro m hm
    rcases hc with hnil | ⟨hall, _⟩
    · rw [hnil] at hm
      cases hm
    · rwa [hall] at hm
  subst hd
  refine ⟨?_, ?_, ?_, ?_⟩
  · rcases mem_keys.1 hkey with hkey | ⟨m, hm, hkey⟩
    · cases hkey
      exact .inl rfl
    · cases hkey
      have hm' := hmethods m (ht ▸ mem_defined hm)
      exact .inr (.inl ⟨m, hm', hresolved.decorated m hm'⟩)
  · intro heq
    apply hprint
    cases heq
    rfl
  · -- Keys are not repeated, so the method of this decoration is the one of the key.
    intro m hm hd
    rw [hresolved.decorated m hm] at hd
    cases hd
    rcases mem_keys.1 hkey with hkey | ⟨m', hm', hkey⟩
    · have hnodup := hresolved.keys
      rw [Method.keys, List.nodup_cons, ← hkey] at hnodup
      exact absurd (List.mem_map_of_mem hm) hnodup.1
    · have hm'' := ht ▸ mem_defined hm'
      have hnodup := (List.nodup_cons.1 hresolved.keys).2
      have heq := List.inj_on_of_nodup_map hnodup (hmethods m' hm'') hm hkey
      subst heq
      exact hmethod m' hm'' hkey
  · intro hhost
    exact absurd hhost (statics_not_mem_frames _)

/-- A call that is decorated with a function of the host. -/
lemma Inv.call_agrees_host {g' : Function} (hi : S.Inv w) (hc : S.Complete)
    (ht : place.defined = S.table) (hholds : place.Holds S.program n)
    (hkey : (name, arity) ∉ Method.keys place.known)
    (hd : S.store.functionIn? S.frames name arity = some (decorated, g'))
    (hfind : w.store.functionIn? (S.globals.frame :: S.frames) name arity = some (fref, g)) :
    S.CallAgrees n (name, arity) decorated g := by
  obtain ⟨hframe, hget, _, _⟩ := Store.mem_of_functionIn? hd
  obtain ⟨_, hmethod, hhost⟩ := hi.found hc hfind
  -- The decoration leads to a frame of the host, so it is none of a function of the program.
  have hnot : ∀ key : String × Nat, decorated ≠ ⟨S.statics.frame, key.1, key.2⟩ := by
    rintro key rfl
    exact statics_not_mem_frames _ hframe
  have hown : (name, arity) ∉ Method.keys S.table → S.store.getFunction? decorated = some g := by
    intro hfree
    have heq := hhost hfree
    rw [hd] at heq
    cases heq
    exact hget
  refine ⟨.inr (.inr hframe), fun heq => (hnot ("print", 1) heq).elim, ?_, ?_⟩
  · intro m hm hdec
    rw [S.program_passed.resolved.decorated m hm] at hdec
    cases hdec
    exact absurd rfl (hnot m.key)
  · -- In the value of a field the host's function runs. In a method one that stands behind it may
    -- run instead, since analysis has not seen that yet.
    intro _
    cases place with
    | field f =>
      refine .inl ⟨f, hholds.inside, hholds.below, hown ?_⟩
      rwa [← ht]
    | method before m after =>
      refine .inr ⟨before, m, after, hholds.inside, hholds.below, ?_, ?_⟩
      · intro m' hm' hkey'
        refine hmethod m' ?_ hkey'
        rw [← ht]
        simp [Place.defined, hm']
      · intro hnone
        apply hown
        rw [mem_keys] at hkey ⊢
        rw [← ht]
        rintro (hprint | ⟨m', hm', hkey'⟩)
        · exact hkey (.inl hprint)
        · rw [Place.defined, List.mem_append, List.mem_cons] at hm'
          rcases hm' with hm' | rfl | hm'
          · exact hkey (.inr ⟨m', by simp [Place.known, hm'], hkey'⟩)
          · exact hkey (.inr ⟨m', by simp [Place.known], hkey'⟩)
          · exact hnone m' hm' hkey'

/-- The function that a scope finds is the one that the decoration of the call means. -/
lemma Inv.call_agrees (hi : S.Inv w) (hc : S.Complete) (hr : S.Ready around scope w)
    (hl : S.CallLeads around n mark name arity)
    (hfind : w.store.lookupFunction scope name arity = .ok (fref, g))
    (hin : S.globals.frame ∈ scope.chain) :
    ∃ decorated, S.final.decorations.get? mark = some (.function decorated) ∧
      S.CallAgrees n (name, arity) decorated g := by
  cases around with
  | foreign => exact absurd hin hr
  | within place bs =>
    obtain ⟨hholds, decorated, hd, hknown, hhost⟩ := hl
    have hchain : w.store.functionIn? (S.globals.frame :: S.frames) name arity = some (fref, g) :=
      (hr.2.functions name arity).symm.trans (Store.findFunction?_of_lookup hfind)
    refine ⟨decorated, hd, ?_⟩
    by_cases hkey : (name, arity) ∈ Method.keys place.known
    · exact hi.call_agrees_known hc hr.1 hkey (hknown hkey) hchain
    · obtain ⟨g', hg'⟩ := hhost hkey
      exact hi.call_agrees_host hc hr.1 hholds hkey hg' hchain

end

end Stage

end LetDef
