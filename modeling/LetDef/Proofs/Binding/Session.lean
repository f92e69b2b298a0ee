import LetDef.Proofs.Binding.Program
import LetDef.Session

/-!
# Launches in sessions

A session opens the global scopes of its analyser and its interpreter inside one host. Once it has
read and analysed a text, it is about to run it: analysis has left the host and the interpreter's
scope as they were.
-/

namespace LetDef

open Execution

variable {s store : Store} {host : Option Scope} {print : Function} {file source : String}

/-! ### Opening scopes -/

namespace Store

/-- The methods in a store are closed over frames of the store. -/
def Closed (s : Store) : Prop :=
  ∀ i, ∀ g ∈ (s.frame i).functions, ∀ m home, g.body = .method m home →
    ∀ j ∈ home.chain, j < s.frames.size

/-- The store with a new frame that has a function. -/
def openFor (s : Store) (host : Option Scope) (print : Function) : Store :=
  (s.enter host).2.addFunction (s.enter host).1 print

lemma size_openFor : (s.openFor host print).frames.size = s.frames.size + 1 := by
  unfold openFor
  rw [size_addFunction, size_enter]

lemma frame_openFor_self : (s.openFor host print).frame s.frames.size = ⟨[], [print]⟩ := by
  have hsize : s.frames.size < (s.enter host).2.frames.size := by
    rw [size_enter]
    exact Nat.lt_succ_self _
  unfold openFor addFunction
  refine (frame_modifyFrame_self hsize).trans ?_
  rw [frame_enter, frame_of_size_le (Nat.le_refl _)]
  rfl

lemma frame_openFor_of_ne {i : FrameId} (h : i ≠ s.frames.size) :
    (s.openFor host print).frame i = s.frame i :=
  (frame_addFunction_of_ne h).trans frame_enter

lemma mem_functions_openFor {i : FrameId} {g : Function}
    (h : g ∈ ((s.openFor host print).frame i).functions) :
    g = print ∨ g ∈ (s.frame i).functions := by
  by_cases hi : i = s.frames.size
  · rw [hi, frame_openFor_self] at h
    exact .inl (List.mem_singleton.1 h)
  · rw [frame_openFor_of_ne hi] at h
    exact .inr h

/-- A frame that is opened inside a host of older frames. -/
lemma opened_openFor (h : ∀ i ∈ Scope.framesOf host, i < s.frames.size) :
    (s.openFor host print).Opened host s.frames.size print where
  older := h
  size := by
    rw [size_openFor]
    exact Nat.lt_succ_self _
  frame := frame_openFor_self

/-- A frame stays opened while others are. -/
lemma Opened.openFor {home : FrameId} {host' : Option Scope} {print' : Function}
    (h : s.Opened host home print) : (s.openFor host' print').Opened host home print where
  older := h.older
  size := by
    rw [size_openFor]
    exact Nat.lt_succ_of_lt h.size
  frame := by rw [frame_openFor_of_ne (Nat.ne_of_lt h.size), h.frame]

end Store

/-! ### Analysis leaves frames alone -/

lemma Frame.eq_of_outline {f g : Frame} (h : f.outline = g.outline) (hg : g.vars = [])
    (hfunctions : f.functions = g.functions) : f = g := by
  obtain ⟨vars, functions⟩ := f
  obtain ⟨vars', functions'⟩ := g
  cases hg
  cases hfunctions
  rw [Frame.mk.injEq]
  exact ⟨List.map_eq_nil_iff.1 h, rfl⟩

/-- A frame that was opened before analysis is as it was after it. -/
lemma Accepted.Table.opened {A : Accepted} {known : List Method} {home : FrameId}
    (h : A.Table known s) (hopened : A.store.Opened host home print)
    (hne : home ≠ A.statics.frame) : s.Opened host home print where
  older := hopened.older
  size := Nat.lt_of_lt_of_le hopened.size h.size
  frame := by
    rw [← hopened.frame]
    refine Frame.eq_of_outline (h.outline home hopened.size hne) ?_ (h.functions home hne)
    rw [hopened.frame]

/-! ### Sessions -/

namespace Session

variable {p : Program}

/-- The journal of a run of the current program, its nodes numbered. -/
def journal (t : Session) (N : Execution.Natives) (fuel depth : Nat) : Journal :=
  match t.program with
  | some p => (outcome (Execution.run N fuel depth t.globals p.numbered)
      { store := t.store, journal := some [] }).2.log
  | none => []

/-- A new session has opened the scope of its interpreter. -/
lemma opened_globals (hhost : ∀ i ∈ Scope.framesOf host, i < store.frames.size) :
    (start host store).store.Opened host (start host store).globals.frame
      Execution.printFunction := by
  refine Store.opened_openFor fun i hi => ?_
  exact Nat.lt_of_lt_of_eq (Nat.lt_succ_of_lt (hhost i hi)) Store.size_openFor.symm

lemma statics_lt_globals : (start host store).statics.frame < (start host store).globals.frame :=
  Nat.lt_of_lt_of_eq (Nat.lt_succ_self store.frames.size) Store.size_openFor.symm

/-- The methods that a session is given are closed over the frames that it is given. -/
lemma closed_start (hclosed : store.Closed) {i : FrameId} {g : Function} {m : Method} {home : Scope}
    (hg : g ∈ ((start host store).store.frame i).functions) (hbody : g.body = .method m home) :
    ∀ j ∈ home.chain, j < store.frames.size := by
  rcases Store.mem_functions_openFor hg with rfl | hg
  · cases hbody
  rcases Store.mem_functions_openFor hg with rfl | hg
  · cases hbody
  exact hclosed i g hg m home hbody

/-- The text is the first that the session analyses. -/
def accepted (hhost : ∀ i ∈ Scope.framesOf host, i < store.frames.size)
    (text : Program.ofText file source = .ok p)
    (haccepted : (outcome (Analysis.analyze Analysis.maxDepth (start host store).statics p)
      { store := (start host store).store }).1 = .ok ()) : Accepted where
  host := host
  store := (start host store).store
  staticFrame := (start host store).statics.frame
  opened := (Store.opened_openFor hhost).openFor
  file := file
  source := source
  parsed := p
  text := text
  accepted := haccepted

/-- The text is the first that the session runs. -/
def launch (hhost : ∀ i ∈ Scope.framesOf host, i < store.frames.size) (hclosed : store.Closed)
    (text : Program.ofText file source = .ok p)
    (haccepted : (outcome (Analysis.analyze Analysis.maxDepth (start host store).statics p)
      { store := (start host store).store }).1 = .ok ()) : Launch where
  toAccepted := accepted hhost text haccepted
  start := (accepted hhost text haccepted).final.store
  globalFrame := (start host store).globals.frame
  ready := (accepted hhost text haccepted).program_passed.table.opened (opened_globals hhost)
    (Nat.ne_of_gt statics_lt_globals)
  outline i hi := by
    have hlt := (accepted hhost text haccepted).lt_statics hi
    exact (accepted hhost text haccepted).program_passed.table.outline i
      (Nat.lt_trans hlt (accepted hhost text haccepted).opened.size) (Nat.ne_of_lt hlt)
  functions i hi := (accepted hhost text haccepted).program_passed.table.functions i
    (Nat.ne_of_lt ((accepted hhost text haccepted).lt_statics hi))
  unreached i g hg m home hbody hmem := by
    have htable := (accepted hhost text haccepted).program_passed.table
    by_cases hi : i = (start host store).statics.frame
    · subst hi
      obtain ⟨n, hn⟩ := htable.natives g hg
      rw [hbody] at hn
      cases hn
    · rw [htable.functions i hi] at hg
      exact Nat.lt_asymm (closed_start hclosed hg hbody _ hmem) statics_lt_globals

/-- Analysis of the current program that succeeds leaves its state to the session. -/
lemma gives_analyze {listing : Frame} {t t₁ : Session} (hp : t.program = some p)
    (h : Gives analyze t listing t₁) :
    (outcome (Analysis.analyze Analysis.maxDepth t.statics p) ⟨t.store, t.decorations⟩).1 = .ok () ∧
    t₁ = { t with
      store := (outcome (Analysis.analyze Analysis.maxDepth t.statics p)
        ⟨t.store, t.decorations⟩).2.store
      decorations := (outcome (Analysis.analyze Analysis.maxDepth t.statics p)
        ⟨t.store, t.decorations⟩).2.decorations } := by
  unfold analyze current at h
  obtain ⟨p', u, hcurrent, h₁⟩ := gives_bind.1 h
  obtain ⟨t', u', hget, hmatch⟩ := gives_bind.1 hcurrent
  obtain ⟨rfl, rfl⟩ := gives_get.1 hget
  rw [hp] at hmatch
  obtain ⟨rfl, rfl⟩ := gives_pure.1 hmatch
  obtain ⟨t'', u'', hget', h₂⟩ := gives_bind.1 h₁
  obtain ⟨rfl, rfl⟩ := gives_get.1 hget'
  dsimp only at h₂
  obtain ⟨_, t₂, hset, h₃⟩ := gives_bind.1 h₂
  obtain rfl := gives_set.1 hset
  split at h₃
  · rename_i hresult
    obtain ⟨_, rfl⟩ := gives_pure.1 h₃
    exact ⟨hresult, rfl⟩
  · exact absurd h₃ not_gives_throw

/-- Reads and analyses a text. -/
def prepare (file source : String) : Request Frame := do
  let _ ← parse file source
  analyze

/-- A launch runs what the session has read and analysed. -/
structure Launches (L : Launch) (host : Option Scope) (store : Store) (source : String)
    (t : Session) : Prop where
  store : L.store = (start host store).store
  host : L.host = host
  source : L.source = source
  globals : L.globals = t.globals
  decorations : L.final.decorations = t.decorations
  log : ∀ N fuel depth, L.log N fuel depth = t.journal N fuel depth

/-- A session that has read and analysed a text is about to run it. -/
theorem exists_launch {listing : Frame} {t : Session}
    (hhost : ∀ i ∈ Scope.framesOf host, i < store.frames.size) (hclosed : store.Closed)
    (h : Gives (prepare file source) (start host store) listing t) :
    ∃ L, Launches L host store source t := by
  obtain ⟨p, t₁, hparse, hanalyze⟩ := gives_bind.1 h
  unfold parse at hparse
  cases htext : Program.ofText file source with
  | error e =>
    rw [htext] at hparse
    exact absurd hparse not_gives_throw
  | ok q =>
    rw [htext] at hparse
    cases hparse
    obtain ⟨haccepted, rfl⟩ := gives_analyze rfl hanalyze
    exact ⟨launch hhost hclosed htext haccepted, ⟨rfl, rfl, rfl, rfl, rfl, fun _ _ _ => rfl⟩⟩

end Session

end LetDef
