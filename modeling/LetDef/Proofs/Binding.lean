import LetDef.Proofs.Binding.Session

/-!
# Static and dynamic binding

Analysis decorates each name with what it found, going through the text once. A run looks names up
again each time, in the scopes that there are by then. Both find the same variables. They find the
same functions too, except that a call of a function of the host may be taken over by a method that
is defined below the caller, which analysis has not met yet.
-/

namespace LetDef

open Execution

/-! ### Events with names -/

/-- A name that stands for a variable where it is evaluated or assigned to. -/
structure NamedAccess where
  scope : Scope
  mark : Mark
  name : String
  ref : VariableRef
deriving DecidableEq

/-- A call of a function by its name. -/
structure NamedCall where
  scope : Scope
  mark : Mark
  name : String
  arguments : List Node
  callee : Function

namespace Execution.Event

/-- The name that an event reads or assigns to as a variable. -/
def access? : Event → Option NamedAccess
  | read scope (.access mark .absent name) ref => some ⟨scope, mark, name, ref⟩
  | assigned scope (.access mark .absent name) ref => some ⟨scope, mark, name, ref⟩
  | _ => none

/-- The call that an event makes by a name. -/
def call? : Event → Option NamedCall
  | called scope (.call mark .absent name arguments) g => some ⟨scope, mark, name, arguments, g⟩
  | _ => none

lemma eq_of_access? {e : Event} {a : NamedAccess} (h : e.access? = some a) :
    e = .read a.scope (.access a.mark .absent a.name) a.ref ∨
      e = .assigned a.scope (.access a.mark .absent a.name) a.ref := by
  unfold access? at h
  split at h
  · cases h
    exact .inl rfl
  · cases h
    exact .inr rfl
  · cases h

lemma eq_of_call? {e : Event} {c : NamedCall} (h : e.call? = some c) :
    e = .called c.scope (.call c.mark .absent c.name c.arguments) c.callee := by
  unfold call? at h
  split at h
  · cases h
    rfl
  · cases h

end Execution.Event

variable {N : Natives} {L : Launch} {fuel depth : Nat} {m : Moment} {earlier : Journal}

/-! ### Variables -/

/-- Let the functions of the host only print. Each time a name is evaluated or assigned to in a
scope of the program, the variable was made by the one field, declaration or parameter whose
variable the name is decorated with. If the decoration is a variable of the host, it is that
one. -/
theorem variable_binding_agrees (hN : N.OnlyPrint) {a : NamedAccess}
    (hm : (m :: earlier) <:+ L.log N fuel depth)
    (ha : m.event.access? = some a) (hin : L.globals.frame ∈ a.scope.chain) :
    L.VariableAgrees earlier a.mark a.ref := by
  have hagrees := (L.run_faithful hN fuel depth).moments m earlier hm
  rcases Event.eq_of_access? ha with he | he
  · rw [he] at hagrees
    exact hagrees hin a.mark a.name rfl
  · rw [he] at hagrees
    exact hagrees hin a.mark a.name rfl

/-- A moment of a journal that passes a test. -/
lemma exists_moment {j : Journal} {p : Moment → Bool} (h : j.any p = true) :
    ∃ m earlier, (m :: earlier) <:+ j ∧ p m = true := by
  obtain ⟨m, hm, hp⟩ := List.any_eq_true.1 h
  obtain ⟨later, earlier, rfl⟩ := List.append_of_mem hm
  exact ⟨m, earlier, List.suffix_append _ _, hp⟩

/-- A host with a variable `x` and a function `inc`. -/
def smallHost : Store :=
  (({} : Store).openFor none incFunction).addVariable ⟨0, []⟩
    ⟨"x", "x", .integer, false, .of (.integer 4)⟩

lemma smallHost_closed : smallHost.Closed := by
  intro i g hg m home hbody
  have hsize : (0 : FrameId) < (({} : Store).openFor none incFunction).frames.size := by decide
  rw [smallHost, (Store.grows_addVariable hsize).functions] at hg
  rcases Store.mem_functions_openFor hg with rfl | hg
  · cases hbody
  · rw [Store.frame_of_size_le (Nat.zero_le i)] at hg
    cases hg

/-- A session over the small host that has read and analysed a text. -/
def preparedSession (source : String) : Session :=
  (outcome (Session.prepare "main" source) (Session.start (some ⟨0, []⟩) smallHost)).2

lemma exists_small_launch (source : String)
    (h : (outcome (Session.prepare "main" source)
      (Session.start (some ⟨0, []⟩) smallHost)).1.toOption.isSome = true) :
    ∃ L, Session.Launches L (some ⟨0, []⟩) smallHost source (preparedSession source) := by
  obtain ⟨listing, hgives⟩ := exists_gives h
  refine Session.exists_launch ?_ smallHost_closed hgives
  intro i hi
  rw [List.mem_singleton.1 hi]
  decide

/-- A field and a parameter with the name of a variable of the host, whose function is called with
that variable. -/
def namesakes : String :=
  "LET x: Integer = inc(x); DEF next(x: Integer): Integer DO x = x + 1; RETURN x; END " ++
  "DEF main(): Integer DO RETURN next(x); END"

theorem variable_binding_agrees_namesakes :
    ∃ (L : Launch) (m : Moment) (earlier : Journal) (a : NamedAccess), L.source = namesakes ∧
      (m :: earlier) <:+ L.log twoFunctions 9 99 ∧ m.event.access? = some a ∧ a.name = "x" ∧
      L.globals.frame ∈ a.scope.chain ∧ a.ref.frame ∉ L.globals.chain ∧
      L.VariableAgrees earlier a.mark a.ref := by
  obtain ⟨L, hL⟩ := exists_small_launch namesakes (by decide +kernel)
  have hany : ((preparedSession namesakes).journal twoFunctions 9 99).any (fun m =>
      m.event.access?.any fun a => a.name = "x" ∧
        (preparedSession namesakes).globals.frame ∈ a.scope.chain ∧
        a.ref.frame ∉ (preparedSession namesakes).globals.chain) = true := by decide +kernel
  obtain ⟨m, earlier, hm, hp⟩ := exists_moment hany
  rw [← hL.log] at hm
  obtain ⟨a, ha, hx⟩ := (Option.any_eq_true _ _).1 hp
  rw [decide_eq_true_iff, ← hL.globals] at hx
  obtain ⟨hname, hin, hout⟩ := hx
  exact ⟨L, m, earlier, a, hL.source, hm, ha, hname, hin, hout, variable_binding_agrees
    workOnArguments_twoFunctions.onlyPrint hm ha hin⟩

/-! ### Calls -/

/-- Let the functions of the host only print. Each time a function is called by its name in a scope
of the program, it is the one with which the call is decorated: the native `print`, a method, or a
function of the host. Only where a call in a method is decorated with a function of the host, a
method below with the same name and number of parameters takes its place. -/
theorem call_binding_agrees (hN : N.OnlyPrint) {c : NamedCall}
    (hm : (m :: earlier) <:+ L.log N fuel depth)
    (hc : m.event.call? = some c) (hin : L.globals.frame ∈ c.scope.chain) :
    ∃ decorated, L.final.decorations.get? c.mark = some (.function decorated) ∧
      L.CallAgrees (.call c.mark .absent c.name c.arguments) (c.name, c.arguments.length) decorated
        c.callee := by
  have hagrees := (L.run_faithful hN fuel depth).moments m earlier hm
  rw [Event.eq_of_call? hc] at hagrees
  exact hagrees hin c.mark c.name c.arguments rfl

/-- The native that a function is. -/
def Body.native? : Body → Option Native
  | native n => some n
  | method _ _ => none

/-- A call above the method of its name, which the host has too. -/
def forwardCall : String :=
  "DEF main(): Integer DO RETURN inc(1); END DEF inc(x: Integer): Integer DO RETURN 5; END"

/-- The call is decorated with the function of the host, and a method is called. -/
lemma exists_forward_call : ∃ (L : Launch) (m : Moment) (earlier : Journal) (c : NamedCall),
    Session.Launches L (some ⟨0, []⟩) smallHost forwardCall (preparedSession forwardCall) ∧
    (m :: earlier) <:+ L.log twoFunctions 9 99 ∧ m.event.call? = some c ∧
    L.globals.frame ∈ c.scope.chain ∧
    L.final.decorations.get? c.mark = some (.function ⟨0, "inc", 1⟩) ∧
    c.callee.body.native? = none := by
  obtain ⟨L, hL⟩ := exists_small_launch forwardCall (by decide +kernel)
  have hany : ((preparedSession forwardCall).journal twoFunctions 9 99).any (fun m =>
      m.event.call?.any fun c =>
        (preparedSession forwardCall).globals.frame ∈ c.scope.chain ∧
        (preparedSession forwardCall).decorations.get? c.mark
          = some (.function ⟨0, "inc", 1⟩) ∧
        c.callee.body.native? = none) = true := by decide +kernel
  obtain ⟨m, earlier, hm, hp⟩ := exists_moment hany
  rw [← hL.log] at hm
  obtain ⟨c, hc, hx⟩ := (Option.any_eq_true _ _).1 hp
  rw [decide_eq_true_iff, ← hL.globals, ← hL.decorations] at hx
  exact ⟨L, m, earlier, c, hL, hm, hc, hx⟩

lemma zero_mem_frames {L : Launch} {source : String} {t : Session}
    (hL : Session.Launches L (some ⟨0, []⟩) smallHost source t) : 0 ∈ L.frames := by
  unfold Accepted.frames
  rw [hL.host]
  decide

/-- What is not native is not the function of the small host. -/
lemma not_incFunction {L : Launch} {source : String} {t : Session} {g : Function}
    (hL : Session.Launches L (some ⟨0, []⟩) smallHost source t) (hg : g.body.native? = none) :
    L.store.getFunction? ⟨0, "inc", 1⟩ ≠ some g := by
  intro h
  have hinc : (Session.start (some ⟨0, []⟩) smallHost).store.getFunction? ⟨0, "inc", 1⟩
      = some incFunction := rfl
  rw [hL.store, hinc] at h
  cases h
  cases hg

theorem call_binding_agrees_forward :
    ∃ (L : Launch) (m : Moment) (earlier : Journal) (c : NamedCall), L.source = forwardCall ∧
      (m :: earlier) <:+ L.log twoFunctions 9 99 ∧ m.event.call? = some c ∧
      L.globals.frame ∈ c.scope.chain ∧
      L.final.decorations.get? c.mark = some (.function ⟨0, "inc", 1⟩) ∧
      ∃ later ∈ L.program.methods, later.key = (c.name, c.arguments.length) ∧
        c.callee = methodFunction L.globals later := by
  obtain ⟨L, m, earlier, c, hL, hm, hc, hin, hd, hnative⟩ := exists_forward_call
  refine ⟨L, m, earlier, c, hL.source, hm, hc, hin, hd, ?_⟩
  obtain ⟨decorated, hd', hagrees⟩ :=
    call_binding_agrees workOnArguments_twoFunctions.onlyPrint hm hc hin
  rw [hd] at hd'
  cases hd'
  rcases hagrees.host (zero_mem_frames hL) with
    ⟨f, _, _, hg⟩ | ⟨before, caller, after, hall, _, hlater, hnone⟩
  · exact absurd hg (not_incFunction hL hnative)
  by_contra hmethods
  refine not_incFunction hL hnative (hnone fun later hmem hkey => hmethods ?_)
  exact ⟨later, by simp [hall, hmem], hkey, hlater later hmem hkey⟩

/-- A call that is decorated with a function of the host may call a method. -/
theorem exists_call_beside_decoration :
    ¬ ∀ (N : Natives) (L : Launch) (fuel depth : Nat) (m : Moment) (earlier : Journal)
      (c : NamedCall) (decorated : FunctionRef), N.OnlyPrint →
      (m :: earlier) <:+ L.log N fuel depth → m.event.call? = some c →
      L.globals.frame ∈ c.scope.chain →
      L.final.decorations.get? c.mark = some (.function decorated) → decorated.frame ∈ L.frames →
      L.store.getFunction? decorated = some c.callee := by
  intro hall
  obtain ⟨L, m, earlier, c, hL, hm, hc, hin, hd, hnative⟩ := exists_forward_call
  exact not_incFunction hL hnative (hall twoFunctions L 9 99 m earlier c _
    workOnArguments_twoFunctions.onlyPrint hm hc hin hd (zero_mem_frames hL))

end LetDef
