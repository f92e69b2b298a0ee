import LetDef.Proofs.Execution.Order
import LetDef.Proofs.Execution.Simulation

/-!
# The order of methods

A run defines all methods before it calls any, so it does not notice in which order they stand: the
tables that two orders lead to hold the same functions, and what is evaluated in them ends alike.
Only a method that is known as `print` with one parameter makes a difference, because the scope has
such a function already. The run stops there, and the methods before it have been defined.
-/

namespace LetDef.Execution

/-! ### Frames up to the order of functions -/

/-- The frames have the same variables and, in any order, the same functions, which are found by the
same keys. -/
structure Reordered (f g : Frame) : Prop where
  vars : f.vars = g.vars
  functions : f.functions.Perm g.functions
  getFunction? (name : String) (arity : Nat) :
    f.getFunction? name arity = g.getFunction? name arity

lemma Reordered.refl (f : Frame) : Reordered f f :=
  ⟨rfl, .refl _, fun _ _ => rfl⟩

lemma likeness_reordered : Frame.Likeness Reordered where
  vars h := h.vars
  getFunction? h := h.getFunction?
  mem_functions h _ := h.functions.mem_iff
  update h _ := ⟨rfl, h.functions, h.getFunction?⟩

/-! ### Defining methods -/

/-- The methods as functions of a scope. -/
def methodFunctions (globals : Scope) (ms : List Method) : List Function :=
  ms.map (methodFunction globals)

/-- The second world has more functions in a scope, and is the first in everything else but the
journal. -/
structure Gains (scope : Scope) (gs : List Function) (w w' : World) : Prop where
  output : w'.output = w.output
  size : w'.store.frames.size = w.store.frames.size
  vars (i : FrameId) : (w'.store.frame i).vars = (w.store.frame i).vars
  own : (w'.store.frame scope.frame).functions = (w.store.frame scope.frame).functions ++ gs
  others {i : FrameId} : i ≠ scope.frame → w'.store.frame i = w.store.frame i

variable {scope globals : Scope} {gs hs : List Function} {g : Function} {w w₁ w₂ : World}
  {ms : List Method} {m : Method} {site : Site}

lemma Gains.refl (scope : Scope) (w : World) : Gains scope [] w w :=
  ⟨rfl, rfl, fun _ => rfl, (List.append_nil _).symm, fun _ => rfl⟩

lemma Gains.trans (h : Gains scope gs w w₁) (h' : Gains scope hs w₁ w₂) :
    Gains scope (gs ++ hs) w w₂ where
  output := h'.output.trans h.output
  size := h'.size.trans h.size
  vars i := (h'.vars i).trans (h.vars i)
  own := by rw [h'.own, h.own, List.append_assoc]
  others hi := (h'.others hi).trans (h.others hi)

/-- The keys of the functions of a scope. -/
def World.keys (w : World) (scope : Scope) : List (String × Nat) :=
  (w.store.frame scope.frame).functions.map Function.key

lemma Gains.keys (h : Gains scope gs w w₁) :
    w₁.keys scope = w.keys scope ++ gs.map Function.key := by
  unfold World.keys
  rw [h.own, List.map_append]

lemma map_key_methodFunctions (globals : Scope) (ms : List Method) :
    (methodFunctions globals ms).map Function.key = ms.map Method.key := by
  unfold methodFunctions
  rw [List.map_map]
  exact List.map_congr_left fun m _ => key_methodFunction globals m

/-- A method whose key is not taken is defined. -/
lemma gives_addFunction (hsize : globals.frame < w.store.frames.size)
    (hnew : m.key ∉ w.keys globals) :
    ∃ w', Gives (addFunction m.site globals (methodFunction globals m)) w () w' ∧
      Gains globals (methodFunctions globals [m]) w w' := by
  rw [← key_methodFunction globals] at hnew
  refine ⟨_, outcome_addFunction (Frame.getFunction?_eq_none_iff.2 hnew), ?_⟩
  exact ⟨rfl, Store.size_addFunction, fun _ => Store.vars_addFunction,
    Store.functions_addFunction_self hsize, Store.frame_addFunction_of_ne⟩

/-- One whose key is taken is a fault. -/
lemma outcome_addFunction_of_mem (htaken : m.key ∈ w.keys globals) :
    outcome (addFunction m.site globals (methodFunction globals m)) w
      = (.error (.fault ⟨.naming (.duplicateFunction m.key.1 m.key.2), m.site⟩), w) := by
  rw [← key_methodFunction globals] at htaken ⊢
  have hsome := mt Frame.getFunction?_eq_none_iff.1 (not_not_intro htaken)
  obtain ⟨g, hg⟩ := Option.ne_none_iff_exists'.1 hsome
  unfold addFunction
  rw [outcome_resolving, outcome_newFunction, Store.functionConflict?, hg]
  rfl

/-- The step that defines the methods in their order. -/
def define (globals : Scope) (ms : List Method) : Run Unit :=
  ms.forM fun m => addFunction m.site globals (methodFunction globals m)

lemma define_append (ms ns : List Method) :
    define globals (ms ++ ns) = define globals ms >>= fun _ => define globals ns :=
  List.forM_append

/-- Methods with keys of their own are all defined. -/
lemma gives_define (hsize : globals.frame < w.store.frames.size)
    (hkeys : (w.keys globals ++ ms.map Method.key).Nodup) :
    ∃ w', Gives (define globals ms) w () w' ∧
      Gains globals (methodFunctions globals ms) w w' := by
  induction ms generalizing w with
  | nil => exact ⟨w, rfl, .refl globals w⟩
  | cons m ms ih =>
    have hnew : m.key ∉ w.keys globals := fun hmem =>
      (List.nodup_append.1 hkeys).2.2 _ hmem m.key (List.mem_cons_self ..) rfl
    obtain ⟨w₁, hfirst, hgains⟩ := gives_addFunction hsize hnew
    have hkeys₁ : (w₁.keys globals ++ ms.map Method.key).Nodup := by
      rw [hgains.keys, map_key_methodFunctions, List.append_assoc]
      exact hkeys
    obtain ⟨w', hrest, hmore⟩ := ih (hgains.size ▸ hsize) hkeys₁
    exact ⟨w', gives_bind.2 ⟨(), w₁, hfirst, hrest⟩, hgains.trans hmore⟩

/-- The first method whose key is taken stops the run, when those before it are defined. -/
lemma define_stops {before : List Method} (after : List Method)
    (hsize : globals.frame < w.store.frames.size)
    (hkeys : (w.keys globals ++ before.map Method.key).Nodup) (htaken : m.key ∈ w.keys globals) :
    ∃ w', outcome (define globals (before ++ m :: after)) w
        = (.error (.fault ⟨.naming (.duplicateFunction m.key.1 m.key.2), m.site⟩), w') ∧
      Gains globals (methodFunctions globals before) w w' := by
  obtain ⟨w', hbefore, hgains⟩ := gives_define hsize hkeys
  refine ⟨w', ?_, hgains⟩
  have htaken' : m.key ∈ w'.keys globals := by
    rw [hgains.keys]
    exact List.mem_append_left _ htaken
  rw [define_append, outcome_bind, hbefore]
  change outcome (addFunction m.site globals (methodFunction globals m) >>= fun _ =>
    define globals after) w' = _
  rw [outcome_bind, outcome_addFunction_of_mem htaken']

/-! ### Runs -/

/-- A run has stopped at a method that is known as `print` with one parameter. To the functions that
its scope had in the world in which it began, it has added the methods before that one. -/
def StopsAtPrint (globals : Scope) (w : World) (ms : List Method)
    (ending : Except Halt Object × World) : Prop :=
  ∃ before m after, ms = before ++ m :: after ∧ m.key = ("print", 1) ∧
    ending.1 = .error (.fault ⟨.naming (.duplicateFunction "print" 1), m.site⟩) ∧
    (ending.2.store.frame globals.frame).functions
      = (w.store.frame globals.frame).functions ++ methodFunctions globals before

/-- Runs that began in the same world have ended with the same result and the same output, and have
left the same variables and, up to their order, the same functions, but for those that they had not
come to at a method `print`. -/
structure EndsAlike (globals : Scope) (w : World) (ms ns : List Method)
    (ending ending' : Except Halt Object × World) : Prop where
  result : ending.1 = ending'.1
  output : ending.2.output = ending'.2.output
  vars (i : FrameId) : (ending.2.store.frame i).vars = (ending'.2.store.frame i).vars
  functions : (∀ i, (ending.2.store.frame i).functions.Perm (ending'.2.store.frame i).functions) ∨
    StopsAtPrint globals w ms ending ∧ StopsAtPrint globals w ns ending'

variable {N : Natives} (hN : N.WorkOnArguments) (fuel depth : Nat)

include hN in
/-- What a run does when its fields are bound and its methods are defined. -/
lemma matches_main (site : Site) :
    Matches Reordered (findMain globals site >>= fun g => invoke N fuel g [] depth)
      (findMain globals site >>= fun g => invoke N fuel g [] depth) := by
  have hR := indifferent_matches likeness_reordered
  have hat := (hR.congruence (related_matches hN)).relatedAt_self hR.limits fuel depth
  exact (matches_findMain likeness_reordered).bind fun g => hat.invoke trivial

/-- Tables to which the same functions are added in different orders. -/
lemma alike_of_gains {gs hs : List Function} (hperm : gs.Perm hs)
    (hkeys : (w.keys globals ++ gs.map Function.key).Nodup) (h : Gains globals gs w w₁)
    (h' : Gains globals hs w w₂) : World.Alike Reordered w₁ w₂ where
  output := h.output.trans h'.output.symm
  store := {
    size := h.size.trans h'.size.symm
    frame := by
      intro i
      by_cases hi : i = globals.frame
      · subst hi
        have hfunctions : (w₁.store.frame globals.frame).functions.Perm
            (w₂.store.frame globals.frame).functions := by
          rw [h.own, h'.own]
          exact hperm.append_left _
        refine ⟨(h.vars _).trans (h'.vars _).symm, hfunctions, ?_⟩
        rw [← h.keys] at hkeys
        exact Frame.getFunction?_of_perm hkeys hfunctions
      · rw [h.others hi, h'.others hi]
        exact .refl _ }

/-- The part of a run that follows the fields. -/
def afterFields (N : Natives) (fuel depth : Nat) (globals : Scope) (site : Site)
    (ms : List Method) : Run Object := do
  define globals ms
  invoke N fuel (← findMain globals site) [] depth

lemma lt_size_of_keys (hprint : w.keys globals = [("print", 1)]) :
    globals.frame < w.store.frames.size := by
  by_contra hsize
  unfold World.keys at hprint
  rw [Store.frame_of_size_le (Nat.le_of_not_lt hsize)] at hprint
  cases hprint

include hN in
/-- Where all keys are different the order of the methods does not show. -/
lemma endsAlike_of_nodup {ns : List Method} (hsize : globals.frame < w.store.frames.size)
    (hkeys : (w.keys globals ++ ms.map Method.key).Nodup) (hperm : ms.Perm ns) (site : Site) :
    EndsAlike globals w ms ns (outcome (afterFields N fuel depth globals site ms) w)
      (outcome (afterFields N fuel depth globals site ns) w) := by
  have hkeys' : (w.keys globals ++ ns.map Method.key).Nodup :=
    ((hperm.map Method.key).append_left _).nodup_iff.1 hkeys
  obtain ⟨w₁, hgives, hgains⟩ := gives_define hsize hkeys
  obtain ⟨w₂, hgives', hgains'⟩ := gives_define hsize hkeys'
  rw [← map_key_methodFunctions globals] at hkeys
  have halike := alike_of_gains (hperm.map (methodFunction globals)) hkeys hgains hgains'
  obtain ⟨hend, hworlds⟩ := matches_main hN fuel depth site w₁ w₂ halike
  unfold afterFields
  rw [outcome_bind, outcome_bind, hgives, hgives']
  exact ⟨hend, hworlds.output, fun i => (hworlds.store.frame i).vars,
    .inl fun i => (hworlds.store.frame i).functions⟩

/-- A method that is known as `print` with one parameter stops the run. -/
lemma stopsAtPrint (hprint : w.keys globals = [("print", 1)]) (hkeys : (ms.map Method.key).Nodup)
    (hm : m ∈ ms) (hkey : m.key = ("print", 1)) (site : Site) :
    ∃ w' before after, ms = before ++ m :: after ∧
      outcome (afterFields N fuel depth globals site ms) w
        = (.error (.fault ⟨.naming (.duplicateFunction "print" 1), m.site⟩), w') ∧
      Gains globals (methodFunctions globals before) w w' := by
  obtain ⟨before, after, rfl⟩ := List.append_of_mem hm
  rw [List.map_append, List.map_cons, hkey] at hkeys
  have hnodup : (w.keys globals ++ before.map Method.key).Nodup := by
    rw [hprint]
    exact (List.nodup_middle.1 hkeys).sublist (by simp)
  have htaken : m.key ∈ w.keys globals := by
    rw [hprint, hkey]
    exact List.mem_singleton_self _
  obtain ⟨w', hstops, hgains⟩ := define_stops after (lt_size_of_keys hprint) hnodup htaken
  refine ⟨w', before, after, rfl, ?_, hgains⟩
  unfold afterFields
  rw [outcome_bind, hstops, hkey]

include hN in
lemma endsAlike_afterFields {ns : List Method} (hprint : w.keys globals = [("print", 1)])
    (hkeys : (ms.map Method.key).Nodup) (hperm : ms.Perm ns) (site : Site) :
    EndsAlike globals w ms ns (outcome (afterFields N fuel depth globals site ms) w)
      (outcome (afterFields N fuel depth globals site ns) w) := by
  by_cases hclash : ∃ m ∈ ms, m.key = ("print", 1)
  · obtain ⟨m, hm, hkey⟩ := hclash
    have hkeys' := (hperm.map Method.key).nodup_iff.1 hkeys
    obtain ⟨w₁, before, after, hms, hout, hgains⟩ :=
      stopsAtPrint fuel depth hprint hkeys hm hkey site
    obtain ⟨w₂, before', after', hns, hout', hgains'⟩ :=
      stopsAtPrint fuel depth hprint hkeys' (hperm.mem_iff.1 hm) hkey site
    rw [hout, hout']
    refine ⟨rfl, hgains.output.trans hgains'.output.symm,
      fun i => (hgains.vars i).trans (hgains'.vars i).symm, .inr ⟨?_, ?_⟩⟩
    · exact ⟨before, m, after, hms, hkey, rfl, hgains.own⟩
    · exact ⟨before', m, after', hns, hkey, rfl, hgains'.own⟩
  · refine endsAlike_of_nodup hN fuel depth (lt_size_of_keys hprint) ?_ hperm site
    rw [hprint]
    refine List.nodup_cons.2 ⟨fun hmem => ?_, hkeys⟩
    obtain ⟨m, hm, hkey⟩ := List.mem_map.1 hmem
    exact hclash ⟨m, hm, hkey⟩

lemma StopsAtPrint.guarded {ending : Except Halt Object × World}
    (h : StopsAtPrint globals w ms ending) (site : Site) :
    StopsAtPrint globals w ms (ending.1.mapError (Halt.guarded site), ending.2) := by
  obtain ⟨before, m, after, hms, hkey, hstops, hown⟩ := h
  refine ⟨before, m, after, hms, hkey, ?_, hown⟩
  rw [hstops]
  rfl

/-- The guard against too deep nesting makes no difference to runs that end alike. -/
lemma EndsAlike.guarded {ns : List Method} {ending ending' : Except Halt Object × World}
    (h : EndsAlike globals w ms ns ending ending') (site : Site) :
    EndsAlike globals w ms ns (ending.1.mapError (Halt.guarded site), ending.2)
      (ending'.1.mapError (Halt.guarded site), ending'.2) := by
  refine ⟨by rw [h.result], h.output, h.vars, h.functions.imp_right ?_⟩
  exact And.imp (·.guarded site) (·.guarded site)

lemma EndsAlike.of_functions {ns : List Method} {ending ending' : Except Halt Object × World}
    (h : EndsAlike globals w₁ ms ns ending ending')
    (hsame : (w₁.store.frame globals.frame).functions = (w.store.frame globals.frame).functions) :
    EndsAlike globals w ms ns ending ending' := by
  refine ⟨h.result, h.output, h.vars, ?_⟩
  have hfunctions := h.functions
  unfold StopsAtPrint at hfunctions ⊢
  rwa [hsame] at hfunctions

include hN in
/-- Fields are bound without defining functions. -/
lemma functions_fields (globals : Scope) (fs : List Field) (w : World) (i : FrameId) :
    ((outcome (fs.forM fun f => bindField N fuel globals f depth) w).2.store.frame i).functions
      = (w.store.frame i).functions := by
  have hR := worldOrder_functions.indifferent
  have hcong := hR.congruence (worldOrder_functions.related hN.onlyPrint 0)
  have hfields := hcong.bindField_self hR.limits fuel depth globals
  exact hcong.forM (g := fun f => bindField N fuel globals f depth) hfields fs w i

include hN in
lemma endsAlike_program {p : Program} (hprint : w.keys globals = [("print", 1)])
    (hkeys : (p.methods.map Method.key).Nodup) (hperm : p.methods.Perm ms) :
    EndsAlike globals w p.methods ms (outcome (program N fuel depth globals p) w)
      (outcome (program N fuel depth globals { p with methods := ms }) w) := by
  have hfunctions := functions_fields hN fuel depth globals p.fields w globals.frame
  unfold program
  rw [outcome_bind, outcome_bind]
  rcases hout : outcome (p.fields.forM fun f => bindField N fuel globals f depth) w
    with ⟨halt | u, w₁⟩
  · exact ⟨rfl, rfl, fun _ => rfl, .inl fun _ => .refl _⟩
  · rw [hout] at hfunctions
    have hprint₁ : w₁.keys globals = [("print", 1)] := by
      rw [← hprint, World.keys, hfunctions, World.keys]
    exact (endsAlike_afterFields hN fuel depth hprint₁ hkeys hperm p.site).of_functions hfunctions

lemma keys_globalScope {parent : Option Scope} {host : Store}
    (hw : w.store = (globalScope parent host).2) :
    w.keys (globalScope parent host).1 = [("print", 1)] := by
  have hsize : (host.enter parent).1.frame < (host.enter parent).2.frames.size := by
    rw [Store.size_enter]
    exact Nat.lt_succ_self _
  have hempty : (host.enter parent).2.frame (host.enter parent).1.frame = {} := by
    rw [Store.frame_enter]
    exact Store.frame_of_size_le (Nat.le_refl _)
  unfold World.keys globalScope
  rw [hw, globalScope, Store.functions_addFunction_self hsize, hempty]
  rfl

/-- If the methods of a program have different names or numbers of parameters, their order does not
matter to a run, whatever host it is in, if the functions of the host work on their arguments:
neither its result nor its output nor the variables that it leaves depend on it, nor do the
functions but for their order, unless a method is known as `print` with one parameter. -/
theorem method_order_irrelevant {N : Natives} (hN : N.WorkOnArguments) {p : Program}
    {ms : List Method} (hkeys : (p.methods.map Method.key).Nodup) (hperm : p.methods.Perm ms)
    (parent : Option Scope) (host : Store) (fuel depth : Nat) {w : World}
    (hw : w.store = (globalScope parent host).2) :
    EndsAlike (globalScope parent host).1 w p.methods ms
      (outcome (run N fuel depth (globalScope parent host).1 p) w)
      (outcome (run N fuel depth (globalScope parent host).1 { p with methods := ms }) w) := by
  rw [outcome_run, outcome_run]
  exact (endsAlike_program hN fuel depth (keys_globalScope hw) hkeys hperm).guarded p.site

/-- A program whose main method prints what a function of the host yields, and then misspells the
name of another method. -/
def misspelling : Program where
  fields := []
  methods :=
    [{ name := "main", parameters := [], parameterTypes := [], returnType := none
       body :=
        [.perform {} (.call {} .absent "print"
          [incCall (.literal {} (.value (.integer 1)) "integer")]),
         .perform {} (.call {} .absent "hepler" [])] },
     { name := "helper", parameters := [], parameterTypes := [], returnType := none, body := [] }]

/-- The other method is suggested, in whichever order they stand. -/
theorem method_order_irrelevant_misspelling :
    let ending ms := outcome
      (run twoFunctions 9 19 incStart.1 { misspelling with methods := ms }) incStart.2
    EndsAlike incStart.1 incStart.2 misspelling.methods misspelling.methods.reverse
      (ending misspelling.methods) (ending misspelling.methods.reverse) ∧
    (ending misspelling.methods).1
      = .error (.fault ⟨.naming (.undefinedFunction "hepler" 0 ["helper/0"]),
          ⟨some .call, none⟩⟩) ∧
    (ending misspelling.methods).2.output = "2\n" :=
  ⟨method_order_irrelevant workOnArguments_twoFunctions (by decide) (List.reverse_perm _).symm
    (some ⟨0, []⟩) incStore 9 19 rfl, by decide +kernel⟩

/-- A program with a method that is known as `print` with one parameter. -/
def printing : Program where
  fields := []
  methods :=
    [{ name := "print", parameters := ["x"], parameterTypes := ["Any"], returnType := none
       body := [] },
     { name := "main", parameters := [], parameterTypes := [], returnType := none, body := [] }]

/-- Methods with different keys may leave different functions in another order. -/
theorem exists_order_left_in_table : ∃ (p : Program) (ms : List Method) (w : World),
    (p.methods.map Method.key).Nodup ∧ p.methods.Perm ms ∧ w.store = (globalScope none {}).2 ∧
    ¬ ((outcome (run .none 9 9 (globalScope none {}).1 p) w).2.store.frame 0).functions.Perm
      ((outcome (run .none 9 9 (globalScope none {}).1 { p with methods := ms }) w).2.store.frame
        0).functions := by
  refine ⟨printing, printing.methods.reverse, .bare, by decide, (List.reverse_perm _).symm, rfl,
    fun hperm => ?_⟩
  have hlength := hperm.length_eq
  revert hlength
  decide +kernel

end LetDef.Execution
