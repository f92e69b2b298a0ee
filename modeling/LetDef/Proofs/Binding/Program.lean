import LetDef.Proofs.Binding.Execution
import LetDef.Proofs.Execution.Program

/-!
# Whole runs agree with decorations

A run goes through stages. Each field that is bound adds a binding to the global scope, and each
method that is defined adds a function to the global frame. Code is run while the fields are bound,
when no method is defined yet, and again in `main`, when all of them are.
-/

namespace LetDef

open Execution

namespace Stage

variable {N : Natives} {L : Launch} {table table' : List Method} {bs bs' : List Binding} {w : World}
  {g : Function} {fuel depth : Nat}

/-! ### The beginning -/

lemma initial_inv (L : Launch) : (⟨L, [], []⟩ : Stage).Inv L.initial where
  kept := rfl
  moments m earlier h := by
    rw [show L.initial.log = [] from rfl, List.suffix_nil] at h
    cases h
  callable i g hg := by
    cases hbody : g.body with
    | native n => exact .native hbody
    | method m home => exact .foreign hbody (L.unreached i g hg m home hbody)
  host := L.functions
  defined := congrArg Frame.functions L.ready.frame
  fields := by
    refine Finds.globals ?_ (congrArg Frame.vars L.ready.frame) L.outline
    rw [List.forall_mem_cons]
    exact ⟨L.ready.size, fun i hi => Nat.lt_trans (L.ready.older i hi) L.ready.size⟩

/-! ### Fields -/

/-- What may be invoked may be invoked when there are more methods. -/
lemma Callable.mono (h : (⟨L, table, bs⟩ : Stage).Callable g) (ht : table ⊆ table') :
    (⟨L, table', bs'⟩ : Stage).Callable g := by
  cases h with
  | native h => exact .native h
  | foreign h hout => exact .foreign h hout
  | method hm h => exact .method (ht hm) h

/-- A variable of the global frame adds a binding. -/
lemma Inv.bind {origin : Origin} {v : Variable} (hi : (⟨L, table, bs⟩ : Stage).Inv w)
    (hnew : (w.store.frame L.globals.frame).getVariable? v.name = none) :
    (⟨L, table, (v.name, origin) :: bs⟩ : Stage).Inv
      (w.after (.created origin ⟨L.globals.frame, v.name⟩)
        (w.store.addVariable L.globals v)) := by
  have hsame : ∀ i, ((w.store.addVariable L.globals v).frame i).functions
      = (w.store.frame i).functions :=
    (Store.grows_addVariable (hi.fields.size _ (List.mem_cons_self ..))).functions
  refine ⟨hi.toFaithful.after trivial, ?_, ?_, ?_, finds_create hi.fields hi.kept hnew⟩
  · intro i g hg
    have hg' : g ∈ (w.store.frame i).functions := by
      rw [← hsame i]
      exact hg
    exact (hi.callable i g hg').mono fun _ h => h
  · intro i hhost
    exact (hsame i).trans (hi.host i hhost)
  · exact (hsame _).trans hi.defined

/-- A field is bound at the stage at which its value is evaluated. -/
lemma bindField_ends (hN : N.OnlyPrint) {f : Field} (hi : (⟨L, [], bs⟩ : Stage).Inv w)
    (hf : L.Resolves f.value (.within (.field f) bs)) :
    Ends (fun _ w₁ => (⟨L, [], f.binding :: bs⟩ : Stage).Inv w₁) (fun _ w₁ => L.Faithful w₁)
      (bindField N fuel L.globals f depth) w := by
  cases depth with
  | zero => exact ends_throw hi.toFaithful
  | succ depth =>
    have hready : (⟨L, [], bs⟩ : Stage).Ready (.within (.field f) bs) L.globals w :=
      ⟨rfl, hi.fields⟩
    have hvalue := optional_keeps (keepsAt hN (.inl rfl) fuel depth) hf hi hready
    rw [bindField]
    refine ends_ite_bind (Ends.bind hvalue ?_)
    rintro o w₁ ⟨hi₁, _, _⟩
    exact ends_addVariable hi₁.toFaithful hi₁.bind

lemma fields_ends (hN : N.OnlyPrint) {before fs : List Field}
    (hfs : L.program.fields = before ++ fs)
    (hi : (⟨L, [], Field.bindings before⟩ : Stage).Inv w) :
    Ends (fun _ w₁ => (⟨L, [], Field.bindings L.program.fields⟩ : Stage).Inv w₁)
      (fun _ w₁ => L.Faithful w₁) (fs.forM fun f => bindField N fuel L.globals f depth) w := by
  induction fs generalizing before w with
  | nil =>
    rw [hfs, List.append_nil]
    exact ends_pure hi
  | cons f fs ih =>
    have hf := L.program_passed.resolved.fields before f fs hfs
    refine (bindField_ends hN hi hf).bind ?_
    intro _ w₁ hi₁
    rw [← Field.bindings_append] at hi₁
    exact ih (by rw [hfs, List.append_assoc, List.singleton_append]) hi₁

/-! ### Methods -/

/-- A method that is defined may be invoked. -/
lemma Inv.define {m : Method} {e : Event} (hi : (⟨L, table, bs⟩ : Stage).Inv w)
    (he : L.Agrees w.log e) :
    (⟨L, table ++ [m], bs⟩ : Stage).Inv
      (w.after e (w.store.addFunction L.globals (methodFunction L.globals m))) := by
  have hself : ((w.store.addFunction L.globals (methodFunction L.globals m)).frame
      L.globals.frame).functions
        = Execution.printFunction :: (table ++ [m]).map (methodFunction L.globals) := by
    refine (Store.functions_addFunction_self
      (hi.fields.size _ (List.mem_cons_self ..))).trans ?_
    rw [List.map_append, ← List.cons_append]
    exact congrArg (· ++ _) hi.defined
  have hothers : ∀ i, i ≠ L.globals.frame →
      ((w.store.addFunction L.globals (methodFunction L.globals m)).frame i).functions
        = (w.store.frame i).functions :=
    fun i hne => congrArg Frame.functions (Store.frame_addFunction_of_ne hne)
  refine ⟨hi.toFaithful.after he, ?_, ?_, hself, ?_⟩
  · intro i g hg
    by_cases heq : i = L.globals.frame
    · have hg' : g ∈ Execution.printFunction :: (table ++ [m]).map (methodFunction L.globals) := by
        rw [← hself, ← heq]
        exact hg
      rcases List.mem_cons.1 hg' with rfl | hg'
      · exact .native rfl
      · obtain ⟨m', hm', rfl⟩ := List.mem_map.1 hg'
        exact .method hm' rfl
    · have hg' : g ∈ (w.store.frame i).functions := by
        rw [← hothers i heq]
        exact hg
      exact (hi.callable i g hg').mono (List.subset_append_left _ _)
  · intro i hhost
    have hne : i ≠ L.globals.frame := Nat.ne_of_lt (L.ready.older i hhost)
    exact (hothers i hne).trans (hi.host i hhost)
  · refine Finds.mono hi.fields.addFunction ?_
    intro _ _ hc
    exact Occurs.mono hc hi.suffix_after

lemma define_ends {m : Method} (hi : (⟨L, table, bs⟩ : Stage).Inv w) :
    Ends (fun _ w₁ => (⟨L, table ++ [m], bs⟩ : Stage).Inv w₁) (fun _ w₁ => L.Faithful w₁)
      (addFunction m.site L.globals (methodFunction L.globals m)) w := by
  unfold Ends addFunction
  rw [outcome_resolving, outcome_newFunction]
  cases w.store.functionConflict? L.globals (methodFunction L.globals m).name
      (methodFunction L.globals m).arity with
  | some e => exact hi.toFaithful
  | none => exact hi.define trivial

lemma methods_ends {ms : List Method} (hi : (⟨L, table, bs⟩ : Stage).Inv w) :
    Ends (fun _ w₁ => (⟨L, table ++ ms, bs⟩ : Stage).Inv w₁) (fun _ w₁ => L.Faithful w₁)
      (ms.forM fun m => addFunction m.site L.globals (methodFunction L.globals m)) w := by
  induction ms generalizing table w with
  | nil =>
    rw [List.append_nil]
    exact ends_pure hi
  | cons m ms ih =>
    refine (define_ends hi).bind ?_
    intro _ w₁ hi₁
    have hrest := ih hi₁
    rwa [List.append_assoc, List.singleton_append] at hrest

/-! ### Runs -/

lemma program_ends (hN : N.OnlyPrint) (L : Launch) (fuel depth : Nat) :
    Ends (fun _ w => L.Faithful w) (fun _ w => L.Faithful w)
      (program N fuel depth L.globals L.program) L.initial := by
  have hi₀ : (⟨L, [], Field.bindings []⟩ : Stage).Inv L.initial := initial_inv L
  unfold program
  refine (fields_ends hN (List.nil_append _).symm hi₀).bind ?_
  intro _ w hi
  refine (methods_ends hi).bind ?_
  intro _ w₁ hi₁
  rw [List.nil_append] at hi₁
  refine ends_bind ?_
  unfold Ends
  rw [outcome_findMain]
  cases hmain : w₁.store.lookupFunction L.globals "main" 0 with
  | error e => exact hi₁.toFaithful
  | ok found =>
    have hcomplete : (⟨L, L.program.methods, Field.bindings L.program.fields⟩ : Stage).Complete :=
      .inr ⟨rfl, rfl⟩
    have hkeeps := keepsAt hN hcomplete fuel depth
    refine Ends.imp (hkeeps.invoke (hi₁.callable_of_lookup hmain) hi₁) ?_ fun _ _ h => h
    rintro _ w₂ ⟨hi₂, _, _⟩
    exact hi₂.toFaithful

end Stage

/-- However a run ends, all its moments agree with the decorations of the program. -/
theorem Launch.run_faithful {N : Natives} (hN : N.OnlyPrint) (L : Launch) (fuel depth : Nat) :
    L.Faithful (outcome (run N fuel depth L.globals L.program) L.initial).2 := by
  have hends : Ends (fun _ w => L.Faithful w) (fun _ w => L.Faithful w)
      (run N fuel depth L.globals L.program) L.initial := by
    unfold run guarding
    refine ends_tryCatch (Ends.imp (Stage.program_ends hN L fuel depth) (fun _ _ h => h) ?_)
    intro h w hf
    cases h <;> exact ends_throw hf
  exact hends.state

end LetDef
