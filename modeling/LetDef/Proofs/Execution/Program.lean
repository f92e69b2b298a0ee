import LetDef.Proofs.Execution.Preservation

/-!
# Running typed programs

A run binds the fields, defines the methods and invokes `main`. The fields are bound in a setting of
their own, in which only `print` is known. Each method that is defined then makes the setting
larger, until it is the one in which the bodies of methods are typed.
-/

namespace LetDef.Execution

open LetDef.Typing

namespace Setting

variable {N : Natives} {root : Node} {final : Analysis.State} {globals globals₁ bs : List Binding}
  {known known₁ : List Function} {w w₁ : World} {fuel depth : Nat} {t : Ty}

/-! ### Fields -/

/-- The setting of the fields: no method is known, and no field is relied on beyond those which the
value of a field names. -/
def ofFields (root : Node) (final : Analysis.State) : Setting :=
  ⟨root, final, [Analysis.printFunction], []⟩

/-- Every scope of the outermost frame sees no bindings at all. -/
lemma sees_nil (h : 0 < w.store.frames.size) : Sees [] ⟨0, []⟩ w where
  size i hi := by
    rw [List.mem_singleton.1 hi]
    exact h
  home := List.mem_singleton.2 rfl
  finds _ _ ho := by cases ho

lemma bindField_safe {f : Field} (hv : Fits root final [Analysis.printFunction] bs f.value t)
    (ha : Adds final bs f.name (.declaration f.mark) t f.constant)
    (hi : (ofFields root final).Inv w) (hh : Holds [] bs ⟨0, []⟩ w) :
    (ofFields root final).Safe (some 0)
      (fun _ w₁ => Holds [] ((f.name, .declaration f.mark) :: bs) ⟨0, []⟩ w₁)
      (bindField N fuel ⟨0, []⟩ f depth) w := by
  cases depth with
  | zero => exact safe_tooDeep hi
  | succ depth =>
    have hsees : Sees bs ⟨0, []⟩ w := by
      have hsees := hh.toSees
      rwa [List.append_nil] at hsees
    have hvalue := optional_safe (safeAt N (ofFields root final) fuel depth) List.prefix_rfl hv hi
      hsees
    rw [bindField]
    refine ends_ite_bind ((hvalue.holding hh).bind ?_)
    rintro o w₁ hi₁ _ ⟨ho, hh₁⟩
    refine safe_addVariable hi₁ hh₁ ha ho fun w₂ hs => sees_nil ?_
    exact Nat.lt_of_lt_of_le (hi₁.fields.size 0 hi₁.fields.home) hs.store.size

lemma fields_safe {fs : List Field}
    (hfs : FieldsTyped root final [Analysis.printFunction] bs fs globals)
    (hi : (ofFields root final).Inv w) (hh : Holds [] bs ⟨0, []⟩ w) :
    (ofFields root final).Safe (some 0) (fun _ w₁ => Holds [] globals ⟨0, []⟩ w₁)
      (fs.forM fun f => bindField N fuel ⟨0, []⟩ f depth) w := by
  induction hfs generalizing w with
  | nil => exact safe_pure hi hh
  | cons hv ha _ ih =>
    refine (bindField_safe hv ha hi hh).bind fun _ w₁ hi₁ _ hh₁ => ?_
    exact ih hi₁ hh₁

/-! ### Methods -/

/-- What a function implements, it implements also where one more is known. -/
lemma Implements.append {g g' f : Function}
    (h : (⟨root, final, known, globals⟩ : Setting).Implements g f) :
    (⟨root, final, known ++ [g'], globals⟩ : Setting).Implements g f := by
  cases h with
  | print => exact .print
  | method hp hm => exact .method (hp.trans (List.prefix_append _ _)) hm

/-- A method is defined, and the setting in which it is typed holds. -/
lemma method_inv {m : Method} {g : Function} (hnew : named? known g.name g.arity = none)
    (hm : MethodTyped root final (known ++ [g]) globals m g)
    (hi : (⟨root, final, known, globals⟩ : Setting).Inv w) :
    ∃ w₁, Gives (addFunction m.site ⟨0, []⟩ (methodFunction ⟨0, []⟩ m)) w () w₁ ∧
      (⟨root, final, known ++ [g], globals⟩ : Setting).Inv w₁ := by
  have hself : (⟨root, final, known ++ [g], globals⟩ : Setting).Implements g
      (methodFunction ⟨0, []⟩ m) := .method List.prefix_rfl hm
  obtain ⟨hname, harity⟩ := hself.key
  have hnone : named? (w.store.frame 0).functions (methodFunction ⟨0, []⟩ m).name
      (methodFunction ⟨0, []⟩ m).arity = none := by
    rw [hname, harity]
    exact named?_eq_none hi.functions hnew
  have hsize : 0 < w.store.frames.size := hi.fields.size 0 hi.fields.home
  -- The function comes behind those that are known, like the method in the typing; variables are
  -- not touched.
  refine ⟨_, outcome_addFunction hnone, ?_, ?_, ?_, ?_⟩
  · refine hi.toTracked.after_same trivial (by simp) fun ref => ?_
    unfold Store.getVariable? Frame.getVariable?
    rw [Store.vars_addFunction]
  · change List.Forall₂ _ (known ++ [g])
      ((w.store.addFunction ⟨0, []⟩ (methodFunction ⟨0, []⟩ m)).frame 0).functions
    rw [Store.functions_addFunction_self hsize]
    exact List.rel_append (hi.functions.imp fun _ _ h => h.append) (.cons hself .nil)
  · intro i h0
    change ((w.store.addFunction ⟨0, []⟩ (methodFunction ⟨0, []⟩ m)).frame i).functions = []
    rw [Store.frame_addFunction_of_ne h0]
    exact hi.others i h0
  · refine ⟨?_, hi.fields.home, ?_⟩
    · intro i h0
      exact Nat.lt_of_lt_of_eq (hi.fields.size i h0) Store.size_addFunction.symm
    · intro name origin ho
      obtain ⟨ref, v, hfind, hcreated⟩ := hi.fields.finds name origin ho
      refine ⟨ref, v, ?_, Occurs.mono hcreated hi.suffix_after⟩
      change (w.store.addFunction ⟨0, []⟩ (methodFunction ⟨0, []⟩ m)).findVariable? _ _ = _
      rw [Store.findVariable?_addFunction, hfind]

lemma methods_inv {ms : List Method} (hms : MethodsTyped root final globals known ms known₁)
    (hi : (⟨root, final, known, globals⟩ : Setting).Inv w) :
    ∃ w₁, Gives (ms.forM fun m => addFunction m.site ⟨0, []⟩ (methodFunction ⟨0, []⟩ m)) w () w₁ ∧
      (⟨root, final, known₁, globals⟩ : Setting).Inv w₁ := by
  induction hms generalizing w with
  | nil => exact ⟨w, rfl, hi⟩
  | cons hnew hm _ ih =>
    obtain ⟨w₁, hgives, hi₁⟩ := method_inv hnew hm hi
    obtain ⟨w₂, hgives₂, hi₂⟩ := ih hi₁
    exact ⟨w₂, gives_bind.2 ⟨(), w₁, hgives, hgives₂⟩, hi₂⟩

end Setting

/-! ### Runs -/

/-- The world in which a run without names from outside begins, with a journal to be kept. -/
def World.initial : World :=
  { store := (globalScope none {}).2, journal := some [] }

namespace Setting

variable {N : Natives} {final : Analysis.State} {p : Program} {globals : List Binding}
  {known : List Function} {fuel depth : Nat}

lemma functions_initial : (World.initial.store.frame 0).functions
    = [printFunction] :=
  rfl

lemma frame_initial {i : FrameId} (h : i ≠ 0) : World.initial.store.frame i = {} := by
  have hne : i ≠ (({} : Store).enter none).1.frame := h
  unfold World.initial globalScope
  rw [Store.frame_addFunction_of_ne hne, Store.frame_enter, Store.frame_of_size_le (Nat.zero_le i)]

lemma vars_initial (i : FrameId) : (World.initial.store.frame i).vars = [] := by
  by_cases h0 : i = 0
  · subst h0
    rfl
  · rw [frame_initial h0]

lemma initial_inv (root : Node) (final : Analysis.State) :
    (ofFields root final).Inv .initial where
  kept := rfl
  moments m earlier h := by
    rw [show World.initial.log = [] from rfl, List.suffix_nil] at h
    cases h
  cells := by
    refine ⟨?_, ?_⟩
    · rintro origin ref ⟨m, hm, _⟩
      cases hm
    · intro ref v hv
      unfold Store.getVariable? Frame.getVariable? at hv
      rw [vars_initial] at hv
      cases hv
  unique := by
    rintro origin origin' ref ⟨m, hm, _⟩
    cases hm
  functions := by
    rw [functions_initial]
    exact .cons .print .nil
  others i h0 := by rw [frame_initial h0]
  fields := sees_nil (by decide)

lemma initial_holds : Holds [] [] ⟨0, []⟩ .initial where
  toSees := sees_nil (by decide)
  own v hv := by
    rw [vars_initial] at hv
    cases hv

/-- `main` is found once all methods are defined, and yields an integer or nil. -/
lemma main_safe {w : World} (hi : (⟨p.toNode, final, known, globals⟩ : Setting).Inv w)
    (hmain : ∃ g, named? known "main" 0 = some g ∧ g.returns = .integer) :
    Setting.Safe ⟨p.toNode, final, known, globals⟩ none (fun o _ => Ty.integer.Admits o.value)
      (do Execution.invoke N fuel (← findMain ⟨0, []⟩ p.site) [] depth) w := by
  obtain ⟨g, hg, hreturns⟩ := hmain
  obtain ⟨ref, f, hlookup, hf⟩ := hi.lookupFunction hi.fields List.prefix_rfl hg
  have hobjects : List.Forall₂ (fun t (o : Object) => Ty.Admits t o.value) g.parameters [] := by
    have hkey := List.find?_some hg
    rw [Bool.and_eq_true, beq_iff_eq, beq_iff_eq] at hkey
    rw [List.length_eq_zero_iff.1 hkey.2]
    exact .nil
  have hsafe := (safeAt N ⟨p.toNode, final, known, globals⟩ fuel depth).invoke hf hobjects hi
  rw [hreturns] at hsafe
  refine ends_bind ?_
  unfold Ends
  rw [outcome_findMain, hlookup]
  exact hsafe

/-- The fields are bound and the methods defined: the setting of the methods holds. -/
lemma methods_setting {w : World} (hp : ProgramTyped final p globals known)
    (hi : (ofFields p.toNode final).Inv w) (hs : Step (some 0) World.initial w)
    (hh : Holds [] globals ⟨0, []⟩ w) :
    ∃ w₁, Gives (p.methods.forM fun m => addFunction m.site ⟨0, []⟩ (methodFunction ⟨0, []⟩ m))
        w () w₁ ∧ (⟨p.toNode, final, known, globals⟩ : Setting).Inv w₁ := by
  refine methods_inv hp.methods ⟨hi.toTracked, ?_, hi.others, ?_⟩
  · rw [hs.store.functions, functions_initial]
    exact .cons .print .nil
  · have hsees := hh.toSees
    rwa [List.append_nil] at hsees

lemma program_safe (hp : ProgramTyped final p globals known) :
    Ends (fun o w => Ty.integer.Admits o.value ∧ Tracked p.toNode final w)
      (fun h w => Excused p.toNode final w.log h ∧ Tracked p.toNode final w)
      (program N fuel depth ⟨0, []⟩ p) .initial := by
  unfold program
  refine ends_bind (Ends.imp (fields_safe hp.fields (initial_inv p.toNode final) initial_holds) ?_
    fun _ _ h => h)
  rintro _ w ⟨hi, hs, hh⟩
  obtain ⟨w₁, hgives, hi₁⟩ := methods_setting hp hi hs hh
  refine ends_bind ?_
  unfold Ends
  rw [hgives]
  refine Ends.imp (main_safe hi₁ hp.main) ?_ fun _ _ h => h
  rintro o w₂ ⟨hi₂, _, ho⟩
  exact ⟨ho, hi₂.toTracked⟩

end Setting

/-- The run of a typed program may end so after the moments of the journal. -/
inductive Stops (final : Analysis.State) (p : Program) (j : Journal) : Halt → Prop
  | callDepth : Stops final p j (.fault ⟨.callDepth, p.site⟩)
  | excused {h : Halt} (hd : h ≠ .tooDeep) (he : Setting.Excused p.toNode final j h) :
      Stops final p j h

/-- A typed program yields an integer or nil or stops as it may, and all its moments are typed. -/
theorem run_safe {N : Natives} {final : Analysis.State} {p : Program} {globals : List Binding}
    {known : List Function} {fuel depth : Nat} (hp : ProgramTyped final p globals known) :
    Ends (fun o w => Ty.integer.Admits o.value ∧ Tracked p.toNode final w)
      (fun h w => Stops final p w.log h ∧ Tracked p.toNode final w)
      (run N fuel depth ⟨0, []⟩ p) .initial := by
  unfold run guarding
  refine ends_tryCatch (Ends.imp (Setting.program_safe hp) (fun _ _ h => h) ?_)
  rintro h w ⟨he, ht⟩
  cases h with
  | tooDeep => exact ends_throw ⟨.callDepth, ht⟩
  | _ => exact ends_throw ⟨.excused (by simp) he, ht⟩

end LetDef.Execution
