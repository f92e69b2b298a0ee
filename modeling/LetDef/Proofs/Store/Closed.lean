import LetDef.Analysis.Program
import LetDef.Execution.Program
import LetDef.Host
import LetDef.Proofs.Analysis.Program
import LetDef.Proofs.Store.Layout

/-!
# Closed stores

A store is closed if all that it refers to is in it. What a host provides is closed, and it stays so
when a program gets a scope of its own inside.
-/

namespace LetDef

variable {base base' : Nat} {s : Store} {scope : Scope}

/-! ### Changes of a store -/

lemma Scope.Within.mono (h : scope.Within base) (hle : base ≤ base') : scope.Within base' :=
  fun i hi => Nat.lt_of_lt_of_le (h i hi) hle

lemma Object.Within.mono {o : Object} (h : o.Within base) (hle : base ≤ base') : o.Within base' :=
  fun scope hscope => (h scope hscope).mono hle

lemma Ty.Within.mono {t : Ty} (h : t.Within base) (hle : base ≤ base') : t.Within base' :=
  fun scope hscope => (h scope hscope).mono hle

namespace Store

namespace Within

lemma mono (h : s.Within base) (hle : base ≤ base') : s.Within base' where
  vars i v hv := ⟨(h.vars i v hv).type.mono hle, (h.vars i v hv).value.mono hle⟩
  functions i g hg :=
    ⟨fun t ht => ((h.functions i g hg).parameters t ht).mono hle,
      (h.functions i g hg).returns.mono hle,
      fun hbody => ((h.functions i g hg).home hbody).mono hle⟩

lemma enter (h : s.Within base) (parent : Option Scope) : (s.enter parent).2.Within base where
  vars i := by
    rw [frame_enter]
    exact h.vars i
  functions i := by
    rw [frame_enter]
    exact h.functions i

/-- A frame is changed so that it has nothing new that is out of range. -/
lemma modifyFrame (h : s.Within base) {i : FrameId} {f : Frame → Frame}
    (hvars : ∀ v ∈ (f (s.frame i)).vars, v.Within base)
    (hfunctions : ∀ g ∈ (f (s.frame i)).functions, g.Within base) :
    (s.modifyFrame i f).Within base := by
  have hframe (j : FrameId) : (s.modifyFrame i f).frame j = s.frame j ∨
      j = i ∧ (s.modifyFrame i f).frame j = f (s.frame i) := by
    by_cases hj : j = i
    · subst hj
      rcases Nat.lt_or_ge j s.frames.size with hsize | hsize
      · exact .inr ⟨rfl, frame_modifyFrame_self hsize⟩
      · exact .inl (frame_modifyFrame_of_size_le hsize)
    · exact .inl (frame_modifyFrame_of_ne hj)
  constructor
  · intro j
    rcases hframe j with heq | ⟨rfl, heq⟩ <;> rw [heq]
    · exact h.vars j
    · exact hvars
  · intro j
    rcases hframe j with heq | ⟨rfl, heq⟩ <;> rw [heq]
    · exact h.functions j
    · exact hfunctions

lemma addVariable (h : s.Within base) {v : Variable} (hv : v.Within base) :
    (s.addVariable scope v).Within base := by
  refine h.modifyFrame (fun w hw => ?_) (h.functions _)
  rcases List.mem_append.1 hw with hw | hw
  · exact h.vars _ w hw
  · rw [List.mem_singleton.1 hw]
    exact hv

lemma addFunction (h : s.Within base) {g : Function} (hg : g.Within base) :
    (s.addFunction scope g).Within base := by
  refine h.modifyFrame (h.vars _) fun g' hg' => ?_
  rcases List.mem_append.1 hg' with hg' | hg'
  · exact h.functions _ g' hg'
  · rw [List.mem_singleton.1 hg']
    exact hg

end Within

/-- A scope that is entered, with what the scopes around it had. -/
lemma scope_within_enter {parent : Option Scope}
    (hparent : ∀ scope ∈ parent, scope.Within s.frames.size) :
    (s.enter parent).1.Within (s.frames.size + 1) := by
  intro i hi
  cases parent with
  | none => simp_all [Store.enter, Scope.chain]
  | some outer =>
    rcases List.mem_cons.1 hi with rfl | hi
    · exact Nat.lt_succ_self _
    · exact Nat.lt_succ_of_lt (hparent outer rfl i hi)

end Store

/-! ### The scope of a program -/

section

variable {parent : Option Scope} (h : s.Within s.frames.size)
  (hparent : ∀ scope ∈ parent, scope.Within s.frames.size)

include h hparent

/-- A scope with a function of the host is entered. -/
lemma Store.within_enter_addFunction {g : Function} (hg : g.Within (s.frames.size + 1)) :
    ((s.enter parent).2.addFunction (s.enter parent).1 g).Within
        ((s.enter parent).2.addFunction (s.enter parent).1 g).frames.size ∧
      (s.enter parent).1.Within
        ((s.enter parent).2.addFunction (s.enter parent).1 g).frames.size := by
  rw [size_addFunction, size_enter]
  exact ⟨((h.mono (Nat.le_succ _)).enter parent).addFunction hg, scope_within_enter hparent⟩

lemma Execution.within_globalScope :
    (globalScope parent s).2.Within (globalScope parent s).2.frames.size ∧
      (globalScope parent s).1.Within (globalScope parent s).2.frames.size :=
  Store.within_enter_addFunction h hparent
    (Function.within_of_native rfl (by simp [printFunction, Ty.within_any]) Ty.within_any)

lemma Analysis.within_globalScope :
    (globalScope parent s).2.Within (globalScope parent s).2.frames.size ∧
      (globalScope parent s).1.Within (globalScope parent s).2.frames.size :=
  Store.within_enter_addFunction h hparent
    (Function.within_of_native rfl (by simp [printFunction, Ty.within_any])
      (Ty.within_of_plain rfl))

end

/-! ### What a host provides -/

namespace Host

variable {α β : Type} {Q : Nat → α → Prop} {R : Nat → β → Prop} {x : Provide α}
  {added : List Ty} {e : Trouble}

/-- The step leaves a store closed that has `base` frames or more, and yields what is in its range.
-/
def Closes (base : Nat) (Q : Nat → α → Prop) (x : Provide α) : Prop :=
  ∀ ⦃s : Store⦄ ⦃a : α⦄ ⦃s' : Store⦄, base ≤ s.frames.size → s.Within s.frames.size →
    x s = .ok (a, s') →
    base ≤ s'.frames.size ∧ s'.Within s'.frames.size ∧ Q s'.frames.size a

namespace Closes

lemma pure {a : α} (h : ∀ b, base ≤ b → Q b a) : Closes base Q (pure a) := by
  rintro s _ _ hsize hs ⟨⟩
  exact ⟨hsize, hs, h _ hsize⟩

lemma throw : Closes base Q (throw e) := by
  rintro s _ _ hsize hs ⟨⟩

lemma bind {f : α → Provide β} (hx : Closes base Q x)
    (hf : ∀ b, base ≤ b → ∀ a, Q b a → Closes b R (f a)) : Closes base R (x >>= f) := by
  intro s c s' hsize hs hrun
  change (x s >>= fun r => f r.1 r.2) = _ at hrun
  rcases hr : x s with e | ⟨a, s₁⟩
  · rw [hr] at hrun
    cases hrun
  · rw [hr] at hrun
    obtain ⟨hsize₁, hs₁, ha⟩ := hx hsize hs hr
    obtain ⟨hsize₂, hs₂, hc⟩ := hf _ hsize₁ a ha le_rfl hs₁ hrun
    exact ⟨hsize₁.trans hsize₂, hs₂, hc⟩

lemma resolve {r : Except NameError α} (h : ∀ a, r = .ok a → ∀ b, base ≤ b → Q b a) :
    Closes base Q (resolve r) := by
  cases r with
  | ok a => exact .pure (h a rfl)
  | error e => exact .throw

lemma forM {f : α → Provide PUnit} (h : ∀ a b, base ≤ b → Closes b (fun _ _ => True) (f a)) :
    ∀ {b : Nat}, base ≤ b → ∀ as : List α, Closes b (fun _ _ => True) (as.forM f)
  | _, _, [] => .pure fun _ _ => trivial
  | b, hb, a :: as => (h a b hb).bind fun _ hle _ _ => forM h (hb.trans hle) as

/-- What is in range stays so, as the store only grows. -/
lemma mapM {f : β → Provide α} (hQ : ∀ a b b', b ≤ b' → Q b a → Q b' a)
    (h : ∀ a b, base ≤ b → Closes b Q (f a)) : ∀ {b : Nat}, base ≤ b → ∀ as : List β,
      Closes b (fun b' results => ∀ a ∈ results, Q b' a) (as.mapM f)
  | _, _, [] => .pure fun _ _ => nofun
  | b, hb, a :: as => by
    rw [List.mapM_cons]
    refine (h a b hb).bind fun b₁ hle₁ c hc => ?_
    refine (mapM hQ h (hb.trans hle₁) as).bind fun b₂ hle₂ cs hcs => ?_
    refine .pure fun b₃ hle₃ c' hc' => ?_
    rcases List.mem_cons.1 hc' with rfl | hc'
    · exact hQ _ _ _ (hle₂.trans hle₃) hc
    · exact hQ _ _ _ hle₃ (hcs c' hc')

/-- The store is changed by a definition in it. -/
lemma define {change : Store → Except NameError Store}
    (h : ∀ s s', base ≤ s.frames.size → s.Within s.frames.size → change s = .ok s' →
      s'.frames.size = s.frames.size ∧ s'.Within s.frames.size) :
    Closes base (fun _ _ => True) (do set (← Host.resolve (change (← get)))) := by
  intro s _ s' hsize hs hrun
  change (Host.resolve (change s) s >>= fun r => _) = _ at hrun
  cases hchange : change s with
  | error e =>
    rw [hchange] at hrun
    cases hrun
  | ok s₁ =>
    rw [hchange] at hrun
    cases hrun
    obtain ⟨hsize₁, hs₁⟩ := h s _ hsize hs hchange
    rw [hsize₁]
    exact ⟨hsize, hs₁, trivial⟩

end Closes

lemma closes_enter : Closes base (fun b scope => scope.Within b) enter := by
  intro s a s' hsize hs hrun
  obtain ⟨rfl, rfl⟩ : (s.enter none).1 = a ∧ (s.enter none).2 = s' :=
    Prod.mk.inj (Except.ok.inj hrun)
  rw [Store.size_enter]
  exact ⟨hsize.trans (Nat.le_succ _), (hs.mono (Nat.le_succ _)).enter none,
    Store.scope_within_enter nofun⟩

lemma closes_typeOf {name : String} (h : ∀ t ∈ added, t.Within base) :
    Closes base (fun b t => t.Within b) (typeOf added name) := by
  unfold typeOf
  split
  · rename_i t ht
    exact .pure fun b hb => (h t (List.mem_of_find?_eq_some ht)).mono hb
  · exact .resolve fun t ht b _ => Ty.within_of_plain (Analysis.ofName_plain ht)

lemma closes_defineFunction (h : ∀ t ∈ added, t.Within base) (f : Function) :
    Closes base (fun _ _ => True) (defineFunction added scope f) := by
  have hadded {b : Nat} (hb : base ≤ b) : ∀ t ∈ added, t.Within b := fun t ht => (h t ht).mono hb
  unfold defineFunction
  refine (Closes.mapM (fun _ _ _ hle ht => ht.mono hle)
    (fun _ _ hb => closes_typeOf (hadded hb)) le_rfl f.parameters).bind fun b₁ hle₁ ts hts => ?_
  refine (closes_typeOf (hadded hle₁)).bind fun b₂ hle₂ t ht => ?_
  refine .define fun s s' hsize hs hdefine => ?_
  unfold Store.defineFunction at hdefine
  split at hdefine
  · cases hdefine
  · cases hdefine
    exact ⟨Store.size_addFunction, hs.addFunction (Function.within_of_native rfl
      (fun t ht => (hts t ht).mono (hle₂.trans hsize)) (ht.mono hsize))⟩

mutual

lemma closes_defineVariable {base : Nat} {scope : Scope} (h : ∀ t ∈ added, t.Within base) :
    ∀ v : Variable, Closes base (fun _ _ => True) (defineVariable added scope v)
  | .mk name jvmName typeName constant value members => by
    rw [defineVariable]
    refine (closes_typeOf h).bind fun b₁ hle₁ t ht => ?_
    have h₁ : ∀ t ∈ added, t.Within b₁ := fun t ht => (h t ht).mono hle₁
    cases value.value? with
    | none => exact .throw
    | some v =>
      -- The variable is added last, when its members have their frames, so the bound may have
      -- grown.
      have hdefine (b₂ : Nat) (hle₂ : b₁ ≤ b₂) (inner : Option Scope)
          (hinner : ∀ scope ∈ inner, scope.Within b₂) :
          Closes b₂ (fun _ _ => True) (do set (← Host.resolve ((← get).defineVariable scope
            ⟨name, jvmName, t, constant, ⟨v, inner⟩⟩))) := by
        refine .define fun s s' hsize hs hdefine => ?_
        unfold Store.defineVariable at hdefine
        split at hdefine
        · cases hdefine
        · cases hdefine
          exact ⟨Store.size_modifyFrame, hs.addVariable
            ⟨ht.mono (hle₂.trans hsize), fun scope hscope => (hinner scope hscope).mono hsize⟩⟩
      cases members with
      | none => exact hdefine b₁ le_rfl none nofun
      | some members =>
        obtain ⟨vars, functions⟩ := members
        refine closes_enter.bind fun b₂ hle₂ inner hinner => ?_
        have h₂ {b : Nat} (hb : b₂ ≤ b) : ∀ t ∈ added, t.Within b :=
          fun t ht => (h₁ t ht).mono (hle₂.trans hb)
        refine (closes_defineAll (h₂ le_rfl) vars).bind fun b₃ hle₃ _ _ => ?_
        refine (Closes.forM (fun f b hb => closes_defineFunction (h₂ (hle₃.trans hb)) f)
          le_rfl functions).bind fun b₄ hle₄ _ _ => ?_
        rw [pure_bind]
        refine hdefine b₄ (hle₂.trans (hle₃.trans hle₄)) (some inner) fun scope hscope => ?_
        cases hscope
        exact hinner.mono (hle₃.trans hle₄)

lemma closes_defineAll {base : Nat} {scope : Scope} (h : ∀ t ∈ added, t.Within base) :
    ∀ vs : List Variable, Closes base (fun _ _ => True) (defineVariable.all added scope vs)
  | [] => .pure fun _ _ => trivial
  | v :: vs => by
    rw [defineVariable.all]
    exact (closes_defineVariable h v).bind fun b hle _ _ =>
      closes_defineAll (fun t ht => (h t ht).mono hle) vs

end

lemma closes_addType (entry : TypeEntry) : Closes base (fun b t => t.Within b) (addType entry) :=
  closes_enter.bind fun b hle scope hscope => .pure fun b' hb members hmembers i hi => by
    cases hmembers
    rw [List.mem_singleton.1 hi]
    exact Nat.lt_of_lt_of_le (hscope _ List.mem_cons_self) hb

lemma closes_defineMembers (h : ∀ t ∈ added, t.Within base) (t : Ty) (entry : TypeEntry) :
    Closes base (fun _ _ => True) (defineMembers added t entry) := by
  unfold defineMembers
  cases t.members? with
  | none => exact .pure fun _ _ => trivial
  | some scope =>
    have hadded {b : Nat} (hb : base ≤ b) : ∀ t ∈ added, t.Within b := fun t ht => (h t ht).mono hb
    refine (Closes.forM (fun v b hb => closes_defineVariable (hadded hb) v)
      le_rfl entry.vars).bind fun b hle _ _ => ?_
    exact .forM (fun f b' hb => closes_defineFunction (hadded hb) f) hle entry.functions

/-- What a host provides refers only to itself. -/
lemma within_provide {names : Names} {scope : Scope} (h : provide names {} = .ok (scope, s)) :
    s.Within s.frames.size ∧ scope.Within s.frames.size := by
  have hempty : Store.Within (Store.frames {}).size {} := ⟨nofun, nofun⟩
  have hprovide : Closes 0 (fun b scope => scope.Within b) (provide names) := by
    unfold provide
    refine (Closes.mapM (fun _ _ _ hle ht => ht.mono hle) (fun entry _ _ => closes_addType entry)
      le_rfl names.types).bind fun b hle added h => ?_
    have hadded {b' : Nat} (hb : b ≤ b') : ∀ t ∈ added, t.Within b' := fun t ht => (h t ht).mono hb
    refine (Closes.forM (fun p _ hb => closes_defineMembers (hadded hb) p.1 p.2)
      le_rfl (added.zip names.types)).bind fun b₁ hle₁ _ _ => ?_
    refine closes_enter.bind fun b₂ hle₂ scope hscope => ?_
    refine (Closes.forM (fun v _ hb => closes_defineVariable (hadded hb) v)
      (hle₁.trans hle₂) names.vars).bind fun b₃ hle₃ _ _ => ?_
    refine (Closes.forM (fun f _ hb => closes_defineFunction (hadded hb) f)
      (hle₁.trans (hle₂.trans hle₃)) names.functions).bind fun b₄ hle₄ _ _ => ?_
    exact .pure fun b hb => hscope.mono (hle₃.trans (hle₄.trans hb))
  obtain ⟨-, hs, hscope⟩ := hprovide (Nat.zero_le _) hempty h
  exact ⟨hs, hscope⟩

end Host

end LetDef
