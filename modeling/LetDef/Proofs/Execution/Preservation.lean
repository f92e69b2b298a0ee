import LetDef.Proofs.Execution.Safety
import Mathlib.Data.List.Forall2

/-!
# Evaluation is safe

Every rule of evaluation keeps the invariant, and what it yields is nil or of its type. The proof is
by induction on the depth to which rules may be nested. Each rule needs the others only at smaller
depths, and loops go by an induction of their own on their fuel.
-/

namespace LetDef.Execution.Setting

open LetDef.Typing

variable {N : Natives} {α : Type} {S : Setting} {w : World} {own : Option FrameId}
  {fuel depth : Nat}
  {known : List Function} {outer locals locals₁ bs : List Binding} {scope : Scope} {n : Node}
  {t returns : Ty}

/-- What a statement gives back, if it does, is nil or of the type. -/
def Returned (returns : Ty) (r : Option Object) : Prop :=
  ∀ o ∈ r, returns.Admits o.value

lemma returned_none : Returned returns none := by
  intro o ho
  cases ho

/-- The expression has yielded the object, which is nil or of the type, just now. -/
def Yielded (n : Node) (t : Ty) (o : Object) (w : World) : Prop :=
  t.Admits o.value ∧ Latest w.log (.evaluated n o)

/-- Rules that are nested to the depth are safe. -/
structure SafeAt (N : Natives) (S : Setting) (fuel depth : Nat) : Prop where
  evaluate : ∀ {known : List Function} {bs : List Binding} {scope : Scope} {n : Node} {t : Ty}
    {w : World}, known <+: S.known → HasType S.root S.final known bs n t → S.Inv w →
    Sees bs scope w →
    S.Safe none (Yielded n t) (Execution.evaluate N fuel scope n depth) w
  invoke : ∀ {g f : Function} {objects : List Object} {w : World}, S.Implements g f →
    List.Forall₂ (fun t o => Ty.Admits t o.value) g.parameters objects → S.Inv w →
    S.Safe none (fun o _ => g.returns.Admits o.value) (Execution.invoke N fuel f objects depth) w
  execute : ∀ {known : List Function} {returns : Ty} {outer locals locals₁ : List Binding}
    {scope : Scope} {n : Node} {w : World}, known <+: S.known →
    Statement S.root S.final known returns outer locals n locals₁ → S.Inv w →
    Inside outer locals scope w →
    S.Safe (some scope.frame)
      (fun r w₁ => Returned returns r ∧ Inside outer locals₁ scope w₁)
      (Execution.execute N fuel scope n depth) w

lemma HasType.noted {root : Node} {final : Analysis.State}
    (h : HasType root final known bs n t) : Noted root final n t := by
  cases h <;> assumption

lemma HasType.isPresent {root : Node} {final : Analysis.State}
    (h : HasType root final known bs n t) : n.isPresent = true := by
  cases h <;> rfl

/-! ### Expressions -/

lemma condition_safe (ih : ∀ d < depth, SafeAt N S fuel d) (hp : known <+: S.known)
    (hn : HasType S.root S.final known bs n .boolean) (hi : S.Inv w) (hs : Sees bs scope w) :
    S.Safe none (fun _ _ => True) (condition N fuel scope n depth) w := by
  cases depth with
  | zero =>
    rw [condition]
    exact safe_tooDeep hi
  | succ depth =>
    rw [condition]
    refine ((ih depth (Nat.lt_succ_self _)).evaluate hp hn hi hs).bind fun o w₁ hi₁ _ ho => ?_
    obtain ⟨v, members⟩ := o
    obtain ⟨rfl | ho, hlatest⟩ := ho
    · exact safe_throw hi₁ (.notBoolean (HasType.noted hn) hlatest rfl)
    · cases v with
      | boolean b => exact safe_pure hi₁ trivial
      | _ => cases ho

/-- The operands of a logical operator are conditions. -/
lemma logical_operands {operator : String} {l r : Ty}
    (h : Analysis.operationType operator l r = .ok t)
    (ho : Analysis.isLogical operator = true) : l = .boolean ∧ r = .boolean ∧ t = .boolean := by
  unfold Analysis.operationType at h
  rw [if_pos ho] at h
  split at h
  · rename_i hboth
    cases h
    rw [Bool.and_eq_true, decide_eq_true_eq, decide_eq_true_eq] at hboth
    exact ⟨hboth.1, hboth.2, rfl⟩
  · cases h

lemma operateAt_safe {m : Mark} {operator : String} {left right : Node} {l r : Ty} {a b : Object}
    (hi : S.Inv w) (hb : S.root.Below (.binary m operator left right))
    (hl : S.final.typeOf? left = some l) (hr : S.final.typeOf? right = some r)
    (ht : Analysis.operationType operator l r = .ok t)
    (ho : Analysis.isLogical operator = false) (ha : l.Admits a.value)
    (hleft : Occurs w.log (.evaluated left a)) (hright : Yielded right r b w) :
    S.Safe none (fun o _ => t.Admits o.value)
      (operateAt ⟨some .binary, m.position⟩ operator a b) w := by
  have hfair := operate_fair ht ho ha hright.1
  unfold operateAt
  cases hv : operate operator a.value b.value with
  | ok v =>
    rw [hv] at hfair
    obtain ⟨u, hu, hconforms⟩ := hfair
    dsimp only
    rw [hu]
    exact safe_pure hi (.inr hconforms)
  -- The operation is fair: it refuses values that do not match or a divisor of zero, and nothing
  -- else.
  | error refusal =>
    rw [hv] at hfair
    cases refusal with
    | tooManyDigits => exact safe_throw hi .tooManyDigits
    | cause c =>
      by_cases hzero : c = .divisionByZero
      · subst hzero
        exact safe_throw hi .divisionByZero
      · have hmismatch : c = .invalidOperands operator a.value b.value ∧
            Mismatch operator l r a.value b.value := by
          cases c <;> first | exact hfair | exact absurd rfl hzero
        obtain ⟨rfl, hmismatch⟩ := hmismatch
        exact safe_throw hi (.invalidOperands hb hl hr hleft hright.2 hmismatch)

lemma operation_safe (ih : ∀ d < depth, SafeAt N S fuel d) (hp : known <+: S.known) {m : Mark}
    {operator : String} {left right : Node} {l r : Ty}
    (hl : HasType S.root S.final known bs left l) (hr : HasType S.root S.final known bs right r)
    (ht : Analysis.operationType operator l r = .ok t)
    (hb : S.root.Below (.binary m operator left right)) (hi : S.Inv w) (hs : Sees bs scope w) :
    S.Safe none (fun o _ => t.Admits o.value)
      (operation N fuel scope m operator left right depth) w := by
  cases depth with
  | zero =>
    rw [operation]
    exact safe_tooDeep hi
  | succ depth =>
    have ih' : ∀ d < depth, SafeAt N S fuel d := fun d hd => ih d (Nat.lt_succ_of_lt hd)
    rw [operation]
    by_cases hand : operator = "&&"
    · obtain ⟨rfl, rfl, rfl⟩ := logical_operands ht (by simp [hand, Analysis.isLogical])
      rw [if_pos hand]
      refine (condition_safe ih' hp hl hi hs).bind fun c w₁ hi₁ hstep _ => ?_
      cases c with
      | false => exact safe_pure hi₁ (.inr rfl)
      | true =>
        refine (condition_safe ih' hp hr hi₁ (hs.step hstep (by simp))).bind
          fun c' w₂ hi₂ _ _ => ?_
        exact safe_pure hi₂ (.inr rfl)
    by_cases hor : operator = "||"
    · obtain ⟨rfl, rfl, rfl⟩ := logical_operands ht (by simp [hor, Analysis.isLogical])
      rw [if_neg hand, if_pos hor]
      refine (condition_safe ih' hp hl hi hs).bind fun c w₁ hi₁ hstep _ => ?_
      cases c with
      | true => exact safe_pure hi₁ (.inr rfl)
      | false =>
        refine (condition_safe ih' hp hr hi₁ (hs.step hstep (by simp))).bind
          fun c' w₂ hi₂ _ _ => ?_
        exact safe_pure hi₂ (.inr rfl)
    · -- Both operands are evaluated, and the left one's value has to stand in the log behind the
      -- right one.
      have hlogical : Analysis.isLogical operator = false := by
        simp [Analysis.isLogical, hand, hor]
      rw [if_neg hand, if_neg hor]
      have hsafe := ih depth (Nat.lt_succ_self _)
      refine (hsafe.evaluate hp hl hi hs).bind fun a w₁ hi₁ hstep ha => ?_
      refine (hsafe.evaluate hp hr hi₁ (hs.step hstep (by simp))).bind fun b w₂ hi₂ hstep₂ hb₂ => ?_
      exact operateAt_safe hi₂ hb (HasType.noted hl).type (HasType.noted hr).type ht hlogical ha.1
        (ha.2.occurs.mono hstep₂.log) hb₂

/-- A variable that a scope finds holds nil or a value of its type. -/
lemma Inv.found {name : String} {origin : Origin} {constant : Bool} (hi : S.Inv w)
    (hs : Sees bs scope w) (ho : bs.lookup name = some origin)
    (hc : S.final.cell? origin = some (t, constant)) :
    ∃ ref v, w.store.findVariable? scope name = some (ref, v) ∧ Created w.log origin ref ∧
      w.store.getVariable? ref = some v ∧ t.Admits v.value.value := by
  obtain ⟨ref, v, hfind, hcreated⟩ := hs.finds name origin ho
  have hv := (Store.getVariable?_of_findVariable? hfind).1
  obtain ⟨t', v', hcell, hv', hadmits⟩ := hi.cells.typed origin ref hcreated
  rw [hv] at hv'
  cases hv'
  rw [hc] at hcell
  simp only [Option.some.injEq, Prod.mk.injEq] at hcell
  obtain ⟨rfl, _⟩ := hcell
  exact ⟨ref, v, hfind, hcreated, hv, hadmits⟩

lemma arguments_safe (ih : ∀ d < depth, SafeAt N S fuel d) (hp : known <+: S.known)
    {es : List Node} {ts : List Ty} (hes : List.Forall₂ (HasType S.root S.final known bs) es ts)
    (hi : S.Inv w) (hs : Sees bs scope w) :
    S.Safe none (fun os _ => List.Forall₂ (fun t o => Ty.Admits t o.value) ts os)
      (arguments N fuel scope es depth) w := by
  cases depth with
  | zero =>
    rw [arguments]
    exact safe_tooDeep hi
  | succ depth =>
    rw [arguments]
    induction hes generalizing w with
    | nil => exact safe_pure hi .nil
    | cons he _ ihes =>
      rw [List.mapM_cons]
      refine ((ih depth (Nat.lt_succ_self _)).evaluate hp he hi hs).bind
        fun o w₁ hi₁ hstep ho => ?_
      refine (ihes hi₁ (hs.step hstep (by simp))).bind fun os w₂ hi₂ _ hos => ?_
      exact safe_pure hi₂ (.cons ho.1 hos)

/-- Arguments that fit the parameters are of their types. -/
lemma admits_parameters {ps ts : List Ty} {os : List Object}
    (h : List.Forall₂ (fun p t => Ty.accepts p t = true) ps ts)
    (ho : List.Forall₂ (fun t o => Ty.Admits t o.value) ts os) :
    List.Forall₂ (fun p o => Ty.Admits p o.value) ps os := by
  induction h generalizing os with
  | nil =>
    cases ho
    exact .nil
  | cons hacc _ ih =>
    cases ho with
    | cons hv hos => exact .cons (hv.of_accepts hacc) (ih hos)

/-- A run finds the counterpart of a function that analysis knows. -/
lemma Inv.lookupFunction {name : String} {arity : Nat} {g : Function} (hi : S.Inv w)
    (hs : Sees bs scope w) (hp : known <+: S.known) (hg : named? known name arity = some g) :
    ∃ ref f, w.store.lookupFunction scope name arity = .ok (ref, f) ∧ S.Implements g f := by
  obtain ⟨f, hf, himplements⟩ := exists_implements hi.functions (named?_mono hp hg)
  have hfind := Store.findFunction?_eq hi.others scope name arity
  rw [if_pos hs.home, show (w.store.frame 0).getFunction? name arity = some f from hf,
    Option.map_eq_some_iff] at hfind
  obtain ⟨⟨ref, f'⟩, hfound, rfl⟩ := hfind
  refine ⟨ref, f', ?_, himplements⟩
  unfold Store.lookupFunction
  rw [hfound]

lemma call_safe (ih : ∀ d < depth, SafeAt N S fuel d) (hp : known <+: S.known) {m : Mark}
    {name : String} {es : List Node} {ts : List Ty} {g : Function}
    (hes : List.Forall₂ (HasType S.root S.final known bs) es ts)
    (hg : named? known name es.length = some g)
    (hts : List.Forall₂ (fun p t => Ty.accepts p t = true) g.parameters ts) (hi : S.Inv w)
    (hs : Sees bs scope w) :
    S.Safe none (fun o _ => g.returns.Admits o.value) (call N fuel scope m .absent name es depth)
      w := by
  cases depth with
  | zero =>
    rw [call]
    exact safe_tooDeep hi
  | succ depth =>
    rw [call]
    refine (arguments_safe (fun d hd => ih d (Nat.lt_succ_of_lt hd)) hp hes hi hs).bind
      fun os w₁ hi₁ hstep hos => ?_
    have hlength : os.length = es.length := by
      rw [hes.length_eq, hos.length_eq]
    obtain ⟨ref, f, hlookup, hf⟩ := hi₁.lookupFunction (hs.step hstep (by simp)) hp hg
    dsimp only
    rw [hlength]
    refine (safe_lookup hi₁ hlookup).bind ?_
    rintro _ w₂ hi₂ _ ⟨rfl, rfl⟩
    refine (safe_note (e := .called scope (.call m .absent name es) f) hi₂ trivial (by simp)).bind
      fun _ w₃ hi₃ _ _ => ?_
    exact (ih depth (Nat.lt_succ_self _)).invoke hf (admits_parameters hts hos) hi₃

lemma evaluate_safe (ih : ∀ d < depth, SafeAt N S fuel d) (hp : known <+: S.known)
    (hn : HasType S.root S.final known bs n t) (hi : S.Inv w) (hs : Sees bs scope w) :
    S.Safe none (Yielded n t) (Execution.evaluate N fuel scope n depth) w := by
  cases depth with
  | zero =>
    rw [Execution.evaluate]
    exact safe_tooDeep hi
  | succ depth =>
    have ih' : ∀ d < depth, SafeAt N S fuel d := fun d hd => ih d (Nat.lt_succ_of_lt hd)
    have hnoted := HasType.noted hn
    rw [Execution.evaluate.eq_def]
    refine Safe.recording ?_ (fun o ho => ⟨t, hnoted, ho⟩) (by simp)
    cases hn with
    | literal hv ht _ => exact safe_pure hi (.inr (hv.conforms ht))
    | group he _ =>
      exact ((ih depth (Nat.lt_succ_self _)).evaluate hp he hi hs).imp fun o _ _ ho => ho.1
    | binary hl hr ht hn => exact operation_safe ih' hp hl hr ht hn.below hi hs
    | access ho hc _ =>
      obtain ⟨ref, v, hfind, _, _, hv⟩ := hi.found hs ho hc
      refine (safe_lookup hi (Store.lookupVariable_of_find hfind)).bind ?_
      rintro _ w₁ hi₁ _ ⟨rfl, rfl⟩
      refine (safe_note (e := .read scope _ ref) hi₁ trivial (by simp)).bind fun _ w₂ hi₂ _ _ => ?_
      exact safe_pure hi₂ hv
    | call hes hg hts _ => exact call_safe ih' hp hes hg hts hi hs

/-! ### Blocks -/

lemma executeAll_safe (ih : SafeAt N S fuel depth) (hp : known <+: S.known) {ns : List Node}
    (hns : Statements S.root S.final known returns outer locals ns locals₁) (hi : S.Inv w)
    (hin : Inside outer locals scope w) :
    S.Safe (some scope.frame) (fun r _ => Returned returns r)
      (executeAll (fun n => Execution.execute N fuel scope n depth) ns) w := by
  induction ns generalizing locals w with
  | nil => exact safe_pure hi returned_none
  | cons n ns ihns =>
    cases hns with
    | cons hn hns =>
      rw [executeAll]
      refine (ih.execute hp hn hi hin).bind ?_
      rintro r w₁ hi₁ _ ⟨hr, hin₁⟩
      cases r with
      | some o => exact safe_pure hi₁ hr
      | none => exact ihns hns hi₁ hin₁

lemma block_safe (ih : ∀ d < depth, SafeAt N S fuel d) (hp : known <+: S.known) {body : List Node}
    (hbody : Statements S.root S.final known returns outer locals body locals₁) (hi : S.Inv w)
    (hin : Inside outer locals scope w) :
    S.Safe (some scope.frame) (fun r _ => Returned returns r)
      (block N fuel scope body depth) w := by
  cases depth with
  | zero =>
    rw [block]
    exact safe_tooDeep hi
  | succ depth =>
    rw [block]
    exact executeAll_safe (ih depth (Nat.lt_succ_self _)) hp hbody hi hin

/-- A block in a scope of its own. -/
lemma inner_safe (ih : ∀ d < depth, SafeAt N S fuel d) (hp : known <+: S.known) {body : List Node}
    (hbody : Statements S.root S.final known returns bs [] body locals₁) (hi : S.Inv w)
    (hs : Sees bs scope w) :
    S.Safe none (fun r _ => Returned returns r)
      (do block N fuel (← enter scope) body depth) w :=
  safe_enter hi hs fun _ _ hi₁ hin => block_safe ih hp hbody hi₁ hin

/-! ### Calls -/

/-- What is printed does not matter to the invariant. -/
lemma safe_printLine {line : String} (hi : S.Inv w) :
    S.Safe none (fun _ _ => True) (printLine line) w := by
  unfold Safe Ends printLine
  rw [outcome_modify]
  refine ⟨⟨⟨hi.kept, hi.moments, hi.cells, hi.unique⟩, hi.functions, hi.others, ?_⟩, ?_, trivial⟩
  · exact ⟨hi.fields.size, hi.fields.home, hi.fields.finds⟩
  · exact ⟨.refl none w.store, List.suffix_rfl⟩

lemma safe_render {v : Value} (hi : S.Inv w) : S.Safe none (fun _ _ => True) (render v) w := by
  unfold render
  cases v.render? with
  | some line => exact safe_pure hi trivial
  | none => exact safe_throw hi .tooManyDigits

lemma print_safe {objects : List Object}
    (ho : List.Forall₂ (fun t o => Ty.Admits t o.value) Analysis.printFunction.parameters objects)
    (hi : S.Inv w) :
    S.Safe none (fun o _ => Ty.nil.Admits o.value) (callNative N .print objects depth) w := by
  cases ho with
  | @cons _ o _ _ _ hnil =>
    cases hnil
    change S.Safe none _ (do
      printLine (← render o.value)
      return Object.unset) w
    refine (safe_render hi).bind fun line w₁ hi₁ _ _ => ?_
    refine (safe_printLine hi₁).bind fun _ w₂ hi₂ _ _ => ?_
    exact safe_pure hi₂ Ty.nil.admits_nil

lemma bindParameters_safe {m : Method} {k : Nat} {names : List String} {ts : List Ty}
    {objects : List Object} (hps : Parameters S.final m.mark k names ts locals locals₁)
    (ho : List.Forall₂ (fun t o => Ty.Admits t o.value) ts objects) (hi : S.Inv w)
    (hin : Inside outer locals scope w) :
    S.Safe (some scope.frame) (fun _ w₁ => Inside outer locals₁ scope w₁)
      (bindParameters m scope k (names.zip objects)) w := by
  induction hps generalizing objects w with
  | nil => exact safe_pure hi hin
  | cons ha _ ih =>
    cases ho with
    | cons hv hos =>
      rw [List.zip_cons_cons, bindParameters]
      refine (safe_addLocal hi hin ha hv).bind fun _ w₁ hi₁ _ hin₁ => ?_
      exact ih hos hi₁ hin₁

lemma method_safe (ih : ∀ d < depth, SafeAt N S fuel d) (hp : known <+: S.known) {m : Method}
    {g : Function} {objects : List Object}
    (hm : MethodTyped S.root S.final known S.globals m g)
    (ho : List.Forall₂ (fun t o => Ty.Admits t o.value) g.parameters objects) (hi : S.Inv w) :
    S.Safe none (fun o _ => g.returns.Admits o.value)
      (do
        let scope ← enter ⟨0, []⟩
        bindParameters m scope 0 (m.parameters.zip objects)
        return (← block N fuel scope m.body depth).getD .unset) w := by
  obtain ⟨locals, locals₁, hparameters, hbody⟩ := hm.body
  refine safe_enter hi hi.fields fun scope w₁ hi₁ hin => ?_
  refine (bindParameters_safe hparameters ho hi₁ hin).bind fun _ w₂ hi₂ _ hin₂ => ?_
  refine (block_safe ih hp hbody hi₂ hin₂).bind fun r w₃ hi₃ _ hr => ?_
  cases r with
  | none => exact safe_pure hi₃ g.returns.admits_nil
  | some o => exact safe_pure hi₃ (hr o rfl)

lemma invoke_safe (ih : ∀ d < depth, SafeAt N S fuel d) {g f : Function} {objects : List Object}
    (hf : S.Implements g f)
    (ho : List.Forall₂ (fun t o => Ty.Admits t o.value) g.parameters objects) (hi : S.Inv w) :
    S.Safe none (fun o _ => g.returns.Admits o.value) (Execution.invoke N fuel f objects depth)
      w := by
  cases depth with
  | zero => exact safe_tooDeep hi
  | succ depth =>
    cases depth with
    | zero => exact safe_tooDeep hi
    | succ depth =>
      rw [Execution.invoke]
      cases hf with
      | print => exact print_safe ho hi
      | @method known m _ hp hm =>
        have harity : ¬ objects.length ≠ m.parameters.length := by
          obtain ⟨_, _, hparameters, _⟩ := hm.body
          rw [length_of_parameters hparameters, ho.length_eq]
          exact fun h => h rfl
        refine Safe.imp (?_ : S.Safe none (fun o w₁ => g.returns.Admits o.value ∧
          Latest w₁.log (.returned m o)) _ w) fun _ _ _ hr => hr.1
        refine Safe.recording ?_
          (fun o hr => ⟨g.returns, hm.below, hm.declared, hm.returns, hr⟩) (by simp)
        rw [if_neg harity]
        exact method_safe (fun d hd => ih d (Nat.lt_succ_of_lt (Nat.lt_succ_of_lt hd))) hp hm ho hi

/-! ### Simple statements -/

/-- The value of a declaration, or nil where there is none. -/
lemma optional_safe (ih : SafeAt N S fuel depth) (hp : known <+: S.known) {value : Node}
    (hv : Fits S.root S.final known bs value t) (hi : S.Inv w) (hs : Sees bs scope w) :
    S.Safe none (fun o _ => t.Admits o.value)
      (if value.isPresent = true then Execution.evaluate N fuel scope value depth else pure .unset)
      w := by
  rcases hv with rfl | ⟨s, hv, hacc⟩
  · exact safe_pure hi t.admits_nil
  · rw [if_pos (HasType.isPresent hv)]
    exact (ih.evaluate hp hv hi hs).imp fun o _ _ ho => ho.1.of_accepts hacc

lemma declare_safe (ih : SafeAt N S fuel depth) (hp : known <+: S.known) {m : Mark} {name : String}
    {typeName : Option String} {value : Node}
    (hv : Fits S.root S.final known (locals ++ outer) value t)
    (ha : Adds S.final locals name (.declaration m) t false) (hi : S.Inv w)
    (hin : Inside outer locals scope w) :
    S.Safe (some scope.frame)
      (fun r w₁ => Returned returns r ∧ Inside outer ((name, .declaration m) :: locals) scope w₁)
      (Execution.execute N fuel scope (.declare m name typeName value) (depth + 1)) w := by
  rw [Execution.execute]
  refine ends_ite_bind (((optional_safe ih hp hv hi hin.toSees).inside hin).bind ?_)
  rintro o w₁ hi₁ _ ⟨ho, hin₁⟩
  refine (safe_addLocal hi₁ hin₁ ha ho).bind fun _ w₂ hi₂ _ hin₂ => ?_
  exact safe_pure hi₂ ⟨returned_none, hin₂⟩

lemma assign_safe (ih : ∀ d < depth, SafeAt N S fuel d) (hp : known <+: S.known) {m a : Mark}
    {name : String} {value : Node} {origin : Origin} {s : Ty}
    (ho : bs.lookup name = some origin) (hc : S.final.cell? origin = some (t, false))
    (hv : HasType S.root S.final known bs value s) (ht : t.accepts s = true) (hi : S.Inv w)
    (hs : Sees bs scope w) :
    S.Safe none (fun _ _ => True) (assign N fuel scope m (.access a .absent name) value depth)
      w := by
  cases depth with
  | zero =>
    rw [assign]
    exact safe_tooDeep hi
  | succ depth =>
    rw [assign]
    refine ((ih depth (Nat.lt_succ_self _)).evaluate hp hv hi hs).bind
      fun o w₁ hi₁ hstep hadmits => ?_
    obtain ⟨ref, v, hfind, hcreated, hget, _⟩ := hi₁.found (hs.step hstep (by simp)) ho hc
    refine (safe_lookup hi₁ (Store.lookupVariable_of_find hfind)).bind ?_
    rintro _ w₂ hi₂ _ ⟨rfl, rfl⟩
    exact safe_store hi₂ hcreated hget hc (hadmits.1.of_accepts ht)

/-! ### Loops -/

/-- A loop is safe if its condition and its body are, and keep what they rely on. -/
lemma repeatWhile_safe {condition : Run Bool} {body : Run (Option Object)} (keeps : World → Prop)
    (hc : ∀ w, S.Inv w → keeps w → S.Safe own (fun _ w₁ => keeps w₁) condition w)
    (hb : ∀ w, S.Inv w → keeps w →
      S.Safe own (fun r w₁ => Returned returns r ∧ keeps w₁) body w)
    (hi : S.Inv w) (hk : keeps w) :
    S.Safe own (fun r _ => Returned returns r) (repeatWhile condition body fuel) w := by
  induction fuel generalizing w with
  | zero => exact safe_throw hi .outOfFuel
  | succ fuel ih =>
    rw [repeatWhile]
    refine (hc w hi hk).bind fun holds w₁ hi₁ _ hk₁ => ?_
    cases holds with
    | false => exact safe_pure hi₁ returned_none
    | true =>
      refine (hb w₁ hi₁ hk₁).bind ?_
      rintro r w₂ hi₂ _ ⟨hr, hk₂⟩
      cases r with
      | some o => exact safe_pure hi₂ hr
      | none => exact ih hi₂ hk₂

/-- A clause of a FOR loop is executed if there is one, and then the rest. -/
lemma clause_safe {post : α → World → Prop} {k : Run α} (ih : SafeAt N S fuel depth)
    (hp : known <+: S.known)
    (hn : Statements S.root S.final known returns outer locals ([n].filter Node.isPresent) locals₁)
    (hi : S.Inv w) (hin : Inside outer locals scope w)
    (hk : ∀ w₁, S.Inv w₁ → Inside outer locals₁ scope w₁ → S.Safe (some scope.frame) post k w₁) :
    S.Safe (some scope.frame) post
      (if n.isPresent = true then (do
        let _ ← Execution.execute N fuel scope n depth
        k) else k) w := by
  by_cases hpresent : n.isPresent = true
  · rw [List.filter_cons_of_pos hpresent] at hn
    cases hn with
    | cons hn hnil =>
      cases hnil
      rw [if_pos hpresent]
      refine (ih.execute hp hn hi hin).bind ?_
      rintro _ w₁ hi₁ _ ⟨_, hin₁⟩
      exact hk w₁ hi₁ hin₁
  · rw [List.filter_cons_of_neg hpresent] at hn
    cases hn
    rw [if_neg hpresent]
    exact hk w hi hin

lemma whileLoop_safe (ih : ∀ d < depth, SafeAt N S fuel d) (hp : known <+: S.known) {c : Node}
    {body : List Node} (hc : HasType S.root S.final known bs c .boolean)
    (hbody : Statements S.root S.final known returns bs [] body locals₁) (hi : S.Inv w)
    (hs : Sees bs scope w) :
    S.Safe none (fun r _ => Returned returns r)
      (do
        let loop ← enter scope
        repeatWhile (condition N fuel loop c depth)
          (do block N fuel (← enter loop) body depth) fuel)
      w := by
  refine safe_enter hi hs fun loop w₁ hi₁ hin => ?_
  refine repeatWhile_safe (Inside bs [] loop) ?_ ?_ hi₁ hin
  · intro w₂ hi₂ hin₂
    exact ((condition_safe ih hp hc hi₂ hin₂.toSees).inside hin₂).imp fun _ _ _ h => h.2
  · intro w₂ hi₂ hin₂
    exact (inner_safe ih hp hbody hi₂ hin₂.toSees).inside hin₂

lemma forLoop_safe (ih : ∀ d < depth, SafeAt N S fuel d) (hp : known <+: S.known) {m : Mark}
    {first c last : Node} {body : List Node} {clauses : List Binding}
    (hf : Statements S.root S.final known returns bs [] ([first].filter Node.isPresent) clauses)
    (hc : HasType S.root S.final known (clauses ++ bs) c .boolean)
    (hl : Statements S.root S.final known returns bs clauses ([last].filter Node.isPresent) clauses)
    (hbody : Statements S.root S.final known returns (clauses ++ bs) [] body locals₁)
    (hi : S.Inv w) (hs : Sees bs scope w) :
    S.Safe none (fun r _ => Returned returns r)
      (forLoop N fuel scope m first c last body depth) w := by
  cases depth with
  | zero =>
    rw [forLoop]
    exact safe_tooDeep hi
  | succ depth =>
    have ih' : ∀ d < depth, SafeAt N S fuel d := fun d hd => ih d (Nat.lt_succ_of_lt hd)
    have hsafe := ih depth (Nat.lt_succ_self _)
    have hpresent := HasType.isPresent hc
    rw [forLoop]
    refine safe_enter hi hs fun loop w₁ hi₁ hin => ?_
    refine clause_safe hsafe hp hf hi₁ hin fun w₂ hi₂ hin₂ => ?_
    rw [if_neg (by simp [hpresent])]
    -- What the rounds keep is that the scope of the loop has the clauses' variables in it.
    refine repeatWhile_safe (Inside bs clauses loop) ?_ ?_ hi₂ hin₂
    · intro w₃ hi₃ hin₃
      exact ((condition_safe ih' hp hc hi₃ hin₃.toSees).inside hin₃).imp fun _ _ _ h => h.2
    · intro w₃ hi₃ hin₃
      rw [← bind_assoc]
      refine ((inner_safe ih' hp hbody hi₃ hin₃.toSees).inside hin₃).bind ?_
      rintro r w₄ hi₄ _ ⟨hr, hin₄⟩
      cases r with
      | some o => exact safe_pure hi₄ ⟨hr, hin₄⟩
      | none =>
        refine clause_safe hsafe hp hl hi₄ hin₄ fun w₅ hi₅ hin₅ => ?_
        exact safe_pure hi₅ ⟨returned_none, hin₅⟩

/-! ### Statements -/

lemma execute_safe (ih : ∀ d < depth, SafeAt N S fuel d) (hp : known <+: S.known)
    (hn : Statement S.root S.final known returns outer locals n locals₁) (hi : S.Inv w)
    (hin : Inside outer locals scope w) :
    S.Safe (some scope.frame) (fun r w₁ => Returned returns r ∧ Inside outer locals₁ scope w₁)
      (Execution.execute N fuel scope n depth) w := by
  cases depth with
  | zero =>
    rw [Execution.execute]
    exact safe_tooDeep hi
  | succ depth =>
    have ih' : ∀ d < depth, SafeAt N S fuel d := fun d hd => ih d (Nat.lt_succ_of_lt hd)
    have hsafe := ih depth (Nat.lt_succ_self _)
    have hs := hin.toSees
    cases hn with
    | perform he =>
      rw [Execution.execute]
      refine ((hsafe.evaluate hp he hi hs).inside hin).bind ?_
      rintro _ w₁ hi₁ _ ⟨_, hin₁⟩
      exact safe_pure hi₁ ⟨returned_none, hin₁⟩
    | declare hv ha => exact declare_safe hsafe hp hv ha hi hin
    | assign ho hc hv ht =>
      rw [Execution.execute]
      refine ((assign_safe ih' hp ho hc hv ht hi hs).inside hin).bind ?_
      rintro _ w₁ hi₁ _ ⟨_, hin₁⟩
      exact safe_pure hi₁ ⟨returned_none, hin₁⟩
    -- What a body declares is gone behind it, so the scope is as it was before.
    | branch hc hb ho =>
      rw [Execution.execute]
      refine Safe.inside ?_ hin
      refine (condition_safe ih' hp hc hi hs).bind fun holds w₁ hi₁ hstep _ => ?_
      cases holds with
      | true => exact inner_safe ih' hp hb hi₁ (hs.step hstep (by simp))
      | false => exact inner_safe ih' hp ho hi₁ (hs.step hstep (by simp))
    | forLoop hf hc hl hb =>
      rw [Execution.execute]
      exact (forLoop_safe ih' hp hf hc hl hb hi hs).inside hin
    | whileLoop hc hb =>
      rw [Execution.execute]
      exact (whileLoop_safe ih' hp hc hb hi hs).inside hin
    | giveBack hv ht =>
      rw [Execution.execute]
      refine ((hsafe.evaluate hp hv hi hs).inside hin).bind ?_
      rintro o w₁ hi₁ _ ⟨ho, hin₁⟩
      refine safe_pure hi₁ ⟨?_, hin₁⟩
      intro o' ho'
      cases ho'
      exact ho.1.of_accepts ht

/-- Evaluation of a typed program is safe at every depth. -/
theorem safeAt (N : Natives) (S : Setting) (fuel depth : Nat) : SafeAt N S fuel depth := by
  induction depth using Nat.strongRecOn with
  | ind depth ih =>
    refine ⟨?_, ?_, ?_⟩
    · intro known bs scope n t w hp hn hi hs
      exact evaluate_safe ih hp hn hi hs
    · intro g f objects w hf ho hi
      exact invoke_safe ih hf ho hi
    · intro known returns outer locals locals₁ scope n w hp hn hi hin
      exact execute_safe ih hp hn hi hin

end LetDef.Execution.Setting
