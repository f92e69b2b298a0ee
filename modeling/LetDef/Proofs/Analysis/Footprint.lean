import LetDef.Proofs.Analysis.Expression

/-!
# What analysis changes

Analysing an expression decorates nodes and leaves the store as it is, and so does analysing an
assignment. Analysing a statement may also add frames, and define variables in them and in the frame
of its own scope; the other frames stay as they are. All this holds however the analysis ends.
-/

namespace LetDef.Analysis

/-- From `st` to `st₁` nodes are decorated, and nothing else. -/
structure State.Decorates (st st₁ : State) : Prop where
  store : st₁.store = st.store
  decorations : ∀ m d, st.decorations.get? m = some d → st₁.decorations.get? m = some d

/-- From `st` to `st₁` of the frames that there were only `own` has changed. -/
structure State.Keeps (own : Option FrameId) (st st₁ : State) : Prop where
  size : st.store.frames.size ≤ st₁.store.frames.size
  frame : ∀ i < st.store.frames.size, own ≠ some i → st₁.store.frame i = st.store.frame i

/-- However the step ends, it has only decorated nodes. -/
def OnlyDecorates {α : Type} (x : Analyze α) : Prop :=
  ∀ ⦃st r st₁⦄, outcome x st = (r, st₁) → State.Decorates st st₁

/-- However the step ends, it has changed no frame that there was but `own`. -/
def DefinesIn {α : Type} (own : Option FrameId) (x : Analyze α) : Prop :=
  ∀ ⦃st r st₁⦄, outcome x st = (r, st₁) → State.Keeps own st st₁

variable {α β : Type} {x : Analyze α} {f : α → Analyze β} {st st₁ st₂ : State} {site : Site}
  {scope : Scope} {own : Option FrameId} {n : Node} {depth : Nat}

/-! ### Decorating -/

lemma outcome_decorate {m : Mark} {kind : Node.Kind} {d : Decoration} :
    outcome (decorate m kind d) st =
      (st.decorations.get? m).elim
        (.ok (), { st with decorations := ⟨st.decorations.slots.insert m.number d⟩ })
        fun _ => (.error (.decorated kind), st) := by
  unfold decorate
  rw [outcome_bind, outcome_get]
  dsimp only
  cases st.decorations.get? m <;> rfl

lemma State.Decorates.refl (st : State) : st.Decorates st :=
  ⟨rfl, fun _ _ hd => hd⟩

lemma State.Decorates.trans (h : st.Decorates st₁) (h' : st₁.Decorates st₂) : st.Decorates st₂ :=
  ⟨h'.store.trans h.store, fun m d hd => h'.decorations m d (h.decorations m d hd)⟩

namespace OnlyDecorates

/-- A step that changes nothing. -/
lemma still (h : ∀ st, (outcome x st).2 = st) : OnlyDecorates x := by
  intro st r st₁ hx
  obtain rfl : st₁ = st := by rw [← h st, hx]
  exact .refl st₁

protected lemma pure (a : α) : OnlyDecorates (pure a) :=
  still fun _ => rfl

protected lemma throw (halt : Halt) : OnlyDecorates (throw halt : Analyze α) :=
  still fun _ => rfl

protected lemma bind (hx : OnlyDecorates x) (hf : ∀ a, OnlyDecorates (f a)) :
    OnlyDecorates (x >>= f) := by
  intro st r st₁ h
  rw [outcome_bind] at h
  rcases hout : outcome x st with ⟨halt | a, u⟩ <;> rw [hout] at h
  · cases h
    exact hx hout
  · exact (hx hout).trans (hf a h)

lemma ite {p : Prop} [Decidable p] {y : Analyze α} (hx : OnlyDecorates x) (hy : OnlyDecorates y) :
    OnlyDecorates (if p then x else y) := by
  split
  · exact hx
  · exact hy

lemma resolving (hx : OnlyDecorates x) : OnlyDecorates (resolving site x) := by
  intro st r st₁ h
  rw [outcome_resolving] at h
  cases h
  exact hx rfl

lemma consult {find : Store → Except NameError α} : OnlyDecorates (consult find) :=
  still fun _ => by rw [outcome_consult]

lemma decorate {m : Mark} {kind : Node.Kind} {d : Decoration} :
    OnlyDecorates (decorate m kind d) := by
  intro st r st₁ h
  cases r with
  | ok u =>
    obtain ⟨hstore, _, hkeep⟩ := gives_decorate h
    exact ⟨hstore, hkeep⟩
  | error halt =>
    rw [outcome_decorate] at h
    cases hd : st.decorations.get? m <;> rw [hd] at h <;> cases h
    exact .refl st

lemma require {target source : Ty} : OnlyDecorates (require site target source) :=
  .ite (.pure _) (.throw _)

lemma mapM {f : β → Analyze α} (hf : ∀ b, OnlyDecorates (f b)) (bs : List β) :
    OnlyDecorates (bs.mapM f) := by
  induction bs with
  | nil => exact .pure []
  | cons b bs ih =>
    rw [List.mapM_cons]
    exact (hf b).bind fun a => ih.bind fun as => .pure (a :: as)

lemma requireArguments (parameters : List Ty) (arguments : List (Node × Ty)) :
    OnlyDecorates (requireArguments parameters arguments) := by
  induction parameters generalizing arguments with
  | nil => exact .pure ()
  | cons parameter parameters ih =>
    cases arguments with
    | nil => exact .pure ()
    | cons argument rest => exact require.bind fun _ => ih rest

lemma requireReceiver {receiver : Node} {t : Ty} (parameters : List Ty) :
    OnlyDecorates (requireReceiver receiver t parameters) := by
  cases parameters with
  | nil => exact .throw _
  | cons parameter parameters => exact require

end OnlyDecorates

/-- The rules for expressions decorate nodes only. -/
structure ExpressionsDecorate (depth : Nat) : Prop where
  expression (scope : Scope) (n : Node) : OnlyDecorates (expression scope n depth)
  operation (scope : Scope) (mark : Mark) (operator : String) (left right : Node) :
    OnlyDecorates (operation scope mark operator left right depth)
  access (scope : Scope) (mark : Mark) (receiver : Node) (name : String) :
    OnlyDecorates (access scope mark receiver name depth)
  call (scope : Scope) (mark : Mark) (receiver : Node) (name : String) (arguments : List Node) :
    OnlyDecorates (call scope mark receiver name arguments depth)

lemma expressionsDecorate (depth : Nat) : ExpressionsDecorate depth := by
  induction depth with
  | zero => constructor <;> intros <;> exact .throw _
  | succ depth ih =>
    constructor
    · intro scope n
      rw [expression.eq_def]
      cases n with
      | literal mark value sort =>
        dsimp only
        split
        · exact .throw _
        · exact OnlyDecorates.decorate.bind fun _ => .pure _
      | group mark body =>
        exact (ih.expression scope body).bind fun t => OnlyDecorates.decorate.bind fun _ => .pure t
      | binary mark operator left right => exact ih.operation scope mark operator left right
      | access mark receiver name => exact ih.access scope mark receiver name
      | call mark receiver name arguments => exact ih.call scope mark receiver name arguments
      | _ => exact .throw _
    · intro scope mark operator left right
      rw [operation]
      refine (ih.expression scope left).bind fun l => (ih.expression scope right).bind fun r => ?_
      split
      · exact .throw _
      · exact OnlyDecorates.decorate.bind fun _ => .pure _
    · intro scope mark receiver name
      rw [access.eq_def]
      refine .bind (OnlyDecorates.resolving ?_) fun found =>
        OnlyDecorates.decorate.bind fun _ => .pure _
      split
      · exact .consult
      · exact (ih.expression scope receiver).bind fun _ => .consult
    · intro scope mark receiver name arguments
      rw [call.eq_def]
      refine .bind (.mapM (fun n => ih.expression scope n) arguments) fun types => ?_
      split
      · refine (OnlyDecorates.consult.resolving).bind fun found => ?_
        refine OnlyDecorates.decorate.bind fun _ => ?_
        exact (OnlyDecorates.requireArguments _ _).bind fun _ => .pure _
      · refine (ih.expression scope receiver).bind fun t => ?_
        refine (OnlyDecorates.consult.resolving).bind fun found => ?_
        refine OnlyDecorates.decorate.bind fun _ => ?_
        refine (OnlyDecorates.requireReceiver _).bind fun _ => ?_
        exact (OnlyDecorates.requireArguments _ _).bind fun _ => .pure _

lemma onlyDecorates_condition : OnlyDecorates (condition scope n depth) := by
  cases depth with
  | zero => exact .throw _
  | succ depth =>
    rw [condition]
    exact ((expressionsDecorate depth).expression scope n).bind fun _ => .ite (.pure _) (.throw _)

lemma onlyDecorates_perform {mark : Mark} : OnlyDecorates (perform scope mark n depth) := by
  cases depth with
  | zero => exact .throw _
  | succ depth =>
    rw [perform.eq_def]
    refine ((expressionsDecorate depth).expression scope n).bind fun _ => ?_
    split
    · exact .pure _
    · exact .throw _

lemma onlyDecorates_accessed : OnlyDecorates (accessed? n) := by
  refine .still fun st => ?_
  unfold accessed?
  rw [outcome_bind, outcome_get]
  dsimp only
  split
  · split <;> rfl
  · rfl

/-- An assignment is analysed without any change of the store. -/
lemma onlyDecorates_assign {mark : Mark} {receiver value : Node} :
    OnlyDecorates (assign scope mark receiver value depth) := by
  cases depth with
  | zero => exact .throw _
  | succ depth =>
    have hat := expressionsDecorate depth
    rw [assign]
    refine (hat.expression scope receiver).bind fun _ => ?_
    refine (hat.expression scope value).bind fun t => ?_
    refine onlyDecorates_accessed.bind fun v => ?_
    split
    · exact .throw _
    · exact .ite ((OnlyDecorates.throw _).bind fun _ => .require) .require

lemma onlyDecorates_optionalValue : OnlyDecorates (optionalValue scope n depth) :=
  .ite (((expressionsDecorate depth).expression scope n).bind fun _ => .pure _) (.pure _)

lemma onlyDecorates_declaredType {name : String} {typeName : Option String}
    {value : Option (Site × Ty)} : OnlyDecorates (declaredType site name typeName value) := by
  have hresolve (name : String) : OnlyDecorates (resolve site (Ty.ofName name)) :=
    .still fun st => by rw [resolve, outcome_resolving, outcome_unwrap]
  cases value with
  | none =>
    cases typeName with
    | none => exact (OnlyDecorates.throw _).bind fun _ => .pure _
    | some typeName => exact (hresolve typeName).bind fun _ => .pure _
  | some value =>
    cases typeName with
    | none => exact (OnlyDecorates.pure _).bind fun _ => OnlyDecorates.require.bind fun _ => .pure _
    | some typeName =>
      exact (hresolve typeName).bind fun _ => OnlyDecorates.require.bind fun _ => .pure _

/-! ### Defining -/

namespace DefinesIn

lemma of_onlyDecorates (h : OnlyDecorates x) : DefinesIn own x := by
  intro st r st₁ hx
  have hstore := (h hx).store
  exact ⟨by rw [hstore], fun i _ _ => by rw [hstore]⟩

protected lemma bind (hx : DefinesIn own x) (hf : ∀ a, DefinesIn own (f a)) :
    DefinesIn own (x >>= f) := by
  intro st r st₁ h
  rw [outcome_bind] at h
  rcases hout : outcome x st with ⟨halt | a, u⟩ <;> rw [hout] at h
  · cases h
    exact hx hout
  · have hst := hx hout
    have hu := hf a h
    refine ⟨hst.size.trans hu.size, fun i hi hown => ?_⟩
    rw [hu.frame i (hi.trans_le hst.size) hown, hst.frame i hi hown]

lemma weaken (h : DefinesIn none x) (own : Option FrameId) : DefinesIn own x := by
  intro st r st₁ hx
  exact ⟨(h hx).size, fun i hi _ => (h hx).frame i hi nofun⟩

lemma ite {p : Prop} [Decidable p] {y : Analyze α} (hx : DefinesIn own x) (hy : DefinesIn own y) :
    DefinesIn own (if p then x else y) := by
  split
  · exact hx
  · exact hy

/-- What is defined in a new scope changes none of the frames before. -/
lemma enter {f : Scope → Analyze α} (hf : ∀ inner, DefinesIn (some inner.frame) (f inner)) :
    DefinesIn none (enter scope >>= f) := by
  intro st r st₁ h
  have hst := hf (st.store.enter (some scope)).1 h
  have hsize : st.store.frames.size ≤ (st.store.enter (some scope)).2.frames.size := by
    rw [Store.size_enter]
    exact Nat.le_succ _
  refine ⟨hsize.trans hst.size, fun i hi _ => ?_⟩
  rw [hst.frame i (hi.trans_le hsize) (by simpa [Store.enter] using hi.ne')]
  change (st.store.enter (some scope)).2.frame i = _
  rw [Store.frame_enter]

lemma addVariable {v : Variable} : DefinesIn (some scope.frame) (addVariable site scope v) := by
  intro st r st₁ h
  unfold Analysis.addVariable at h
  rw [outcome_resolving, outcome_newVariable] at h
  cases hconflict : st.store.variableConflict? scope v.name <;> rw [hconflict] at h <;> cases h
  · refine ⟨Nat.le_of_eq Store.size_modifyFrame.symm, fun i hi hown => ?_⟩
    exact Store.frame_modifyFrame_of_ne fun heq => hown (congrArg some heq.symm)
  · exact ⟨Nat.le_refl _, fun _ _ _ => rfl⟩

lemma forM {f : β → Analyze PUnit} (hf : ∀ b, DefinesIn own (f b)) (bs : List β) :
    DefinesIn own (bs.forM f) := by
  induction bs with
  | nil => exact of_onlyDecorates (.pure _)
  | cons b bs ih => exact (hf b).bind fun _ => ih

end DefinesIn

lemma definesIn_declare {mark : Mark} {name : String} {typeName : Option String} {value : Node} :
    DefinesIn (some scope.frame) (declare scope mark name typeName value depth) := by
  cases depth with
  | zero => exact .of_onlyDecorates (.throw _)
  | succ depth =>
    rw [declare]
    refine (DefinesIn.of_onlyDecorates onlyDecorates_optionalValue).bind fun _ => ?_
    refine (DefinesIn.of_onlyDecorates onlyDecorates_declaredType).bind fun _ => ?_
    exact DefinesIn.addVariable.bind fun _ => .of_onlyDecorates .decorate

/-- The rules for statements define variables in new frames and in that of their scope. -/
structure StatementsDefine (depth : Nat) : Prop where
  block (scope : Scope) (returns : Ty) (body : List Node) :
    DefinesIn (some scope.frame) (block scope returns body depth)
  statement (scope : Scope) (returns : Ty) (n : Node) :
    DefinesIn (some scope.frame) (statement scope returns n depth)
  branch (scope : Scope) (returns : Ty) (mark : Mark) (c : Node) (thenBody elseBody : List Node) :
    DefinesIn none (branch scope returns mark c thenBody elseBody depth)
  forLoop (scope : Scope) (returns : Ty) (mark : Mark) (first c last : Node) (body : List Node) :
    DefinesIn none (forLoop scope returns mark first c last body depth)
  whileLoop (scope : Scope) (returns : Ty) (mark : Mark) (c : Node) (body : List Node) :
    DefinesIn none (whileLoop scope returns mark c body depth)

namespace StatementsDefine

variable {returns : Ty} {mark : Mark} {c : Node} {body : List Node} (ih : StatementsDefine depth)

omit ih in
lemma condition : DefinesIn own (condition scope c depth) :=
  .of_onlyDecorates onlyDecorates_condition

omit ih in
lemma requireBody {construct : String} : DefinesIn own (requireBody site construct body) :=
  .of_onlyDecorates (.ite (.throw _) (.pure _))

include ih

/-- A block in a scope of its own. -/
lemma inner (scope : Scope) (returns : Ty) (body : List Node) :
    DefinesIn none (do Analysis.block (← enter scope) returns body depth) :=
  .enter fun inner => ih.block inner returns body

/-- A part of a loop is analysed if there is one, and then the rest. -/
lemma clause (hx : DefinesIn (some scope.frame) x) :
    DefinesIn (some scope.frame) (if n.isPresent = true then (do
      Analysis.statement scope returns n depth
      x) else x) :=
  .ite ((ih.statement scope returns n).bind fun _ => hx) hx

lemma statement_succ :
    DefinesIn (some scope.frame) (Analysis.statement scope returns n (depth + 1)) := by
  rw [statement.eq_def]
  cases n with
  | perform mark e => exact .of_onlyDecorates onlyDecorates_perform
  | declare mark name typeName value => exact definesIn_declare
  | assign mark receiver value => exact .of_onlyDecorates onlyDecorates_assign
  | branch mark c thenBody elseBody => exact (ih.branch _ _ _ _ _ _).weaken _
  | forLoop mark first c last body => exact (ih.forLoop _ _ _ _ _ _ _).weaken _
  | whileLoop mark c body => exact (ih.whileLoop _ _ _ _ _).weaken _
  | giveBack mark value =>
    have hvalue := (expressionsDecorate depth).expression scope value
    exact .of_onlyDecorates (hvalue.bind fun _ => .require)
  | _ => exact .of_onlyDecorates (.throw _)

lemma branch_succ {thenBody elseBody : List Node} :
    DefinesIn none (Analysis.branch scope returns mark c thenBody elseBody (depth + 1)) := by
  rw [Analysis.branch]
  refine condition.bind fun _ => requireBody.bind fun _ => ?_
  rw [← bind_assoc]
  refine (ih.inner scope returns thenBody).bind fun _ => .ite ?_ (.of_onlyDecorates (.pure _))
  exact ih.inner scope returns elseBody

lemma forLoop_succ {first last : Node} :
    DefinesIn none (Analysis.forLoop scope returns mark first c last body (depth + 1)) := by
  rw [Analysis.forLoop]
  refine .enter fun loop => ih.clause ?_
  have hrest : DefinesIn (some loop.frame) (do
      Analysis.condition loop c depth
      if last.isPresent = true then
        Analysis.statement loop returns last depth
      Analysis.requireBody ⟨some .forLoop, mark.position⟩ "FOR" body
      Analysis.block (← enter loop) returns body depth) :=
    condition.bind fun _ => ih.clause (requireBody.bind fun _ =>
      (ih.inner loop returns body).weaken _)
  exact .ite ((DefinesIn.of_onlyDecorates (.throw _)).bind fun _ => hrest) hrest

lemma whileLoop_succ :
    DefinesIn none (Analysis.whileLoop scope returns mark c body (depth + 1)) := by
  rw [Analysis.whileLoop]
  exact condition.bind fun _ => requireBody.bind fun _ => ih.inner scope returns body

end StatementsDefine

lemma statementsDefine (depth : Nat) : StatementsDefine depth := by
  induction depth with
  | zero => constructor <;> intros <;> exact .of_onlyDecorates (.throw _)
  | succ depth ih =>
    refine {
      block := fun scope returns body => ?_
      statement := fun _ _ _ => ih.statement_succ
      branch := fun _ _ _ _ _ _ => ih.branch_succ
      forLoop := fun _ _ _ _ _ _ _ => ih.forLoop_succ
      whileLoop := fun _ _ _ _ _ => ih.whileLoop_succ }
    rw [block]
    exact .forM (fun n => ih.statement scope returns n) body

end LetDef.Analysis
