import LetDef.Proofs.Analysis.Footprint
import LetDef.Proofs.Lockstep
import LetDef.Proofs.Syntax.Twins

/-!
# Analysis of twins

Analysis knows a node by its number, points at it by its position and does not look at the data of
literals. So it treats twins with the same numbers alike: from the same state it accepts both or
refuses both, for the same reason, and leaves the very same state behind. Only what a fault points
at differs, and it points at nodes in the same place.
-/

namespace LetDef

namespace Analysis

/-- The reasons to stop are the same but for what a fault points at. -/
inductive Halt.Twins (T : Site → Site → Prop) : Halt → Halt → Prop
  | fault {cause : Cause} {site site' : Site} (h : T site site') :
      Twins T (.fault ⟨cause, site⟩) (.fault ⟨cause, site'⟩)
  | naming (e : NameError) : Twins T (.naming e) (.naming e)
  | missingParameter : Twins T .missingParameter .missingParameter
  | decorated (kind : Node.Kind) : Twins T (.decorated kind) (.decorated kind)
  | tooDeep : Twins T .tooDeep .tooDeep

/-- The marks have the same number, and the nodes of the kind are at related sites. -/
structure Facing (T : Site → Site → Prop) (kind : Option Node.Kind) (m m' : Mark) : Prop where
  number : Node.SameNumber kind m m'
  site : T ⟨kind, m.position⟩ ⟨kind, m'.position⟩

/-- The same states, and ends for the same reasons. -/
def twinning (T : Site → Site → Prop) : Pairing Halt State where
  states _ st st' := st' = st
  stops _ r r' := r.1.Twins T r'.1 ∧ r'.2 = r.2
  left _ := False
  right _ := False

end Analysis

open Analysis (Facing twinning)

lemma Node.Twins.site {T : Site → Site → Prop} {n n' : Node} (h : Node.Twins (Facing T) n n') :
    T n.site n'.site := by
  unfold Node.site
  rw [h.kind?]
  exact h.mark.site

namespace Analysis

open Pairing (Agree)

namespace Twinning

variable {T : Site → Site → Prop} {φ : Layout} {α β : Type} {Q : Layout → α → α → Prop}
  {x y : Analyze α} {site site' : Site} {scope : Scope} {m m' : Mark} {n n' : Node}
  {ns ns' : List Node} {name : String} {kind : Node.Kind} {d : Nat}

/-! ### Steps -/

lemma throws {halt halt' : Halt} (h : halt.Twins T halt') :
    (twinning T).InStep φ Q (throw halt) (throw halt') :=
  .throw fun _ _ _ hst => ⟨h, hst⟩

lemma fail {cause : Cause} (h : T site site') :
    (twinning T).InStep φ Q (fail site cause) (fail site' cause) :=
  throws (.fault h)

/-- Nothing follows a fault. -/
lemma failBind {cause : Cause} {f g : β → Analyze α} (h : T site site') :
    (twinning T).InStep φ Q (Analysis.fail site cause >>= f) (Analysis.fail site' cause >>= g) :=
  throws (.fault h)

lemma tooDeep : (twinning T).InStep φ Q tooDeep tooDeep :=
  throws .tooDeep

/-- A step yields a result or is stopped by something else than a fault. -/
def Faultless : Except Halt α → Prop
  | .ok _ | .error (.naming _) | .error (.decorated _) => True
  | .error _ => False

/-- A step that finds no fault is in step with itself. -/
lemma step (h : ∀ st, Faultless (outcome x st).1) : (twinning T).InStep φ Agree x x := by
  intro ψ _ st st' hst
  rw [show st' = st from hst]
  have hx := h st
  generalize outcome x st = r at hx ⊢
  rcases r with ⟨halt | a, st₁⟩
  · refine .error (Layout.Le.refl ψ) ⟨?_, rfl⟩
    cases halt with
    | naming e => exact .naming e
    | decorated kind => exact .decorated kind
    | _ => exact hx.elim
  · exact .ok (Layout.Le.refl ψ) ⟨rfl, trivial⟩ rfl

/-- Steps that turn the reasons why others stop into further ones. -/
lemma mapError {x' y' : Analyze α} {f f' : Halt → Halt} (h : (twinning T).InStep φ Q x y)
    (hx : ∀ st, outcome x' st = ((outcome x st).1.mapError f, (outcome x st).2))
    (hy : ∀ st, outcome y' st = ((outcome y st).1.mapError f', (outcome y st).2))
    (hf : ∀ halt halt', halt.Twins T halt' → (f halt).Twins T (f' halt')) :
    (twinning T).InStep φ Q x' y' := by
  intro ψ hle st st' hst
  rw [hx, hy]
  have hxy := h hle hst
  generalize outcome x st = r at hxy ⊢
  generalize outcome y st' = r' at hxy ⊢
  cases hxy with
  | left h => exact h.elim
  | right h => exact h.elim
  | ok hle' hq hst' => exact .ok hle' hq hst'
  | error hle' h => exact .error hle' ⟨hf _ _ h.1, h.2⟩

lemma resolving (hs : T site site') (h : (twinning T).InStep φ Q x y) :
    (twinning T).InStep φ Q (resolving site x) (resolving site' y) := by
  refine mapError h (fun _ => outcome_resolving) (fun _ => outcome_resolving) fun _ _ halts => ?_
  cases halts with
  | fault h => exact .fault h
  | naming e => exact .fault hs
  | missingParameter => exact .missingParameter
  | decorated kind => exact .decorated kind
  | tooDeep => exact .tooDeep

lemma consult (find : Store → Except NameError α) :
    (twinning T).InStep φ Agree (consult find) (consult find) := by
  refine step fun st => ?_
  rw [outcome_consult]
  cases find st.store <;> trivial

lemma resolve (hs : T site site') (result : Except NameError α) :
    (twinning T).InStep φ Agree (resolve site result) (resolve site' result) := by
  refine resolving hs ?_
  cases result with
  | ok a => exact .same trivial
  | error e => exact throws (.naming e)

lemma lookup (hs : T site site') (find : Store → Except NameError α) :
    (twinning T).InStep φ Agree (lookup site find) (lookup site' find) :=
  resolving hs (consult find)

lemma decorate {decoration : Decoration} (hm : Facing T (some kind) m m')
    (hkind : kind ≠ .program) :
    (twinning T).InStep φ Agree (decorate m kind decoration) (decorate m' kind decoration) := by
  have hnumber : m'.number = m.number :=
    hm.number.resolve_left fun h => hkind (Option.some.inj h)
  have hsame : Analysis.decorate m' kind decoration = Analysis.decorate m kind decoration := by
    unfold Analysis.decorate Decorations.get?
    rw [hnumber]
  rw [hsame]
  refine step fun st => ?_
  rw [outcome_decorate]
  cases st.decorations.get? m <;> trivial

/-- A node is given its decoration last. -/
lemma decorated {decoration : Decoration} (hm : Facing T (some kind) m m')
    (hkind : kind ≠ .program) (a : α) :
    (twinning T).InStep φ Agree
      (do
        Analysis.decorate m kind decoration
        return a)
      (do
        Analysis.decorate m' kind decoration
        return a) :=
  (decorate hm hkind).bindSame fun _ _ _ _ => .same trivial

lemma addVariable (hs : T site site') (v : Variable) :
    (twinning T).InStep φ Agree (addVariable site scope v) (addVariable site' scope v) := by
  refine resolving hs (step fun st => ?_)
  rw [outcome_newVariable]
  cases st.store.variableConflict? scope v.name <;> trivial

lemma addFunction (hs : T site site') (g : Function) :
    (twinning T).InStep φ Agree (addFunction site scope g) (addFunction site' scope g) := by
  refine resolving hs (step fun st => ?_)
  rw [outcome_newFunction]
  cases st.store.functionConflict? scope g.name g.arity <;> trivial

lemma enter : (twinning T).InStep φ Agree (enter scope) (enter scope) :=
  step fun _ => trivial

lemma require {target source : Ty} (hs : T site site') :
    (twinning T).InStep φ Agree (require site target source) (require site' target source) :=
  .ite (fun _ => .same trivial) fun _ => fail hs

/-! ### Expressions -/

lemma requireArguments {ts : List Ty} (h : List.Forall₂ (Node.Twins (Facing T)) ns ns')
    (parameters : List Ty) :
    (twinning T).InStep φ Agree (requireArguments parameters (ns.zip ts))
      (requireArguments parameters (ns'.zip ts)) := by
  induction h generalizing ts parameters with
  | nil => cases parameters <;> exact .same trivial
  | cons hn _ ih =>
    cases ts with
    | nil => cases parameters <;> exact .same trivial
    | cons t ts =>
      cases parameters with
      | nil => exact .same trivial
      | cons parameter parameters =>
        exact (require hn.site).bindSame fun _ hle _ _ => (ih parameters).mono hle

lemma requireReceiver {t : Ty} (h : Node.Twins (Facing T) n n') (parameters : List Ty) :
    (twinning T).InStep φ Agree (requireReceiver n t parameters)
      (requireReceiver n' t parameters) := by
  cases parameters with
  | nil => exact throws .missingParameter
  | cons parameter parameters => exact require h.site

/-- The rules for expressions treat twins alike at the depth. -/
structure ExpressionsAt (T : Site → Site → Prop) (d : Nat) : Prop where
  expression {φ : Layout} {n n' : Node} (scope : Scope) (h : Node.Twins (Facing T) n n') :
    (twinning T).InStep φ Agree (expression scope n d) (expression scope n' d)
  operation {φ : Layout} {m m' : Mark} {l l' r r' : Node} (scope : Scope) (operator : String)
    (hm : Facing T (some .binary) m m') (hl : Node.Twins (Facing T) l l')
    (hr : Node.Twins (Facing T) r r') :
    (twinning T).InStep φ Agree (operation scope m operator l r d)
      (operation scope m' operator l' r' d)
  access {φ : Layout} {m m' : Mark} {r r' : Node} (scope : Scope) (name : String)
    (hm : Facing T (some .access) m m') (hp : r'.isPresent = r.isPresent)
    (hr : r.isPresent = true → Node.Twins (Facing T) r r') :
    (twinning T).InStep φ Agree (access scope m r name d) (access scope m' r' name d)
  call {φ : Layout} {m m' : Mark} {r r' : Node} {ns ns' : List Node} (scope : Scope)
    (name : String) (hm : Facing T (some .call) m m') (hp : r'.isPresent = r.isPresent)
    (hr : r.isPresent = true → Node.Twins (Facing T) r r')
    (hns : List.Forall₂ (Node.Twins (Facing T)) ns ns') :
    (twinning T).InStep φ Agree (call scope m r name ns d) (call scope m' r' name ns' d)

namespace ExpressionsAt

variable (ih : ExpressionsAt T d)

include ih

lemma expression_succ (h : Node.Twins (Facing T) n n') :
    (twinning T).InStep φ Agree (Analysis.expression scope n (d + 1))
      (Analysis.expression scope n' (d + 1)) := by
  have hsite := h.site
  rw [expression.eq_def, expression.eq_def scope n']
  cases h with
  | @literal _ _ _ _ sort hm =>
    dsimp only
    cases literalType? sort with
    | none => exact fail hsite
    | some t => exact decorated hm (by decide) t
  | group hm he => exact (ih.expression scope he).bindSame fun _ _ t _ => decorated hm (by decide) t
  | binary hm hl hr => exact ih.operation scope _ hm hl hr
  | access hm hp hr => exact ih.access scope _ hm hp hr
  | call hm hp hr hes => exact ih.call scope _ hm hp hr hes
  | _ => exact fail hsite

lemma operation_succ {operator : String} {l l' r r' : Node} (hm : Facing T (some .binary) m m')
    (hl : Node.Twins (Facing T) l l') (hr : Node.Twins (Facing T) r r') :
    (twinning T).InStep φ Agree (Analysis.operation scope m operator l r (d + 1))
      (Analysis.operation scope m' operator l' r' (d + 1)) := by
  rw [Analysis.operation, Analysis.operation]
  refine (ih.expression scope hl).bindSame fun _ _ left _ => ?_
  refine (ih.expression scope hr).bindSame fun _ _ right _ => ?_
  cases operationType operator left right with
  | error cause => exact fail hm.site
  | ok t => exact decorated hm (by decide) t

lemma access_succ {r r' : Node} (hm : Facing T (some .access) m m')
    (hp : r'.isPresent = r.isPresent) (hr : r.isPresent = true → Node.Twins (Facing T) r r') :
    (twinning T).InStep φ Agree (Analysis.access scope m r name (d + 1))
      (Analysis.access scope m' r' name (d + 1)) := by
  rw [access.eq_def, access.eq_def scope m']
  have hend {ψ : Layout} (found : VariableRef × Variable) : (twinning T).InStep ψ Agree
      (do
        Analysis.decorate m .access (.variable found.1)
        return found.2.type)
      (do
        Analysis.decorate m' .access (.variable found.1)
        return found.2.type) :=
    decorated hm (by decide) found.2.type
  cases hpresent : r.isPresent with
  | false =>
    rw [hpresent] at hp
    rw [Node.eq_absent_of_isPresent hpresent, Node.eq_absent_of_isPresent hp]
    exact (resolving hm.site (consult _)).bindSame fun _ _ found _ => hend found
  | true =>
    have hreceiver := ih.expression (φ := φ) scope (hr hpresent)
    have hfound : (twinning T).InStep φ Agree
        (do
          let t ← Analysis.expression scope r d
          Analysis.consult fun s => s.lookupField t.members? name)
        (do
          let t ← Analysis.expression scope r' d
          Analysis.consult fun s => s.lookupField t.members? name) :=
      hreceiver.bindSame fun _ _ t _ => consult _
    have hresult := (resolving hm.site hfound).bindSame fun _ _ found _ => hend found
    cases hr hpresent with
    | absent => cases hpresent
    | _ => exact hresult

lemma call_succ {r r' : Node} (hm : Facing T (some .call) m m')
    (hp : r'.isPresent = r.isPresent) (hr : r.isPresent = true → Node.Twins (Facing T) r r')
    (hns : List.Forall₂ (Node.Twins (Facing T)) ns ns') :
    (twinning T).InStep φ Agree (Analysis.call scope m r name ns (d + 1))
      (Analysis.call scope m' r' name ns' (d + 1)) := by
  rw [call.eq_def, call.eq_def scope m', ← hns.length_eq]
  refine (Pairing.InStep.mapM (fun n n' hn => ih.expression scope hn) hns).bindSame
    fun ψ _ types _ => ?_
  cases hpresent : r.isPresent with
  | false =>
    rw [hpresent] at hp
    rw [Node.eq_absent_of_isPresent hpresent, Node.eq_absent_of_isPresent hp]
    refine (lookup hm.site _).bindSame fun _ _ found _ => ?_
    refine (decorate hm (by decide)).bindSame fun _ _ _ _ => ?_
    exact (requireArguments hns _).bindSame fun _ _ _ _ => .same trivial
  | true =>
    have hreceiver := hr hpresent
    -- What follows the receiver is the same for every kind of receiver, so it is compared once.
    have hresult {χ : Layout} (t : Ty) : (twinning T).InStep χ Agree
        (do
          let found ← Analysis.lookup ⟨some .call, m.position⟩ fun s =>
            s.lookupMethod t.members? name (ns.length + 1)
          Analysis.decorate m .call (.function found.1)
          Analysis.requireReceiver r t found.2.parameters
          Analysis.requireArguments (found.2.parameters.drop 1) (ns.zip types)
          return found.2.returns)
        (do
          let found ← Analysis.lookup ⟨some .call, m'.position⟩ fun s =>
            s.lookupMethod t.members? name (ns.length + 1)
          Analysis.decorate m' .call (.function found.1)
          Analysis.requireReceiver r' t found.2.parameters
          Analysis.requireArguments (found.2.parameters.drop 1) (ns'.zip types)
          return found.2.returns) := by
      refine (lookup hm.site _).bindSame fun _ _ found _ => ?_
      refine (decorate hm (by decide)).bindSame fun _ _ _ _ => ?_
      refine (requireReceiver hreceiver _).bindSame fun _ _ _ _ => ?_
      exact (requireArguments hns _).bindSame fun _ _ _ _ => .same trivial
    have hcall := (ih.expression (φ := ψ) scope hreceiver).bindSame fun _ _ t _ => hresult t
    cases hreceiver with
    | absent => cases hpresent
    | _ => exact hcall

end ExpressionsAt

/-- The rules for expressions treat twins alike at every depth. -/
theorem expressionsAt (T : Site → Site → Prop) (d : Nat) : ExpressionsAt T d := by
  induction d with
  | zero => constructor <;> intros <;> exact tooDeep
  | succ d ih =>
    exact
      { expression := fun _ => ih.expression_succ
        operation := fun _ _ => ih.operation_succ
        access := fun _ _ => ih.access_succ
        call := fun _ _ => ih.call_succ }

/-! ### Statements -/

/-- The types of values that may be omitted, at related sites. -/
abbrev Values (T : Site → Site → Prop) (_ : Layout) :
    Option (Site × Ty) → Option (Site × Ty) → Prop :=
  Option.Rel fun value value' => T value.1 value'.1 ∧ value'.2 = value.2

lemma optionalValue (hp : n'.isPresent = n.isPresent)
    (h : n.isPresent = true → Node.Twins (Facing T) n n') :
    (twinning T).InStep φ (Values T) (optionalValue scope n d) (optionalValue scope n' d) := by
  unfold Analysis.optionalValue
  rw [hp]
  refine .ite (fun hn => ?_) fun _ => .pure fun _ _ => .none
  refine ((expressionsAt T d).expression scope (h hn)).bindSame fun _ _ t _ => ?_
  exact .pure fun _ _ => .some ⟨(h hn).site, rfl⟩

lemma declaredType {typeName : Option String} {value value' : Option (Site × Ty)}
    (hs : T site site') (hvalue : Values T φ value value') :
    (twinning T).InStep φ Agree (declaredType site name typeName value)
      (declaredType site' name typeName value') := by
  cases hvalue with
  | none =>
    cases typeName with
    | none => exact failBind hs
    | some typeName => exact (resolve hs _).bindSame fun _ _ _ _ => .same trivial
  | @some v v' h =>
    obtain ⟨valueSite, t⟩ := v
    obtain ⟨valueSite', t'⟩ := v'
    obtain ⟨hsite, rfl⟩ := h
    have hfits {ψ : Layout} (declared : Ty) : (twinning T).InStep ψ Agree
        (do
          Analysis.require valueSite declared t'
          return declared)
        (do
          Analysis.require valueSite' declared t'
          return declared) :=
      (require hsite).bindSame fun _ _ _ _ => .same trivial
    cases typeName with
    | none => exact hfits t'
    | some typeName => exact (resolve hs _).bindSame fun _ _ declared _ => hfits declared

lemma defineVariable {t : Ty} {constant : Bool} (hs : T site site') :
    (twinning T).InStep φ Agree (defineVariable site scope name t constant)
      (defineVariable site' scope name t constant) :=
  addVariable hs _

lemma condition (h : Node.Twins (Facing T) n n') :
    (twinning T).InStep φ Agree (condition scope n d) (condition scope n' d) := by
  cases d with
  | zero => exact tooDeep
  | succ d =>
    refine ((expressionsAt T d).expression scope h).bindSame fun _ _ t _ => ?_
    exact .ite (fun _ => .same trivial) fun _ => fail h.site

lemma perform (hm : Facing T (some .perform) m m') (h : Node.Twins (Facing T) n n') :
    (twinning T).InStep φ Agree (perform scope m n d) (perform scope m' n' d) := by
  cases d with
  | zero => exact tooDeep
  | succ d =>
    rw [perform.eq_def, perform.eq_def scope m']
    refine ((expressionsAt T d).expression scope h).bindSame fun _ _ t _ => ?_
    cases h with
    | call => exact .same trivial
    | _ => exact fail hm.site

lemma declare {typeName : Option String} (hm : Facing T (some .declare) m m')
    (hp : n'.isPresent = n.isPresent) (h : n.isPresent = true → Node.Twins (Facing T) n n') :
    (twinning T).InStep φ Agree (declare scope m name typeName n d)
      (declare scope m' name typeName n' d) := by
  cases d with
  | zero => exact tooDeep
  | succ d =>
    rw [Analysis.declare, Analysis.declare]
    refine (optionalValue hp h).bind fun _ _ value value' hvalue => ?_
    refine (declaredType hm.site hvalue).bindSame fun _ _ t _ => ?_
    exact (defineVariable hm.site).bindSame fun _ _ _ _ => decorate hm (by decide)

/-- An access is known by its number, so twins stand for the same variable. -/
lemma accessed? (h : Node.Twins (Facing T) n n') :
    Analysis.accessed? n' = Analysis.accessed? n := by
  cases h with
  | @access m m' r r' name hm _ _ =>
    have hnumber : m'.number = m.number := hm.number.resolve_left (by decide)
    unfold Analysis.accessed? Decorations.get?
    dsimp only
    rw [hnumber]
  | _ => rfl

lemma assign {r r' v v' : Node} (hm : Facing T (some .assign) m m')
    (hr : Node.Twins (Facing T) r r') (hv : Node.Twins (Facing T) v v') :
    (twinning T).InStep φ Agree (assign scope m r v d) (assign scope m' r' v' d) := by
  cases d with
  | zero => exact tooDeep
  | succ d =>
    have hat := expressionsAt T d
    rw [Analysis.assign, Analysis.assign, accessed? hr]
    refine (hat.expression scope hr).bindSame fun _ _ _ _ => ?_
    refine (hat.expression scope hv).bindSame fun _ _ t _ => ?_
    have haccessed {ψ : Layout} :
        (twinning T).InStep ψ Agree (Analysis.accessed? r) (Analysis.accessed? r) := by
      refine step fun st => ?_
      unfold Analysis.accessed?
      rw [outcome_bind, outcome_get]
      dsimp only
      split
      · split <;> trivial
      · trivial
    refine haccessed.bindSame fun _ _ found _ => ?_
    cases found with
    | none => exact fail hm.site
    | some v => exact .ite (fun _ => failBind hm.site) fun _ => require hm.site

lemma requireBody {construct : String} (hs : T site site')
    (h : List.Forall₂ (Node.Twins (Facing T)) ns ns') :
    (twinning T).InStep φ Agree (requireBody site construct ns)
      (requireBody site' construct ns') := by
  cases h with
  | nil => exact fail hs
  | cons => exact .same trivial

/-- The rules for statements treat twins alike at the depth. -/
structure StatementsAt (T : Site → Site → Prop) (d : Nat) : Prop where
  block {φ : Layout} {ns ns' : List Node} (scope : Scope) (returns : Ty)
    (h : List.Forall₂ (Node.Twins (Facing T)) ns ns') :
    (twinning T).InStep φ Agree (block scope returns ns d) (block scope returns ns' d)
  statement {φ : Layout} {n n' : Node} (scope : Scope) (returns : Ty)
    (h : Node.Twins (Facing T) n n') :
    (twinning T).InStep φ Agree (statement scope returns n d) (statement scope returns n' d)
  branch {φ : Layout} {m m' : Mark} {c c' : Node} {body body' other other' : List Node}
    (scope : Scope) (returns : Ty) (hm : Facing T (some .branch) m m')
    (hc : Node.Twins (Facing T) c c') (hb : List.Forall₂ (Node.Twins (Facing T)) body body')
    (ho : List.Forall₂ (Node.Twins (Facing T)) other other') :
    (twinning T).InStep φ Agree (branch scope returns m c body other d)
      (branch scope returns m' c' body' other' d)
  forLoop {φ : Layout} {m m' : Mark} {f f' c c' l l' : Node} {body body' : List Node}
    (scope : Scope) (returns : Ty) (hm : Facing T (some .forLoop) m m')
    (hpf : f'.isPresent = f.isPresent) (hf : f.isPresent = true → Node.Twins (Facing T) f f')
    (hpc : c'.isPresent = c.isPresent) (hc : c.isPresent = true → Node.Twins (Facing T) c c')
    (hpl : l'.isPresent = l.isPresent) (hl : l.isPresent = true → Node.Twins (Facing T) l l')
    (hb : List.Forall₂ (Node.Twins (Facing T)) body body') :
    (twinning T).InStep φ Agree (forLoop scope returns m f c l body d)
      (forLoop scope returns m' f' c' l' body' d)
  whileLoop {φ : Layout} {m m' : Mark} {c c' : Node} {body body' : List Node} (scope : Scope)
    (returns : Ty) (hm : Facing T (some .whileLoop) m m') (hc : Node.Twins (Facing T) c c')
    (hb : List.Forall₂ (Node.Twins (Facing T)) body body') :
    (twinning T).InStep φ Agree (whileLoop scope returns m c body d)
      (whileLoop scope returns m' c' body' d)

namespace StatementsAt

variable {returns : Ty} {c c' : Node} {body body' : List Node} (ih : StatementsAt T d)

include ih

/-- A block in a scope of its own. -/
lemma inner (h : List.Forall₂ (Node.Twins (Facing T)) ns ns') :
    (twinning T).InStep φ Agree (do Analysis.block (← Analysis.enter scope) returns ns d)
      (do Analysis.block (← Analysis.enter scope) returns ns' d) :=
  enter.bindSame fun _ _ inner _ => ih.block inner returns h

/-- A part of a loop is analysed if there is one, and then the rest. -/
lemma clause {x y : Analyze Unit} (h : n.isPresent = true → Node.Twins (Facing T) n n')
    (hxy : (twinning T).InStep φ Agree x y) :
    (twinning T).InStep φ Agree
      (if n.isPresent = true then (do
        Analysis.statement scope returns n d
        x) else x)
      (if n.isPresent = true then (do
        Analysis.statement scope returns n' d
        y) else y) :=
  .ite (fun hn => (ih.statement scope returns (h hn)).bindSame fun _ hle _ _ => hxy.mono hle)
    fun _ => hxy

lemma statement_succ (h : Node.Twins (Facing T) n n') :
    (twinning T).InStep φ Agree (Analysis.statement scope returns n (d + 1))
      (Analysis.statement scope returns n' (d + 1)) := by
  have hsite := h.site
  rw [statement.eq_def, statement.eq_def scope returns n']
  cases h with
  | perform hm he => exact perform hm he
  | declare hm hp hv => exact declare hm hp hv
  | assign hm hr hv => exact assign hm hr hv
  | branch hm hc hb ho => exact ih.branch scope returns hm hc hb ho
  | forLoop hm hpf hf hpc hc hpl hl hb =>
    exact ih.forLoop scope returns hm hpf hf hpc hc hpl hl hb
  | whileLoop hm hc hb => exact ih.whileLoop scope returns hm hc hb
  | giveBack hm hv =>
    exact ((expressionsAt T d).expression scope hv).bindSame fun _ _ t _ => require hsite
  | _ => exact fail hsite

lemma branch_succ {other other' : List Node} (hm : Facing T (some .branch) m m')
    (hc : Node.Twins (Facing T) c c') (hb : List.Forall₂ (Node.Twins (Facing T)) body body')
    (ho : List.Forall₂ (Node.Twins (Facing T)) other other') :
    (twinning T).InStep φ Agree (Analysis.branch scope returns m c body other (d + 1))
      (Analysis.branch scope returns m' c' body' other' (d + 1)) := by
  rw [Analysis.branch, Analysis.branch]
  refine (condition hc).bindSame fun _ _ _ _ => (requireBody hm.site hb).bindSame fun _ _ _ _ => ?_
  refine enter.bindSame fun _ _ inner _ => (ih.block inner returns hb).bindSame fun _ _ _ _ => ?_
  cases ho with
  | nil => exact .same trivial
  | cons hn hns => exact ih.inner (.cons hn hns)

lemma forLoop_succ {f f' l l' : Node} (hm : Facing T (some .forLoop) m m')
    (hpf : f'.isPresent = f.isPresent) (hf : f.isPresent = true → Node.Twins (Facing T) f f')
    (hpc : c'.isPresent = c.isPresent) (hc : c.isPresent = true → Node.Twins (Facing T) c c')
    (hpl : l'.isPresent = l.isPresent) (hl : l.isPresent = true → Node.Twins (Facing T) l l')
    (hb : List.Forall₂ (Node.Twins (Facing T)) body body') :
    (twinning T).InStep φ Agree (Analysis.forLoop scope returns m f c l body (d + 1))
      (Analysis.forLoop scope returns m' f' c' l' body' (d + 1)) := by
  rw [Analysis.forLoop, Analysis.forLoop, hpf, hpc, hpl]
  refine enter.bindSame fun _ _ loop _ => ih.clause hf ?_
  cases hpresent : c.isPresent with
  | false => exact failBind hm.site
  | true =>
    refine (condition (hc hpresent)).bindSame fun _ _ _ _ => ih.clause hl ?_
    exact (requireBody hm.site hb).bindSame fun _ _ _ _ => ih.inner hb

lemma whileLoop_succ (hm : Facing T (some .whileLoop) m m') (hc : Node.Twins (Facing T) c c')
    (hb : List.Forall₂ (Node.Twins (Facing T)) body body') :
    (twinning T).InStep φ Agree (Analysis.whileLoop scope returns m c body (d + 1))
      (Analysis.whileLoop scope returns m' c' body' (d + 1)) := by
  rw [Analysis.whileLoop, Analysis.whileLoop]
  refine (condition hc).bindSame fun _ _ _ _ => ?_
  exact (requireBody hm.site hb).bindSame fun _ _ _ _ => ih.inner hb

end StatementsAt

/-- The rules for statements treat twins alike at every depth. -/
theorem statementsAt (T : Site → Site → Prop) (d : Nat) : StatementsAt T d := by
  induction d with
  | zero => constructor <;> intros <;> exact tooDeep
  | succ d ih =>
    exact
      { block := fun scope returns h => by
          rw [block, block]
          exact .forM (fun _ _ => ih.statement scope returns) h
        statement := fun _ _ => ih.statement_succ
        branch := fun _ _ => ih.branch_succ
        forLoop := fun _ _ => ih.forLoop_succ
        whileLoop := fun _ _ => ih.whileLoop_succ }

/-! ### Programs -/

section

variable {globals : Scope} {f f' : Field} {g g' : Method} {p q : Program}

lemma field (h : Node.Twins (Facing T) f.toNode f'.toNode) :
    (twinning T).InStep φ Agree (field globals f d) (field globals f' d) := by
  cases d with
  | zero => exact tooDeep
  | succ d =>
    obtain ⟨m, name, typeName, constant, value⟩ := f
    obtain ⟨m', name', typeName', constant', value'⟩ := f'
    cases h with
    | field hm hp hv =>
      rw [Analysis.field, Analysis.field]
      refine (optionalValue hp hv).bind fun _ _ found found' hfound => ?_
      dsimp only
      rw [hp]
      have hrest {ψ : Layout} (hfound : Values T ψ found found') : (twinning T).InStep ψ Agree
          (do
            let t ← Analysis.declaredType ⟨some .field, m.position⟩ name typeName found
            Analysis.defineVariable ⟨some .field, m.position⟩ globals name t constant
            Analysis.decorate m .field (.variable ⟨globals.frame, name⟩))
          (do
            let t ← Analysis.declaredType ⟨some .field, m'.position⟩ name typeName found'
            Analysis.defineVariable ⟨some .field, m'.position⟩ globals name t constant
            Analysis.decorate m' .field (.variable ⟨globals.frame, name⟩)) := by
        refine (declaredType hm.site hfound).bindSame fun _ _ t _ => ?_
        exact (defineVariable hm.site).bindSame fun _ _ _ _ => decorate hm (by decide)
      exact .ite (fun _ => failBind hm.site) fun _ => hrest hfound

lemma defineParameters (hs : T site site') (parameters : List (String × Ty)) :
    (twinning T).InStep φ Agree (defineParameters site scope parameters)
      (defineParameters site' scope parameters) := by
  induction parameters generalizing φ with
  | nil => exact .same trivial
  | cons parameter rest ih => exact (defineVariable hs).bindSame fun _ _ _ _ => ih

lemma method (h : Node.Twins (Facing T) g.toNode g'.toNode) :
    (twinning T).InStep φ Agree (method globals g d) (method globals g' d) := by
  cases d with
  | zero => exact tooDeep
  | succ d =>
    obtain ⟨m, name, parameters, types, returns, body⟩ := g
    obtain ⟨m', name', parameters', types', returns', body'⟩ := g'
    cases h with
    | method hm hb =>
      rw [Analysis.method, Analysis.method]
      have htypes : (twinning T).InStep φ (Pairing.Same fun ts => ∀ t ∈ ts, True)
          (types.mapM fun t => Analysis.resolve ⟨some .method, m.position⟩ (Ty.ofName t))
          (types.mapM fun t => Analysis.resolve ⟨some .method, m'.position⟩ (Ty.ofName t)) := by
        refine .mapM (E := Eq) ?_ (List.forall₂_refl types)
        rintro typeName _ rfl
        exact resolve hm.site _
      have hreturns {ψ : Layout} : (twinning T).InStep ψ Agree
          (returnType ⟨m, name, parameters, types, returns, body⟩)
          (returnType ⟨m', name, parameters, types, returns, body'⟩) := by
        cases returns with
        | none => exact .same trivial
        | some name => exact resolve hm.site _
      refine htypes.bindSame fun _ _ ts _ => hreturns.bindSame fun _ _ t _ => ?_
      refine (addFunction hm.site _).bindSame fun _ _ _ _ => ?_
      refine (decorate hm (by decide)).bindSame fun _ _ _ _ => enter.bindSame fun _ _ scope _ => ?_
      refine (defineParameters hm.site _).bindSame fun _ _ _ _ => ?_
      exact .forM (fun _ _ => (statementsAt T d).statement scope t) hb

lemma requireMain (hs : T site site') :
    (twinning T).InStep φ Agree (requireMain globals site) (requireMain globals site') := by
  have hmain : (twinning T).InStep φ Agree (findMain globals site) (findMain globals site') := by
    intro ψ _ st st' hst
    rw [show st' = st from hst, outcome_findMain, outcome_findMain]
    cases st.store.lookupFunction globals "main" 0 with
    | ok found => exact .ok (Layout.Le.refl ψ) ⟨rfl, trivial⟩ rfl
    | error e => exact .error (Layout.Le.refl ψ) ⟨.fault hs, rfl⟩
  refine hmain.bindSame fun _ _ main _ => ?_
  exact .ite (fun _ => .same trivial) fun _ => fail hs

/-- The rules treat programs alike that are twins. -/
theorem program (h : Node.Twins (Facing T) p.toNode q.toNode) :
    (twinning T).InStep φ Agree (program d globals p) (program d globals q) := by
  cases h with
  | program hm hfs hms =>
    rw [List.forall₂_map_left_iff, List.forall₂_map_right_iff] at hfs hms
    have hfields : (twinning T).InStep φ Agree (p.fields.forM fun f => Analysis.field globals f d)
        (q.fields.forM fun f => Analysis.field globals f d) :=
      .forM (fun _ _ => field) hfs
    refine hfields.bindSame fun ψ _ _ _ => ?_
    have hmethods : (twinning T).InStep ψ Agree
        (p.methods.forM fun g => Analysis.method globals g d)
        (q.methods.forM fun g => Analysis.method globals g d) :=
      .forM (fun _ _ => method) hms
    exact hmethods.bindSame fun _ _ _ _ => requireMain hm.site

/-- Analysis treats programs alike that are twins when they are numbered. -/
theorem analyze (h : Node.Twins (Facing T) p.numbered.toNode q.numbered.toNode) :
    (twinning T).InStep φ Agree (analyze d globals p) (analyze d globals q) := by
  have hs : T p.site q.site := h.site
  refine mapError (program h) (fun _ => outcome_analyze) (fun _ => outcome_analyze)
    fun _ _ halts => ?_
  cases halts with
  | fault h => exact .fault h
  | naming e => exact .naming e
  | missingParameter => exact .missingParameter
  | decorated kind => exact .decorated kind
  | tooDeep => exact .fault hs

end

/-! ### Outcomes -/

/-- The same state is left, with the same result or for the same reason. -/
inductive Alike (T : Site → Site → Prop) :
    Except Halt α × State → Except Halt α × State → Prop
  | ok (a : α) (st : State) : Alike T (.ok a, st) (.ok a, st)
  | error {halt halt' : Halt} (h : halt.Twins T halt') (st : State) :
      Alike T (.error halt, st) (.error halt', st)

lemma Alike.state {r r' : Except Halt α × State} (h : Alike T r r') : r'.2 = r.2 := by
  cases h <;> rfl

/-- Steps in step end alike from every state. -/
lemma alike (h : ∀ φ, (twinning T).InStep φ Agree x y) (st : State) :
    Alike T (outcome x st) (outcome y st) := by
  have hxy := h ⟨[], []⟩ (Layout.Le.refl _) (rfl : (twinning T).states ⟨[], []⟩ st st)
  generalize outcome x st = r at hxy ⊢
  generalize outcome y st = r' at hxy ⊢
  cases hxy with
  | left h => exact h.elim
  | right h => exact h.elim
  | ok _ ha hst =>
    obtain ⟨rfl, _⟩ := ha
    cases (show _ = _ from hst)
    exact .ok _ _
  | error _ h =>
    obtain ⟨halts, hst⟩ := h
    dsimp only at hst halts
    rw [hst]
    exact .error halts _

end Twinning

end Analysis

end LetDef
