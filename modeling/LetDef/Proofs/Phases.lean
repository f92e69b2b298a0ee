import LetDef.Proofs.Analysis.Congruence
import LetDef.Proofs.Execution.Limits
import LetDef.Proofs.Syntax.Twins

/-!
# Faults stay inside their phase

A name that is not resolved stops a step of analysis or of a run, and the rules make a fault of the
phase of that: no such stop gets past them. Nor does a run call a method with another number of
arguments than it has parameters, because every function of a store is found under the number that
it takes, and analysis decorates no node twice, because the nodes of a tree have numbers of their
own.

Two stops are left. A tree that is no program, with a node among its fields or methods that does not
belong there or with an object in it that is no node, is a misfit to both phases, and no fault tells
of it. And a run stops, also without a fault, at an operation whose decimal result is out of the
range of exponents.
-/

namespace LetDef

/-! ### Functions that can be called -/

/-- With so many arguments the native yields an object and defines no functions, unless a number
has too many digits to be written. -/
def Native.Answers (N : Execution.Natives) (n : Native) (arity : Nat) : Prop :=
  ∀ arguments, arguments.length = arity → ∀ depth w,
    Ends (fun _ w' => ∀ i, (w'.store.frame i).functions = (w.store.frame i).functions)
      (fun halt _ => halt = .tooManyDigits) (Execution.callNative N n arguments depth) w

/-- The function can be called with as many arguments as it is known to take. -/
def Function.Fits (N : Execution.Natives) (g : Function) : Prop :=
  (∀ n, g.body = .native n → n.Answers N g.arity) ∧
    ∀ m home, g.body = .method m home → m.parameters.length = g.arity

/-- All functions of the store can be called. -/
def Store.Fits (N : Execution.Natives) (s : Store) : Prop :=
  ∀ i, ∀ g ∈ (s.frame i).functions, g.Fits N

/-! ### Trees that are programs -/

/-- The tree is a program: all its fields are fields, and all its methods are methods. -/
def Node.IsProgram (n : Node) : Prop :=
  ∃ p : Program, p.toNode = n

namespace Node.IsProgram

variable {mark : Mark} {fields methods : List Node} {n : Node}

lemma field (h : (Node.program mark fields methods).IsProgram) (hn : n ∈ fields) :
    Field.ofNode? n ≠ none := by
  obtain ⟨p, hp⟩ := h
  obtain ⟨_, rfl, _⟩ := Node.program.inj hp
  obtain ⟨f, _, rfl⟩ := List.mem_map.1 hn
  exact Option.some_ne_none f

lemma method (h : (Node.program mark fields methods).IsProgram) (hn : n ∈ methods) :
    Method.ofNode? n ≠ none := by
  obtain ⟨p, hp⟩ := h
  obtain ⟨_, _, rfl⟩ := Node.program.inj hp
  obtain ⟨m, _, rfl⟩ := List.mem_map.1 hn
  exact Option.some_ne_none m

end Node.IsProgram

variable {N : Execution.Natives}

namespace Store

variable {s t : Store} {scope : Scope} {g : Function}

lemma Fits.of_functions (h : s.Fits N)
    (hsame : ∀ i, (t.frame i).functions = (s.frame i).functions) : t.Fits N := by
  intro i g hg
  rw [hsame i] at hg
  exact h i g hg

lemma Fits.addFunction (h : s.Fits N) (hg : g.Fits N) : (s.addFunction scope g).Fits N := by
  intro i g' hg'
  by_cases hi : i = scope.frame
  · subst hi
    rcases Nat.lt_or_ge scope.frame s.frames.size with hsize | hsize
    · rw [functions_addFunction_self hsize] at hg'
      rcases List.mem_append.1 hg' with hold | hnew
      · exact h _ g' hold
      · rw [List.mem_singleton.1 hnew]
        exact hg
    · rw [Store.addFunction, frame_modifyFrame_of_size_le hsize] at hg'
      exact h _ g' hg'
  · rw [frame_addFunction_of_ne hi] at hg'
    exact h i g' hg'

/-- A function that is found can be called with the arguments for which it was looked up. -/
lemma Fits.of_lookupMethod (h : s.Fits N) (members : Option Scope) {name : String} {arity : Nat}
    {found : FunctionRef × Function}
    (hfound : s.lookupMethod members name arity = .ok found) :
    found.2.Fits N ∧ found.2.arity = arity := by
  obtain ⟨hget, harity⟩ := getFunction?_of_lookupMethod hfound
  exact ⟨h _ _ (List.mem_of_find?_eq_some hget), harity⟩

end Store

namespace Execution

lemma answers_print : Native.Answers N .print 1 := by
  intro arguments harity depth w
  obtain ⟨o, rfl⟩ := List.length_eq_one_iff.1 harity
  refine ends_bind (ends_pure (ends_bind ?_))
  unfold render
  cases o.value.render? with
  | some line => exact fun _ => rfl
  | none => rfl

/-- The scope of a program adds only `print` to what its host provides. -/
lemma fits_globalScope {host : Store} (h : host.Fits N) (parent : Option Scope) :
    (globalScope parent host).2.Fits N := by
  have henter : (host.enter parent).2.Fits N := h.of_functions fun i => by rw [Store.frame_enter]
  refine henter.addFunction ⟨?_, ?_⟩
  · rintro n ⟨rfl⟩
    exact answers_print
  · rintro m home ⟨⟩

/-! ### Runs -/

/-- What an operator finds may be above the range of exponents. -/
def Overflows (operator : String) : Prop :=
  ∃ left right v, operate operator left right = .ok v ∧ v.confine? = none

/-- A rule may stop so: with a fault that is not about the number of arguments, because a limit is
met or a literal holds no value, or where `misfits` holds because the tree is no program. -/
def Halt.Proper (misfits : Prop) : Halt → Prop
  | .fault f => f.cause.Plain
  | .overflow operator => Overflows operator
  | .misfit => misfits
  | .tooDeep | .tooManyDigits | .notAValue | .outOfFuel => True
  | .naming _ | .missingArgument | .host _ => False

/-- Where all functions can be called the step stops properly, or leaves such a store. -/
def Contained (N : Natives) (misfits : Prop) {α : Type} (x : Run α) : Prop :=
  ∀ w, w.store.Fits N →
    Ends (fun _ w' => w'.store.Fits N) (fun halt _ => halt.Proper misfits) x w

variable {misfits : Prop} {α β : Type} {x : Run α} {w w' : World} {site : Site} {scope : Scope}
  {name : String} {arity : Nat} {g : Function}

/-- A step that defines no functions is contained if it stops properly. -/
lemma Contained.of_leads
    (hx : Leads (fun w w' => ∀ i, (w'.store.frame i).functions = (w.store.frame i).functions) x)
    (h : ∀ w, Ends (fun _ _ => True) (fun halt _ => halt.Proper misfits) x w) :
    Contained N misfits x := by
  intro w hw
  have hstops := h w
  have hfits := hw.of_functions (hx w)
  unfold Ends at hstops ⊢
  rcases hout : outcome x w with ⟨halt | a, w₁⟩ <;> rw [hout] at hstops hfits
  · exact hstops
  · exact hfits

lemma contained_throw {halt : Halt} (h : halt.Proper misfits) :
    Contained N misfits (throw halt : Run α) :=
  fun _ _ => ends_throw h

lemma Contained.bind {f : α → Run β} (hx : Contained N misfits x)
    (hf : ∀ a, Contained N misfits (f a)) : Contained N misfits (x >>= f) :=
  fun w hw => (hx w hw).bind fun a w₁ hw₁ => hf a w₁ hw₁

lemma Contained.resolving (hx : Contained N misfits x) :
    Contained N misfits (resolving site x) := by
  intro w hw
  have h := hx w hw
  unfold Ends at h ⊢
  rw [outcome_resolving]
  rcases hout : outcome x w with ⟨halt | a, w₁⟩ <;> rw [hout] at h
  · cases halt with
    | naming e => exact h.elim
    | _ => exact h
  · exact h

/-- What follows a look-up has to be contained only for what is found. -/
lemma contained_lookup {find : Store → Except NameError α} {f : α → Run β}
    (hf : ∀ s a, s.Fits N → find s = .ok a → Contained N misfits (f a)) :
    Contained N misfits (lookup site find >>= f) := by
  intro w hw
  refine ends_bind ?_
  unfold Ends
  rw [outcome_lookup]
  cases hfind : find w.store with
  | ok a => exact hf _ a hw hfind w hw
  | error e => simp [Except.mapError, Halt.Proper, Cause.Plain]

lemma contained_lookupField {members : Option Scope} {f : VariableRef × Variable → Run α}
    (hf : ∀ found, Contained N misfits (f found)) :
    Contained N misfits (lookup site (fun s => s.lookupField members name) >>= f) :=
  contained_lookup fun _ found _ _ => hf found

lemma contained_lookupMethod (members : Option Scope) {f : Function → Run α}
    (hf : ∀ g, g.Fits N ∧ g.arity = arity → Contained N misfits (f g)) :
    Contained N misfits (lookup site (fun s => s.lookupMethod members name arity) >>= fun found =>
      f found.2) :=
  contained_lookup fun _ found hs hfound => hf found.2 (hs.of_lookupMethod members hfound)

lemma contained_addVariable {origin : Origin} {v : Variable} :
    Contained N misfits (addVariable site origin scope v) := by
  refine .of_leads (worldOrder_functions.leads_newVariable.resolving) fun w => ?_
  unfold Ends addVariable
  rw [outcome_resolving, outcome_newVariable]
  cases w.store.variableConflict? scope v.name with
  | none => trivial
  | some e => simp [Option.elim, Except.mapError, Halt.at, Halt.Proper, Cause.Plain]

lemma contained_store {access : Node} {ref : VariableRef} {v : Variable} {o : Object} :
    Contained N misfits (store site scope access ref v o) := by
  intro w hw
  unfold store
  split
  · exact ends_throw (by simp [Halt.Proper, Cause.Plain])
  · exact hw.of_functions fun i => Store.functions_modifyVars _

/-- Evaluation is contained, for functions with the arguments that they are known to take. -/
lemma congruence_contained : Congruence N 0 (fun _ x _ => Contained N misfits x)
    fun g arity => g.Fits N ∧ g.arity = arity where
  pure _ _ hw := ends_pure hw
  bind := Contained.bind
  fail _ _ hc := contained_throw hc
  tooManyDigits := contained_throw trivial
  notAValue := contained_throw trivial
  overflow hv hlarge := contained_throw ⟨_, _, _, hv, hlarge⟩
  note e := .of_leads (worldOrder_functions.indifferent.note e) fun _ => trivial
  enter scope := .of_leads (worldOrder_functions.indifferent.enter scope) fun _ => trivial
  addVariable _ _ _ _ := contained_addVariable
  lookupField site members name := by
    rw [← bind_pure (lookup site _)]
    exact contained_lookupField fun _ _ hw => ends_pure hw
  store _ _ _ _ _ _ hx := by
    rw [resolving_bind, bind_assoc]
    exact hx.resolving.bind fun owner => contained_lookupField fun _ => contained_store
  lookupFunction _ scope _ _ hf := contained_lookupMethod (some scope) hf
  lookupMethod _ _ _ _ hf := by
    rw [resolving_bind]
    exact contained_lookupMethod _ fun g hg => (hf g hg).resolving
  callNative depth hg hbody := by
    intro w hw
    refine (hg.1.1 _ hbody _ hg.2.symm depth w).imp (fun _ _ h => hw.of_functions h) ?_
    rintro halt w₁ rfl
    trivial
  wrongArity hg hbody hlength := absurd (hg.2.symm.trans (hg.1.2 _ _ hbody).symm) hlength

lemma limits_contained : RelatesLimits fun _ x _ => Contained N misfits x :=
  ⟨contained_throw trivial, contained_throw trivial⟩

lemma contained_at (fuel depth : Nat) : RelatedAt N (fun _ x _ => Contained N misfits x)
    (fun g arity => g.Fits N ∧ g.arity = arity) fuel depth fuel depth :=
  congruence_contained.relatedAt_self limits_contained fuel depth

/-! ### Trees -/

lemma fits_methodFunction (globals : Scope) (m : Method) : (methodFunction globals m).Fits N := by
  constructor
  · rintro n ⟨⟩
  · rintro m' home ⟨rfl, rfl⟩
    exact (List.length_map _).symm

lemma contained_addFunction (globals : Scope) (m : Method) :
    Contained N misfits (addFunction m.site globals (methodFunction globals m)) := by
  intro w hw
  unfold Ends addFunction
  rw [outcome_resolving, outcome_newFunction]
  cases w.store.functionConflict? globals _ _ with
  | none => exact hw.addFunction (fits_methodFunction globals m)
  | some e => simp [Option.elim, Except.mapError, Halt.at, Halt.Proper, Cause.Plain]

lemma contained_findMain {globals : Scope} {f : Function → Run α}
    (hf : ∀ g, g.Fits N ∧ g.arity = 0 → Contained N misfits (f g)) :
    Contained N misfits (findMain globals site >>= f) := by
  intro w hw
  refine ends_bind ?_
  unfold Ends
  rw [outcome_findMain]
  cases hfound : w.store.lookupFunction globals "main" 0 with
  | ok found =>
    have hmain := hw.of_lookupMethod (some globals) hfound
    exact hf found.2 hmain w hw
  | error e => simp [Except.mapError, Except.map, Halt.Proper, Cause.Plain]

lemma Contained.forM {f : β → Run PUnit} {bs : List β} (hf : ∀ b ∈ bs, Contained N misfits (f b)) :
    Contained N misfits (bs.forM f) := by
  induction bs with
  | nil => exact fun _ hw => ends_pure hw
  | cons b bs ih =>
    rw [List.forall_mem_cons] at hf
    exact hf.1.bind fun _ => ih hf.2

lemma contained_bindMember (fuel depth : Nat) (globals : Scope) {n : Node}
    (hn : Field.ofNode? n = none → misfits) :
    Contained N misfits (bindMember N fuel globals n depth) := by
  unfold bindMember
  split
  · exact congruence_contained.bindField_self limits_contained fuel _ globals _
  · exact contained_throw trivial
  · rename_i hnone
    have hstop : Contained N misfits (throw .misfit : Run Unit) := contained_throw (hn hnone)
    split
    · exact ((contained_at fuel _).evaluate globals n.ownValue).bind fun _ => hstop
    · exact hstop

lemma contained_defineMember (globals : Scope) {n : Node} (hn : Method.ofNode? n = none → misfits) :
    Contained N misfits (defineMember globals n) := by
  unfold defineMember
  split
  · exact contained_addFunction globals _
  · rename_i hnone
    exact contained_throw (hn hnone)

/-- A run of a tree is contained, and it is a misfit only if it is no program. -/
lemma contained_tree (fuel depth : Nat) (globals : Scope) (n : Node) :
    Contained N (¬ n.IsProgram) (tree N fuel depth globals n) := by
  cases n with
  | program mark fields methods =>
    refine (Contained.forM fun n hn => ?_).bind fun _ =>
      (Contained.forM fun n hn => ?_).bind fun _ => ?_
    · exact contained_bindMember fuel depth globals fun hnone h => h.field hn hnone
    · exact contained_defineMember globals fun hnone h => h.method hn hnone
    · exact contained_findMain fun g hg => (contained_at fuel depth).invoke hg
  | _ => exact contained_throw fun h => by obtain ⟨p, hp⟩ := h; cases hp

lemma Cause.Plain.code?_ne {c : Cause} (h : c.Plain) : c.code? ≠ some "R041" := by
  cases c with
  | naming e => cases hdup : e.isDuplicate <;> simp [Cause.code?, hdup]
  | wrongArity name expected received => exact absurd rfl (h name expected received)
  | _ => simp [Cause.code?]

/-- What a run of a tree may end with: an object, a fault at a node that is not about the number of
arguments, a number with too many digits to be written, a literal that holds no value, a decimal
above the range of exponents, or a misfit if the tree is no program or there are strays. -/
inductive EndsInPhase (strays : Site → Bool) (n : Node) : Except Halt Object → Prop where
  | object (o : Object) : EndsInPhase strays n (.ok o)
  | fault {f : Fault} (hcode : f.cause.code? ≠ some "R041") (hsite : strays f.site = false) :
    EndsInPhase strays n (.error (.fault f))
  | tooManyDigits : EndsInPhase strays n (.error .tooManyDigits)
  | notAValue : EndsInPhase strays n (.error .notAValue)
  | overflow {operator : String} (h : Overflows operator) :
    EndsInPhase strays n (.error (.overflow operator))
  | misfit (h : ¬ n.IsProgram ∨ ∃ site, strays site = true) :
    EndsInPhase strays n (.error .misfit)

variable {strays : Site → Bool}

/-- A fault is made at a node, or else it is a misfit. -/
lemma endsInPhase_located {n : Node} {f : Fault} (h : f.cause.code? ≠ some "R041") :
    EndsInPhase strays n (.error ((Halt.fault f).located strays)) := by
  rw [Halt.located]
  split
  · next hsite => exact .misfit (.inr ⟨f.site, hsite⟩)
  · next hsite => exact .fault h (eq_false_of_ne_true hsite)

lemma endsInPhase_runTree {fuel depth : Nat} {globals : Scope} {n : Node} (hw : w.store.Fits N)
    (hr : (outcome (runTree N strays fuel depth globals n) w).1 ≠ .error .outOfFuel) :
    EndsInPhase strays n (outcome (runTree N strays fuel depth globals n) w).1 := by
  have hproper := contained_tree fuel depth globals n w hw
  unfold Ends at hproper
  unfold runTree at hr ⊢
  rw [outcome_locating, outcome_guarding] at hr ⊢
  rcases hout : outcome (tree N fuel depth globals n) w with ⟨halt | o, w₁⟩ <;>
    rw [hout] at hr hproper
  · -- Depth that runs out is turned into a fault here; of the other stops the lemma on trees says
    -- which can be met.
    cases halt with
    | fault f => exact endsInPhase_located hproper.code?_ne
    | tooDeep => exact endsInPhase_located (by simp [Cause.code?])
    | tooManyDigits => exact .tooManyDigits
    | notAValue => exact .notAValue
    | overflow operator => exact .overflow hproper
    | misfit => exact .misfit (.inl hproper)
    | outOfFuel => exact absurd rfl hr
    | naming _ | missingArgument | host _ => exact hproper.elim
  · exact .object o

end Execution

/-! ### Analysis -/

/-- The numbers of the nodes that analysis decorates in what stands among the fields or methods of a
tree. What is neither has at most a value. -/
def Node.memberSlots : Node → List Nat
  | .field m _ _ _ value => value.slots ++ [m.number]
  | .method m _ _ _ _ body => m.number :: body.flatMap slots
  | n => n.ownValue.slots

/-- What stands among the fields or methods has a value first. -/
lemma Node.exists_memberSlots (n : Node) : ∃ ks, n.memberSlots = n.ownValue.slots ++ ks := by
  cases n with
  | field m name typeName constant value => exact ⟨_, rfl⟩
  | method m name parameters parameterTypes returnType body => exact ⟨_, rfl⟩
  | _ => exact ⟨[], (List.append_nil _).symm⟩

lemma Field.memberSlots_of_ofNode? {n : Node} {f : Field} (h : Field.ofNode? n = some f) :
    n.memberSlots = f.slots := by
  cases n with
  | field m name typeName constant value =>
    cases h
    rfl
  | _ => cases h

lemma Method.memberSlots_of_ofNode? {n : Node} {m : Method} (h : Method.ofNode? n = some m) :
    n.memberSlots = m.slots := by
  cases n with
  | method mark name parameters parameterTypes returnType body =>
    cases h
    rfl
  | _ => cases h

/-- The numbers of the nodes that analysis decorates in a tree. -/
def Node.treeSlots : Node → List Nat
  | .program _ fields methods => fields.flatMap memberSlots ++ methods.flatMap memberSlots
  | _ => []

lemma Within.sublist {k next : Nat} {js ls : List Nat} (h : Within k next js)
    (hs : ls.Sublist js) : Within k next ls where
  le := h.le
  nodup := h.nodup.sublist hs
  bounds j hj := h.bounds j (hs.subset hj)

lemma Node.within_memberSlots (n : Node) (k : Nat) :
    Within k (n.numberFrom k).2 (n.numberFrom k).1.memberSlots := by
  cases n with
  | declare m name typeName value => exact (value.within_numberFrom (k + 1)).skip
  | assign m receiver value =>
    have hparts := ((receiver.within_numberFrom (k + 1)).append (value.within_numberFrom _)).skip
    exact hparts.sublist (List.sublist_append_right _ _)
  | giveBack m value => exact (value.within_numberFrom (k + 1)).skip
  | field m name typeName constant value => exact (value.within_numberFrom (k + 1)).snoc
  | method m name parameters parameterTypes returnType body =>
    have hbody : Within (k + 1) _ (Node.slots.all (Node.numberFrom.all (k + 1) body).1) :=
      Node.within_all (fun n _ => n.within_numberFrom) (k + 1)
    rw [Node.slots_all] at hbody
    exact hbody.cons
  | _ => exact (Node.within_numberFrom _ k).none

lemma Node.within_memberSlots_all (ns : List Node) (k : Nat) :
    Within k (Node.numberFrom.all k ns).2
      ((Node.numberFrom.all k ns).1.flatMap Node.memberSlots) := by
  induction ns generalizing k with
  | nil => exact .nil k
  | cons n ns ih => exact (n.within_memberSlots k).append (ih _)

lemma Node.nodup_treeSlots_numbered (n : Node) : n.numbered.treeSlots.Nodup := by
  cases n with
  | program m fields methods =>
    exact ((within_memberSlots_all fields 1).append (within_memberSlots_all methods _)).nodup
  | _ => exact List.nodup_nil

/-- The tree of a numbered program, which numbers its root too. -/
lemma Program.numbered_toNode (p : Program) :
    p.toNode.numbered = { p.numbered with mark := p.mark.numbered 0 : Program }.toNode := by
  unfold Node.numbered Program.toNode
  rw [Node.numberFrom]
  simp only [numberFrom_all_map Field.numberFrom_toNode,
    numberFrom_all_map Method.numberFrom_toNode]
  rfl

lemma Node.IsProgram.numbered {n : Node} (h : n.IsProgram) : n.numbered.IsProgram := by
  obtain ⟨p, rfl⟩ := h
  exact ⟨_, p.numbered_toNode.symm⟩

namespace Analysis

/-- A rule may stop so: with a fault, because the tree is nested too deeply, or where `misfits`
holds because it is no program. -/
def Halt.Proper (misfits : Prop) : Halt → Prop
  | .fault _ => True
  | .tooDeep => True
  | .misfit => misfits
  | _ => False

/-- Where the nodes of the numbers have no decorations yet, the step stops properly or leaves all
other nodes as they are. -/
def Clean (misfits : Prop) (ks : List Nat) {α : Type} (x : Analyze α) : Prop :=
  ks.Nodup → ∀ st : State, (∀ k ∈ ks, st.decorations.slots[k]? = none) →
    Ends (fun _ st' => ∀ k ∉ ks, st'.decorations.slots[k]? = st.decorations.slots[k]?)
      (fun halt _ => halt.Proper misfits) x st

variable {misfits : Prop} {α β : Type} {ks ls : List Nat} {x : Analyze α} {site : Site}
  {scope : Scope}

lemma clean_throw {halt : Halt} (h : halt.Proper misfits) :
    Clean misfits ks (throw halt : Analyze α) :=
  fun _ _ _ => ends_throw h

/-- A step that leaves the decorations as they are is clean if it stops properly. -/
lemma clean_of_decorations (h : ∀ st, Ends (fun _ st' => st'.decorations = st.decorations)
    (fun halt _ => halt.Proper misfits) x st) : Clean misfits [] x := by
  intro _ st _
  refine (h st).imp (fun _ st' hsame k _ => ?_) fun _ _ h => h
  rw [hsame]

lemma Clean.bind {f : α → Analyze β} (hx : Clean misfits ks x)
    (hf : ∀ a, Clean misfits ls (f a)) : Clean misfits (ks ++ ls) (x >>= f) := by
  intro hnodup st hfree
  obtain ⟨hks, hls, hdisjoint⟩ := List.nodup_append.1 hnodup
  refine (hx hks st fun k hk => hfree k (List.mem_append_left ls hk)).bind fun a st₁ hsame => ?_
  have hfree₁ : ∀ k ∈ ls, st₁.decorations.slots[k]? = none := fun k hk => by
    rw [hsame k fun hmem => hdisjoint k hmem k hk rfl]
    exact hfree k (List.mem_append_right ks hk)
  refine (hf a hls st₁ hfree₁).imp (fun _ st₂ hsame₂ k hk => ?_) fun _ _ h => h
  rw [List.mem_append, not_or] at hk
  rw [hsame₂ k hk.2, hsame k hk.1]

lemma Clean.resolving (hx : Clean misfits ks x) : Clean misfits ks (resolving site x) := by
  intro hnodup st hfree
  have h := hx hnodup st hfree
  unfold Ends at h ⊢
  rw [outcome_resolving]
  rcases hout : outcome x st with ⟨halt | a, st₁⟩ <;> rw [hout] at h
  · cases halt with
    | naming e => exact h.elim
    | _ => exact h
  · exact h

lemma clean_decorate (m : Mark) (kind : Node.Kind) (d : Decoration) :
    Clean misfits [m.number] (decorate m kind d) := by
  intro _ st hfree
  have hnone : st.decorations.get? m = none := hfree m.number (List.mem_singleton_self _)
  unfold Ends decorate
  rw [outcome_bind, outcome_get]
  dsimp only
  rw [hnone]
  intro k hk
  exact Std.TreeMap.getElem?_insert.trans (if_neg fun heq => hk (by simp_all))

lemma clean_lookup {find : Store → Except NameError α} :
    Clean misfits [] (lookup site find) := by
  refine clean_of_decorations fun st => ?_
  unfold Ends lookup
  rw [outcome_resolving, outcome_consult]
  cases find st.store <;> trivial

lemma clean_lookupMethod {f : FunctionRef → Function → Analyze α} {members : Option Scope}
    {name : String} {arity : Nat} (hf : ∀ ref g, g.arity = arity → Clean misfits ks (f ref g)) :
    Clean misfits ks (lookup site (fun s => s.lookupMethod members name arity) >>= fun found =>
      f found.1 found.2) := by
  intro hnodup st hfree
  refine ends_bind ?_
  unfold Ends lookup
  rw [outcome_resolving, outcome_consult]
  cases hfound : st.store.lookupMethod members name arity with
  | error e => trivial
  | ok found => exact hf _ _ (Store.getFunction?_of_lookupMethod hfound |>.2) hnodup st hfree

/-- Analysis is clean. -/
lemma congruence_clean : Congruence fun ks _ x _ => Clean misfits ks x where
  pure _ := clean_of_decorations fun _ => ends_pure rfl
  bind := Clean.bind
  fail _ _ := clean_throw trivial
  tooDeep _ := clean_throw trivial
  resolving _ := Clean.resolving
  decorate := clean_decorate
  resolve site result := by
    refine clean_of_decorations fun st => ?_
    unfold Ends resolve
    rw [outcome_resolving, outcome_unwrap]
    cases result <;> trivial
  lookupField _ _ _ := clean_lookup
  lookupMethod _ _ _ _ := clean_lookupMethod
  addVariable site scope v := by
    refine clean_of_decorations fun st => ?_
    unfold Ends addVariable
    rw [outcome_resolving, outcome_newVariable]
    cases st.store.variableConflict? scope v.name <;> trivial
  addFunction site scope g := by
    refine clean_of_decorations fun st => ?_
    unfold Ends addFunction
    rw [outcome_resolving, outcome_newFunction]
    cases st.store.functionConflict? scope g.name g.arity <;> trivial
  enter _ := clean_of_decorations fun _ => rfl
  accessed n := by
    refine clean_of_decorations fun st => ?_
    have hget : Ends (fun _ st' => st' = st) (fun (halt : Halt) _ => halt.Proper misfits) get st :=
      rfl
    refine hget.bind fun _ st' hsame => ?_
    rw [hsame]
    split
    · split <;> exact ends_pure rfl
    · exact ends_pure rfl
  findMain globals site := by
    refine clean_of_decorations fun st => ?_
    unfold Ends
    rw [outcome_findMain]
    cases st.store.lookupFunction globals "main" 0 <;> trivial

/-- Of an undecorated program, analysis ends well or with a fault. -/
lemma analyze_clean {depth : Nat} {globals : Scope} {p : Program} {st : State}
    (h : ∀ m, st.decorations.get? m = none) :
    (outcome (analyze depth globals p) st).1 = .ok () ∨
      ∃ f, (outcome (analyze depth globals p) st).1 = .error (.fault f) := by
  have hclean : Clean False p.numbered.slots (program depth globals p.numbered) :=
    congruence_clean.program (Nat.le_refl depth) globals p.numbered
  have hends := hclean p.nodup_slots_numbered st fun k _ => h { number := k }
  unfold Ends at hends
  rw [outcome_analyze]
  rcases hout : outcome (program depth globals p.numbered) st with ⟨halt | u, st₁⟩ <;>
    rw [hout] at hends
  · right
    cases halt with
    | fault f => exact ⟨f, rfl⟩
    | tooDeep => exact ⟨_, rfl⟩
    | _ => exact hends.elim
  · exact .inl rfl

/-! ### Analysis of trees -/

lemma Clean.forM {slots : β → List Nat} {f : β → Analyze PUnit} {bs : List β}
    (hf : ∀ b ∈ bs, Clean misfits (slots b) (f b)) :
    Clean misfits (bs.flatMap slots) (bs.forM f) := by
  induction bs with
  | nil => exact congruence_clean.pure PUnit.unit
  | cons b bs ih =>
    rw [List.forall_mem_cons] at hf
    exact hf.1.bind fun _ => ih hf.2

lemma clean_fieldMember (globals : Scope) (depth : Nat) {n : Node}
    (hn : Field.ofNode? n = none → misfits) :
    Clean misfits n.memberSlots (fieldMember globals n depth) := by
  unfold fieldMember
  split
  · rename_i f hf
    rw [Field.memberSlots_of_ofNode? hf]
    exact congruence_clean.field 0 _ globals f
  · exact clean_throw trivial
  · rename_i depth hnone
    obtain ⟨ks, hks⟩ := n.exists_memberSlots
    rw [hks]
    have hvalue : Clean misfits n.ownValue.slots (optionalValue globals n.ownValue depth) :=
      congruence_clean.optionalValue (congruence_clean.relatedAt 0 depth) n.ownValue
    have hstop : Clean misfits ks (throw .misfit : Analyze Unit) := clean_throw (hn hnone)
    exact hvalue.bind fun _ => hstop

lemma clean_methodMember (globals : Scope) (depth : Nat) {n : Node}
    (hn : Method.ofNode? n = none → misfits) :
    Clean misfits n.memberSlots (methodMember globals n depth) := by
  unfold methodMember
  split
  · rename_i m hm
    rw [Method.memberSlots_of_ofNode? hm]
    exact congruence_clean.method 0 _ globals m
  · exact clean_throw trivial
  · rename_i hnone
    exact clean_throw (hn hnone)

/-- Analysis of a tree is clean, and it is a misfit only if it is no program. -/
lemma clean_tree (globals : Scope) (depth : Nat) (n : Node) :
    Clean (¬ n.IsProgram) n.treeSlots (tree depth globals n) := by
  cases n with
  | program mark fields methods =>
    have hfields : Clean (¬ (Node.program mark fields methods).IsProgram)
        (fields.flatMap Node.memberSlots) (fields.forM fun n => fieldMember globals n depth) :=
      .forM fun n hn => clean_fieldMember globals depth fun hnone h => h.field hn hnone
    have hmethods : Clean (¬ (Node.program mark fields methods).IsProgram)
        (methods.flatMap Node.memberSlots) (methods.forM fun n => methodMember globals n depth) :=
      .forM fun n hn => clean_methodMember globals depth fun hnone h => h.method hn hnone
    have hmain : Clean (¬ (Node.program mark fields methods).IsProgram) []
        (requireMain globals ⟨some .program, mark.position⟩) :=
      congruence_clean.requireMain globals _
    have hrest := hmethods.bind fun _ => hmain
    rw [List.append_nil] at hrest
    exact hfields.bind fun _ => hrest
  | _ => exact clean_throw fun h => by obtain ⟨p, hp⟩ := h; cases hp

/-- What analysis of a tree may end with: success, a fault at a node, or a misfit if the tree is no
program or there are strays. -/
inductive EndsInPhase (strays : Site → Bool) (n : Node) : Except Halt Unit → Prop where
  | success : EndsInPhase strays n (.ok ())
  | fault {f : Fault} (hsite : strays f.site = false) : EndsInPhase strays n (.error (.fault f))
  | misfit (h : ¬ n.IsProgram ∨ ∃ site, strays site = true) :
    EndsInPhase strays n (.error .misfit)

variable {strays : Site → Bool}

/-- A fault is made at a node, or else it is a misfit. -/
lemma endsInPhase_located (n : Node) (f : Fault) :
    EndsInPhase strays n (.error ((Halt.fault f).located strays)) := by
  rw [Halt.located]
  split
  · next hsite => exact .misfit (.inr ⟨f.site, hsite⟩)
  · next hsite => exact .fault (eq_false_of_ne_true hsite)

lemma endsInPhase_analyzeTree {depth : Nat} {globals : Scope} {n : Node} {st : State}
    (h : ∀ m, st.decorations.get? m = none) :
    EndsInPhase strays n (outcome (analyzeTree strays depth globals n) st).1 := by
  have hends := clean_tree globals depth n.numbered n.nodup_treeSlots_numbered st
    fun k _ => h { number := k }
  unfold Ends at hends
  unfold analyzeTree
  rw [outcome_locating, outcome_guarding]
  rcases hout : outcome (tree depth globals n.numbered) st with ⟨halt | u, st₁⟩ <;>
    rw [hout] at hends
  · cases halt with
    | fault f => exact endsInPhase_located n f
    | tooDeep => exact endsInPhase_located n _
    | misfit => exact .misfit (.inl fun h => hends h.numbered)
    | _ => exact hends.elim
  · exact .success

end Analysis

/-! ### Programs among trees -/

namespace Execution

/-- Without strays faults can be made everywhere. -/
lemma locating_none (step : Run Object) : locating (fun _ => false) step = step := by
  refine outcome_ext fun w => ?_
  rw [outcome_locating]
  rcases outcome step w with ⟨halt | o, w₁⟩
  · cases halt <;> rfl
  · rfl

/-- A program runs as the tree that it is. -/
theorem runTree_toNode (fuel depth : Nat) (globals : Scope) (p : Program) :
    runTree N (fun _ => false) fuel depth globals p.toNode = run N fuel depth globals p := by
  have hfields : (p.fields.map Field.toNode).forM (fun n => bindMember N fuel globals n depth)
      = p.fields.forM fun f => bindField N fuel globals f depth := List.forM_map ..
  have hmethods : (p.methods.map Method.toNode).forM (defineMember globals)
      = p.methods.forM fun m => addFunction m.site globals (methodFunction globals m) :=
    List.forM_map ..
  unfold runTree run program
  rw [locating_none, Program.toNode, tree, hfields, hmethods]
  rfl

end Execution

namespace Analysis

/-- Without strays faults can be made everywhere. -/
lemma locating_none (step : Analyze Unit) : locating (fun _ => false) step = step := by
  refine outcome_ext fun st => ?_
  rw [outcome_locating]
  rcases outcome step st with ⟨halt | u, st₁⟩
  · cases halt <;> rfl
  · rfl

/-- A program is analysed as the tree that it is. -/
theorem analyzeTree_toNode (depth : Nat) (globals : Scope) (p : Program) :
    analyzeTree (fun _ => false) depth globals p.toNode = analyze depth globals p := by
  have hfields (fs : List Field) : (fs.map Field.toNode).forM (fun n => fieldMember globals n depth)
      = fs.forM fun f => field globals f depth := List.forM_map ..
  have hmethods (ms : List Method) :
      (ms.map Method.toNode).forM (fun n => methodMember globals n depth)
      = ms.forM fun m => method globals m depth := List.forM_map ..
  have hnumbered : p.toNode.numbered = { p.numbered with mark := p.mark.numbered 0 }.toNode :=
    p.numbered_toNode
  unfold analyzeTree analyze program
  rw [locating_none, hnumbered]
  change guarding p.site (tree depth globals (.program _ _ _)) = _
  rw [tree, hfields, hmethods]
  rfl

end Analysis

/-! ### Both phases -/

lemma fits_incStore : Execution.incStore.Fits Execution.twoFunctions := by
  have hempty : (({} : Store).enter none).2.Fits Execution.twoFunctions := by
    intro i g hg
    rw [Store.frame_enter] at hg
    cases i <;> cases hg
  refine hempty.addFunction ⟨?_, ?_⟩
  · rintro n ⟨rfl⟩ arguments _ depth w
    exact fun _ => rfl
  · rintro m home ⟨⟩

/-- A program that calls the function with no argument instead of one. -/
def miscounting : Program where
  fields := []
  methods :=
    [{ name := "main", parameters := [], parameterTypes := [], returnType := some "Integer"
       body := [.giveBack {} (.call {} .absent "inc" [])] }]

/-- The call is a fault, and the function that there is, is suggested. -/
lemma miscounting_stops :
    (outcome (Execution.runTree Execution.twoFunctions (fun _ => false) 9 9 Execution.incStart.1
      miscounting.toNode) Execution.incStart.2).1
      = .error (.fault ⟨.naming (.undefinedFunction "inc" 0 ["inc/1"]), ⟨some .call, none⟩⟩) := by
  decide +kernel

/-- A tree whose only field is omitted. -/
def fieldless : Node :=
  .program {} [.absent] []

/-- The largest power of ten in the range of exponents. -/
def largestPower : Node :=
  .literal {} (.value (.decimal ⟨false, 1, 999999999999999999⟩)) "decimal"

/-- A program that squares it. -/
def squaring : Program where
  fields := []
  methods :=
    [{ name := "main", parameters := [], parameterTypes := [], returnType := some "Decimal"
       body := [.giveBack {} (.binary {} "*" largestPower largestPower)] }]

/-- Where the stray of the next program stands. -/
def straySite : Site :=
  ⟨some .program, none⟩

/-- A program that gives a stray back. -/
def straying : Program where
  fields := []
  methods :=
    [{ name := "main", parameters := [], parameterTypes := [], returnType := some "Integer"
       body := [.giveBack {} (.program {} [] [])] }]

lemma out_of_phase :
    (outcome (Execution.runTree .none (fun _ => false) 9 9 (Execution.globalScope none {}).1
      fieldless) { store := (Execution.globalScope none {}).2 }).1 = .error .misfit ∧
    (outcome (Execution.runTree .none (· == straySite) 9 9 (Execution.globalScope none {}).1
      straying.toNode) { store := (Execution.globalScope none {}).2 }).1 = .error .misfit ∧
    (outcome (Execution.runTree .none (fun _ => false) 9 9 (Execution.globalScope none {}).1
      squaring.toNode) { store := (Execution.globalScope none {}).2 }).1 = .error (.overflow "*") ∧
    (outcome (Analysis.analyzeTree (fun _ => false) 9 ⟨0, []⟩ fieldless) {}).1 = .error .misfit ∧
    (outcome (Analysis.analyzeTree (· == straySite) 9 ⟨0, []⟩ straying.toNode) {}).1
      = .error .misfit := by
  decide +kernel

/-- The run yields an object, or stops with a fault, at a number with too many digits, at a literal
that holds no value or for want of fuel. -/
def Execution.StopsByFault : Except Execution.Halt Object → Prop
  | .ok _ => True
  | .error (.fault _) | .error .tooManyDigits | .error .notAValue | .error .outOfFuel => True
  | .error _ => False

/-- Analysis ends well or stops with a fault. -/
def Analysis.StopsByFault : Except Analysis.Halt Unit → Prop
  | .ok _ | .error (.fault _) => True
  | .error _ => False

end LetDef
