import LetDef.Proofs.Binding.Resolution
import Mathlib.Data.List.Nodup

/-!
# Origins of a program

The origins of a program are its fields, its declarations and the parameters of its methods.
Analysis makes a variable for each of them. `Makes` says so of a part of its way: the variables were
not there before, they are there after, and no two of them are the same. So what is made on one part
differs from what is made on a later one.
-/

namespace LetDef

open Execution (Origin)

/-! ### Parts of trees -/

namespace Node

variable {root n c d : Node} {valid : String → Prop} {data : Value → Prop}

lemma mem_of_mem_filter_isPresent {ns : List Node} (h : c ∈ ns.filter isPresent) :
    c ∈ ns ∧ c ≠ .absent := by
  obtain ⟨hc, hpresent⟩ := List.mem_filter.1 h
  refine ⟨hc, ?_⟩
  rintro rfl
  cases hpresent

lemma IsExpression.child (h : n.IsExpression valid data) (hc : c ∈ n.children) :
    c.IsExpression valid data := by
  cases h with
  | literal => cases hc
  | group he => rwa [List.mem_singleton.1 hc]
  | binary _ hl hr =>
    simp only [children, List.mem_cons, List.not_mem_nil, or_false] at hc
    rcases hc with rfl | rfl
    · exact hl
    · exact hr
  | name => cases hc
  | access he =>
    rwa [List.mem_singleton.1 (mem_of_mem_filter_isPresent hc).1]
  | call _ hes => exact hes c hc
  | invoke he _ _ hes =>
    rcases List.mem_append.1 hc with hc | hc
    · rwa [List.mem_singleton.1 (mem_of_mem_filter_isPresent hc).1]
    · exact hes c hc

lemma IsExpression.not_defines (h : n.IsExpression valid data) : ¬ n.Defines := by
  cases h <;> simp [Defines, kind?]

lemma IsExpression.of_below (h : root.IsExpression valid data) (hn : root.Below n) :
    n.IsExpression valid data := by
  induction hn with
  | root => exact h
  | child _ hc ih => exact ih.child hc

lemma IsOptional.not_defines (h : root.IsOptional valid data) (hc : root ≠ .absent)
    (hn : root.Below n) : ¬ n.Defines := by
  rcases h with h | h
  · exact absurd h hc
  · exact (h.of_below hn).not_defines

/-- Nothing is defined in a tree that is made of expressions only. -/
lemma not_defines_of_children (hn : root.Below n) (h : ¬ root.Defines)
    (hcs : ∀ c ∈ root.children, c.IsExpression valid data) : ¬ n.Defines := by
  rcases hn.eq_or_child with rfl | ⟨c, hc, hbelow⟩
  · exact h
  · exact ((hcs c hc).of_below hbelow).not_defines

lemma IsAssignment.not_defines (h : root.IsAssignment valid data) (hn : root.Below n) :
    ¬ n.Defines := by
  cases h with
  | mk hr hv =>
    have hchildren := List.forall_mem_cons.2 ⟨hr, List.forall_mem_singleton.2 hv⟩
    exact not_defines_of_children hn (by simp [Defines, kind?]) hchildren

/-! ### Origins -/

/-- The origins of the declarations in a statement. -/
def origins : Node → List Origin
  | .declare mark _ _ _ => [.declaration mark]
  | .branch _ _ body other => all body ++ all other
  | .forLoop _ first _ last body => first.origins ++ last.origins ++ all body
  | .whileLoop _ _ body => all body
  | _ => []
where
  /-- The origins of the declarations in several statements. -/
  all : List Node → List Origin
    | [] => []
    | n :: ns => n.origins ++ all ns

lemma mem_origins_all {o : Origin} {ns : List Node} (hn : n ∈ ns) (ho : o ∈ n.origins) :
    o ∈ origins.all ns := by
  induction ns with
  | nil => cases hn
  | cons m ns ih =>
    rw [origins.all, List.mem_append]
    rcases List.mem_cons.1 hn with rfl | hn
    · exact .inl ho
    · exact .inr (ih hn)

lemma IsDeclaration.mem_origins (h : n.IsDeclaration valid data) (hd : n.Below d)
    (hk : d.Defines) : .declaration d.mark ∈ n.origins := by
  cases h with
  | mk _ _ hv =>
    rcases hd.eq_or_child with rfl | ⟨c, hc, hbelow⟩
    · exact List.mem_singleton.2 rfl
    · obtain ⟨hc, hpresent⟩ := mem_of_mem_filter_isPresent hc
      rw [List.mem_singleton.1 hc] at hbelow hpresent
      exact absurd hk (hv.not_defines hpresent hbelow)

/-- What defines a variable in a statement is one of its declarations. -/
lemma IsStatement.mem_origins (h : n.IsStatement valid data) (hd : n.Below d) (hk : d.Defines) :
    .declaration d.mark ∈ n.origins := by
  induction h with
  | declaration h => exact h.mem_origins hd hk
  | assignment h => exact absurd hk (h.not_defines hd)
  | perform he =>
    have hchildren := List.forall_mem_singleton.2 he
    exact absurd hk (not_defines_of_children hd (by simp [Defines, kind?]) hchildren)
  | branch hcond _ _ ihb iho =>
    rcases hd.eq_or_child with rfl | ⟨c, hc, hbelow⟩
    · simp [Defines, kind?] at hk
    · rw [children, List.cons_append, List.mem_cons, List.mem_append] at hc
      rw [origins, List.mem_append]
      rcases hc with rfl | hc | hc
      · exact absurd hk (hcond.of_below hbelow).not_defines
      · exact .inl (mem_origins_all hc (ihb c hc hbelow))
      · exact .inr (mem_origins_all hc (iho c hc hbelow))
  | forLoop hi hcond hl _ ihb =>
    rcases hd.eq_or_child with rfl | ⟨c, hc, hbelow⟩
    · simp [Defines, kind?] at hk
    · rw [children, List.mem_append] at hc
      rw [origins, List.mem_append, List.mem_append]
      rcases hc with hc | hc
      · -- Of the clauses only the first can declare.
        obtain ⟨hc, hpresent⟩ := mem_of_mem_filter_isPresent hc
        simp only [List.mem_cons, List.not_mem_nil, or_false] at hc
        rcases hc with rfl | rfl | rfl
        · rcases hi with hi | hi | hi
          · exact absurd hi hpresent
          · exact .inl (.inl (hi.mem_origins hbelow hk))
          · exact absurd hk (hi.not_defines hbelow)
        · exact absurd hk (hcond.not_defines hpresent hbelow)
        · cases hl with
          | none => exact absurd rfl hpresent
          | some hr _ hv => exact absurd hk (IsAssignment.not_defines (.mk hr hv) hbelow)
      · exact .inr (mem_origins_all hc (ihb c hc hbelow))
  | whileLoop hcond _ ihb =>
    rcases hd.eq_or_child with rfl | ⟨c, hc, hbelow⟩
    · simp [Defines, kind?] at hk
    · rcases List.mem_cons.1 hc with rfl | hc
      · exact absurd hk (hcond.of_below hbelow).not_defines
      · exact mem_origins_all hc (ihb c hc hbelow)
  | giveBack he =>
    have hchildren := List.forall_mem_singleton.2 he
    exact absurd hk (not_defines_of_children hd (by simp [Defines, kind?]) hchildren)

end Node

/-- The origins of the parameters of a method from a position on. -/
def Method.parameterOrigins (m : Method) : Nat → List String → List Origin
  | _, [] => []
  | k, _ :: names => .parameter m.mark k :: m.parameterOrigins (k + 1) names

/-- The origins of the parameters and the declarations of a method. -/
def Method.origins (m : Method) : List Origin :=
  m.parameterOrigins 0 m.parameters ++ Node.origins.all m.body

/-- The origin of a field. -/
def Field.origin (f : Field) : Origin :=
  .declaration f.mark

/-- The origins of a program in the order of the text. -/
def Program.origins (p : Program) : List Origin :=
  p.fields.map Field.origin ++ p.methods.flatMap Method.origins

lemma Method.mem_parameterOrigins (m : Method) {k i : Nat} {names : List String} {name : String}
    (h : names[i]? = some name) : .parameter m.mark (k + i) ∈ m.parameterOrigins k names := by
  induction names generalizing k i with
  | nil => cases h
  | cons name' names ih =>
    rw [parameterOrigins, List.mem_cons]
    cases i with
    | zero => exact .inl rfl
    | succ i =>
      have hmem := ih (k := k + 1) h
      rw [Nat.add_right_comm] at hmem
      exact .inr hmem

/-- What defines a variable in a program is one of its origins. -/
lemma Program.WellFormed.mem_origins {p : Program} {n : Node} {valid : String → Prop}
    {data : Value → Prop} (h : p.WellFormed valid data) (hn : p.toNode.Below n)
    (hk : n.Defines) : .declaration n.mark ∈ p.origins := by
  rw [origins, List.mem_append]
  rcases hn.eq_or_child with rfl | ⟨c, hc, hbelow⟩
  · simp [Node.Defines, Program.toNode, Node.kind?] at hk
  rcases List.mem_append.1 hc with hc | hc
  · obtain ⟨f, hf, rfl⟩ := List.mem_map.1 hc
    rcases hbelow.eq_or_child with rfl | ⟨c, hc, hbelow⟩
    · exact .inl (List.mem_map_of_mem hf)
    · obtain ⟨hc, hpresent⟩ := Node.mem_of_mem_filter_isPresent hc
      rw [List.mem_singleton.1 hc] at hbelow hpresent
      exact absurd hk ((h.fields f hf).value.not_defines hpresent hbelow)
  · obtain ⟨m, hm, rfl⟩ := List.mem_map.1 hc
    rcases hbelow.eq_or_child with rfl | ⟨c, hc, hbelow⟩
    · simp [Node.Defines, Method.toNode, Node.kind?] at hk
    · have hmem := Node.mem_origins_all hc (((h.methods m hm).body c hc).mem_origins hbelow hk)
      exact .inr (List.mem_flatMap.2 ⟨m, hm, List.mem_append_right _ hmem⟩)

/-! ### Making variables -/

namespace Accepted

open Analysis

variable {A : Accepted} {st st₁ st₂ : State} {os os' : List Origin} {o : Origin}
  {ref : VariableRef}

/-- The variables of the entries are made between two states of analysis, each for its origin. -/
structure Made (A : Accepted) (entries : List (Origin × VariableRef)) (st st₁ : State) : Prop where
  denotes : ∀ e ∈ entries, A.Denotes e.1 e.2
  fresh : ∀ e ∈ entries, st.store.getVariable? e.2 = none
  known : ∀ e ∈ entries, st₁.store.getVariable? e.2 ≠ none
  distinct : (entries.map Prod.snd).Nodup

/-- A variable is made for each of the origins between two states of analysis. -/
def Makes (A : Accepted) (os : List Origin) (st st₁ : State) : Prop :=
  ∃ entries, entries.map Prod.fst = os ∧ A.Made entries st st₁

lemma makes_nil : A.Makes [] st st₁ :=
  ⟨[], rfl, by simp, by simp, by simp, by simp⟩

lemma makes_one (hd : A.Denotes o ref) (hfresh : st.store.getVariable? ref = none)
    (hknown : st₁.store.getVariable? ref ≠ none) : A.Makes [o] st st₁ :=
  ⟨[(o, ref)], rfl, by simpa using hd, by simpa using hfresh, by simpa using hknown, by simp⟩

/-- A variable that was there is there later. -/
lemma known_of_le (h : st.Le st₁) (hknown : st.store.getVariable? ref ≠ none) :
    st₁.store.getVariable? ref ≠ none := by
  obtain ⟨v, hv⟩ := Option.ne_none_iff_exists'.1 hknown
  obtain ⟨w, hw, _⟩ := h.getVariable? hv
  simp [hw]

/-- What is made on one part of the way differs from what is made on the next. -/
lemma Makes.append (h : A.Makes os st st₁) (h' : A.Makes os' st₁ st₂) (hle : st.Le st₁)
    (hle' : st₁.Le st₂) : A.Makes (os ++ os') st st₂ := by
  obtain ⟨es, rfl, hes⟩ := h
  obtain ⟨es', rfl, hes'⟩ := h'
  refine ⟨es ++ es', List.map_append, ?_, ?_, ?_, ?_⟩
  · exact List.forall_mem_append.2 ⟨hes.denotes, hes'.denotes⟩
  · refine List.forall_mem_append.2 ⟨hes.fresh, fun e he => ?_⟩
    by_contra hknown
    exact known_of_le hle hknown (hes'.fresh e he)
  · refine List.forall_mem_append.2 ⟨fun e he => ?_, hes'.known⟩
    exact known_of_le hle' (hes.known e he)
  · rw [List.map_append]
    refine hes.distinct.append hes'.distinct ?_
    intro ref hmem hmem'
    obtain ⟨e, he, rfl⟩ := List.mem_map.1 hmem
    obtain ⟨e', he', heq⟩ := List.mem_map.1 hmem'
    exact hes.known e he (heq ▸ hes'.fresh e' he')

lemma Makes.after (h : A.Makes os st₁ st₂) (hle : st.Le st₁) (hle' : st₁.Le st₂) :
    A.Makes os st st₂ :=
  makes_nil.append h hle hle'

end Accepted

end LetDef
