import LetDef.Proofs.Syntax.WellFormed

/-!
# Numbered programs are well formed

Numbering changes only the marks of a tree.
-/

namespace LetDef

namespace Node

variable {valid : String → Prop} {data : Value → Prop} {n : Node} {ns : List Node}

lemma rank_numberFrom (k : Nat) (n : Node) : (n.numberFrom k).1.rank = n.rank := by
  cases n <;> rfl

lemma isPresent_numberFrom (k : Nat) (n : Node) : (n.numberFrom k).1.isPresent = n.isPresent := by
  cases n <;> rfl

lemma mem_numberFrom_all {m : Node} {k : Nat} (h : m ∈ (numberFrom.all k ns).1) :
    ∃ n ∈ ns, ∃ k', m = (n.numberFrom k').1 := by
  induction ns generalizing k with
  | nil => cases h
  | cons n ns ih =>
    rcases List.mem_cons.1 h with rfl | h
    · exact ⟨n, List.mem_cons_self .., k, rfl⟩
    · obtain ⟨n', hn', k', rfl⟩ := ih h
      exact ⟨n', List.mem_cons_of_mem _ hn', k', rfl⟩

lemma IsExpression.numberFrom (h : n.IsExpression valid data) (k : Nat) :
    (n.numberFrom k).1.IsExpression valid data := by
  induction h generalizing k with
  | literal h hv => exact .literal h hv
  | group _ ih => exact .group (ih (k + 1))
  | binary ho _ _ hleft hright ihl ihr =>
    refine .binary ho (ihl _) (ihr _) ?_ ?_
    · rwa [rank_numberFrom]
    · rwa [rank_numberFrom]
  | name hs => exact .name hs
  | access _ he hs ih =>
    refine .access (ih _) ?_ hs
    rwa [rank_numberFrom]
  | call hs _ ih =>
    refine .call hs fun e he => ?_
    obtain ⟨e', he', k', rfl⟩ := mem_numberFrom_all he
    exact ih e' he' k'
  | invoke _ he hs _ ih ihes =>
    refine .invoke (ih _) ?_ hs fun e he => ?_
    · rwa [rank_numberFrom]
    · obtain ⟨e', he', k', rfl⟩ := mem_numberFrom_all he
      exact ihes e' he' k'

lemma IsOptional.numberFrom (h : n.IsOptional valid data) (k : Nat) :
    (n.numberFrom k).1.IsOptional valid data := by
  rcases h with rfl | h
  · exact .inl rfl
  · exact .inr (h.numberFrom k)

lemma IsDeclaration.numberFrom (h : n.IsDeclaration valid data) (k : Nat) :
    (n.numberFrom k).1.IsDeclaration valid data := by
  cases h with
  | mk hs ht hv => exact .mk hs ht (hv.numberFrom _)

lemma IsAssignment.numberFrom (h : n.IsAssignment valid data) (k : Nat) :
    (n.numberFrom k).1.IsAssignment valid data := by
  cases h with
  | mk hr hv => exact .mk (hr.numberFrom _) (hv.numberFrom _)

lemma isIncrementTarget_numberFrom (k : Nat) (n : Node) :
    Parser.isIncrementTarget (n.numberFrom k).1 = Parser.isIncrementTarget n := by
  cases n <;> rfl

lemma IsIncrement.numberFrom (h : n.IsIncrement valid data) (k : Nat) :
    (n.numberFrom k).1.IsIncrement valid data := by
  cases h with
  | none => exact .none
  | some hr ht hv =>
    refine .some (hr.numberFrom _) ?_ (hv.numberFrom _)
    rwa [isIncrementTarget_numberFrom]

lemma IsStatement.numberFrom (h : n.IsStatement valid data) (k : Nat) :
    (n.numberFrom k).1.IsStatement valid data := by
  induction h generalizing k with
  | declaration h => exact .declaration (h.numberFrom k)
  | assignment h => exact .assignment (h.numberFrom k)
  | perform h => exact .perform (h.numberFrom _)
  | branch hc _ _ ihb iho =>
    refine .branch (hc.numberFrom _) (fun n hn => ?_) fun n hn => ?_
    · obtain ⟨n', hn', k', rfl⟩ := mem_numberFrom_all hn
      exact ihb n' hn' k'
    · obtain ⟨n', hn', k', rfl⟩ := mem_numberFrom_all hn
      exact iho n' hn' k'
  | forLoop hi hc hn _ ihb =>
    refine .forLoop ?_ (hc.numberFrom _) (hn.numberFrom _) fun n hn => ?_
    · rcases hi with rfl | hd | ha
      · exact .inl rfl
      · exact .inr (.inl (hd.numberFrom _))
      · exact .inr (.inr (ha.numberFrom _))
    · obtain ⟨n', hn', k', rfl⟩ := mem_numberFrom_all hn
      exact ihb n' hn' k'
  | whileLoop hc _ ihb =>
    refine .whileLoop (hc.numberFrom _) fun n hn => ?_
    obtain ⟨n', hn', k', rfl⟩ := mem_numberFrom_all hn
    exact ihb n' hn' k'
  | giveBack h => exact .giveBack (h.numberFrom _)

end Node

/-! ### Programs -/

variable {valid : String → Prop} {data : Value → Prop}

lemma Field.WellFormed.numberFrom {f : Field} (h : f.WellFormed valid data) (k : Nat) :
    (f.numberFrom k).1.WellFormed valid data :=
  ⟨h.name, h.typeName, h.value.numberFrom _⟩

lemma Method.WellFormed.numberFrom {m : Method} (h : m.WellFormed valid data) (k : Nat) :
    (m.numberFrom k).1.WellFormed valid data := by
  refine ⟨h.name, h.parameters, h.parameterTypes, h.types_length, h.returnType, fun n hn => ?_⟩
  obtain ⟨n', hn', k', rfl⟩ := Node.mem_numberFrom_all hn
  exact (h.body n' hn').numberFrom k'

lemma mem_numberAll {α : Type} {number : Nat → α → α × Nat} {k : Nat} {a : α} {as : List α}
    (h : a ∈ (numberAll number k as).1) : ∃ b ∈ as, ∃ k', a = (number k' b).1 := by
  induction as generalizing k with
  | nil => cases h
  | cons b as ih =>
    rcases List.mem_cons.1 h with rfl | h
    · exact ⟨b, List.mem_cons_self .., k, rfl⟩
    · obtain ⟨b', hb', k', rfl⟩ := ih h
      exact ⟨b', List.mem_cons_of_mem _ hb', k', rfl⟩

/-- A numbered program is as well formed as it was. -/
theorem Program.WellFormed.numbered {p : Program} (h : p.WellFormed valid data) :
    p.numbered.WellFormed valid data := by
  constructor
  · intro f hf
    obtain ⟨f', hf', k, rfl⟩ := mem_numberAll hf
    exact (h.fields f' hf').numberFrom k
  · intro m hm
    obtain ⟨m', hm', k, rfl⟩ := mem_numberAll hm
    exact (h.methods m' hm').numberFrom k

end LetDef
