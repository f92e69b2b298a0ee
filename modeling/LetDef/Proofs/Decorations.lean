import LetDef.Proofs.Analysis.Completeness
import LetDef.Proofs.Phases

/-!
# Decorations are written once

The decorations of a tree outlive the analysis that made them: another analyser, with a global scope
and a store of its own, finds them when it is given the same tree. A tree that was analysed with
success has all its decorations, and so no analyser ever succeeds with it again. One that was given
up may be tried any number of times, and what has been written stays.
-/

namespace LetDef

lemma Program.numbered_ne_nil {p : Program} (h : p.fields ≠ [] ∨ p.methods ≠ []) :
    p.numbered.fields ≠ [] ∨ p.numbered.methods ≠ [] := by
  refine h.imp (fun hf => ?_) fun hm => ?_
  · obtain ⟨f, fields, heq⟩ := List.exists_cons_of_ne_nil hf
    simp [numbered, heq, numberAll]
  · obtain ⟨m, methods, heq⟩ := List.exists_cons_of_ne_nil hm
    simp [numbered, heq, numberAll]

namespace Analysis

variable {p : Program} {d : Decorations} {st : State}

/-- The decorations of a program after several analyses, one after the other. -/
def attempts (p : Program) (analysers : List Analyser) (d : Decorations) : Decorations :=
  analysers.foldl (fun d a => (a.analyse p d).2.decorations) d

lemma get?_attempts {m : Mark} {x : Decoration} (analysers : List Analyser)
    (h : d.get? m = some x) : (attempts p analysers d).get? m = some x := by
  induction analysers generalizing d with
  | nil => exact h
  | cons a analysers ih => exact ih ((a.later_analyse p d).decorations m x h)

/-- A program that has any parts has a node whose decoration can be read. -/
lemma exists_decorated (hparts : p.fields ≠ [] ∨ p.methods ≠ []) (h : st.Complete p.toNode) :
    ∃ m x, m.number ∈ p.slots ∧ st.decorations.get? m = some x := by
  rcases hparts with hf | hm
  · obtain ⟨f, hmem⟩ := List.exists_mem_of_ne_nil _ hf
    have hchild : f.toNode ∈ p.toNode.children :=
      List.mem_append_left _ (List.mem_map_of_mem hmem)
    obtain ⟨ref, v, hd, _⟩ : st.ReadsVariable f.mark := h f.toNode (.child .root hchild)
    refine ⟨f.mark, _, List.mem_append_left _ (List.mem_flatMap.2 ⟨f, hmem, ?_⟩), hd⟩
    exact List.mem_append_right _ (List.mem_singleton_self _)
  · obtain ⟨m, hmem⟩ := List.exists_mem_of_ne_nil _ hm
    have hchild : m.toNode ∈ p.toNode.children :=
      List.mem_append_right _ (List.mem_map_of_mem hmem)
    obtain ⟨ref, g, hd, _⟩ : st.ReadsFunction m.mark := h m.toNode (.child .root hchild)
    refine ⟨m.mark, _, List.mem_append_right _ (List.mem_flatMap.2 ⟨m, hmem, ?_⟩), hd⟩
    exact List.mem_cons_self

/-- Analysis of an undecorated tree ends well or with a fault, and if it ends well then all nodes of
the tree can be read. The type that a rule for expressions passes on is the one that can be read
from then on. A program with any parts that was analysed with success is never analysed with success
again, and no decoration ever changes. -/
theorem decorations_written_once (p : Program) :
    (∀ (a : Analyser) (d : Decorations), (∀ m, d.get? m = none) →
      ((a.analyse p d).1 = .ok () ∨ ∃ f, (a.analyse p d).1 = .error (.fault f)) ∧
      ((a.analyse p d).1 = .ok () →
        ∀ n, p.numbered.toNode.Below n → (a.analyse p d).2.Readable n)) ∧
    (∀ scope n depth st t st₁, Gives (expression scope n depth) st t st₁ →
      st₁.typeOf? n = some t) ∧
    (∀ (a b : Analyser) (between : List Analyser) (d : Decorations),
      p.fields ≠ [] ∨ p.methods ≠ [] → (a.analyse p d).1 = .ok () →
      ∃ halt, (b.analyse p (attempts p between (a.analyse p d).2.decorations)).1
        = .error halt) ∧
    ∀ (analysers : List Analyser) (d : Decorations) m x, d.get? m = some x →
      (attempts p analysers d).get? m = some x := by
  refine ⟨fun a d hd => ⟨analyze_clean hd, Analyser.complete_of_analyse⟩, ?_, ?_, ?_⟩
  · intro scope n depth st t st₁ h
    exact ((expressionsRead depth).expression scope n h st₁ (.refl _)).2
  · intro a b between d hparts hok
    obtain ⟨m, x, hm, hx⟩ := exists_decorated (Program.numbered_ne_nil hparts)
      (Analyser.complete_of_analyse hok)
    have hlater := get?_attempts (p := p) between hx
    cases hagain : (b.analyse p (attempts p between (a.analyse p d).2.decorations)).1 with
    | error halt => exact ⟨halt, rfl⟩
    | ok u =>
      have hfree := Analyser.free_of_analyse hagain _ hm
      rw [Decorations.get?, hfree] at hlater
      cases hlater
  · intro analysers d m x hx
    exact get?_attempts analysers hx

/-- A constant, and `main` that gives it back inside brackets. -/
def bracketed : Program where
  fields :=
    [{ name := "x", typeName := none, constant := true
       value := .literal {} (.value (.integer 1)) "integer" }]
  methods :=
    [{ name := "main", parameters := [], parameterTypes := [], returnType := some "Integer"
       body := [.giveBack {} (.group {} (.access {} .absent "x"))] }]

theorem decorations_written_once_bracketed :
    ((Analyser.fresh none {} 9).analyse bracketed {}).1 = .ok () ∧
    (∀ n, bracketed.numbered.toNode.Below n →
      ((Analyser.fresh none {} 9).analyse bracketed {}).2.Readable n) ∧
    (∃ halt, ((Analyser.fresh none {} 8).analyse bracketed (attempts bracketed
        [.fresh none {} 7] ((Analyser.fresh none {} 9).analyse bracketed {}).2.decorations)).1
      = .error halt) ∧
    (attempts bracketed [.fresh none {} 8]
      ((Analyser.fresh none {} 9).analyse bracketed {}).2.decorations).get? { number := 2 }
        = some (.type .integer) := by
  have hok : ((Analyser.fresh none {} 9).analyse bracketed {}).1 = .ok () ∧
      ((Analyser.fresh none {} 9).analyse bracketed {}).2.decorations.get? { number := 2 }
        = some (.type .integer) := by
    decide +kernel
  obtain ⟨hreadable, _, hfails, hstays⟩ := decorations_written_once bracketed
  exact ⟨hok.1, (hreadable _ {} fun _ => rfl).2 hok.1,
    hfails _ _ _ _ (.inl (by simp [bracketed])) hok.1, hstays _ _ _ _ hok.2⟩

end Analysis

end LetDef
