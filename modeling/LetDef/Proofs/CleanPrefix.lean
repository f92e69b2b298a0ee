import LetDef.Proofs.Analysis.Prefix
import LetDef.Proofs.Phases

/-!
# Analysis leaves a prefix

A program may be analysed with a fault and still be asked for what it defines. What its global scope
then holds is never a mixture: it is what a program would define that ends where the analysis has
stopped. Names of parameters and of other variables inside methods are not among it, and the scopes
of the host are as they were before.
-/

namespace LetDef.Analysis

/-- The analysis of a program by the analyser stops at the place. -/
def Analyser.HaltsAt (a : Analyser) (p : Program) (d : Decorations) (place : StopPoint) : Prop :=
  ∃ halt st₁, Analysis.HaltsAt a.depth a.globals p.numbered ⟨a.store, d⟩ halt st₁ place

namespace Analyser

variable {a : Analyser} {p : Program} {d : Decorations} {host : Store} {place : StopPoint}

lemma haltsAt_of_analyse {e : Halt} (h : (a.analyse p d).1 = .error e) :
    ∃ place, a.HaltsAt p d place := by
  obtain ⟨halt, hhalts, -⟩ := halts_of_analyse h
  obtain ⟨place, hplace⟩ := halts_program_iff.1 hhalts
  exact ⟨place, halt, _, hplace⟩

/-- With an undecorated tree, what the analyser's scope holds in the end is told by the place. -/
lemma holds_of_haltsAt (hstart : Holds host a.globals [] [] ⟨a.store, d⟩)
    (hd : ∀ m, d.get? m = none) (h : a.HaltsAt p d place) :
    Holds host a.globals (p.numbered.fields.take (place.fieldCount p.numbered))
      (p.numbered.methods.take (place.methodCount p.numbered)) (a.analyse p d).2 := by
  obtain ⟨halt, st₁, hplace⟩ := h
  have hhalts : outcome (program a.depth a.globals p.numbered) ⟨a.store, d⟩ = (.error halt, st₁) :=
    halts_program_iff.2 ⟨place, hplace⟩
  have hend : a.analyse p d = (.error (halt.guarded p.site), st₁) := by
    unfold analyse
    rw [outcome_analyze, hhalts]
    rfl
  have hclean : (a.analyse p d).1 = .ok () ∨ ∃ f, (a.analyse p d).1 = .error (.fault f) :=
    analyze_clean hd
  rw [hend] at hclean ⊢
  refine hplace.holds ?_ hstart
  -- an undecorated tree gives no cause to stop because of a decoration
  rintro kind rfl
  rcases hclean with hok | ⟨f, hfault⟩
  · cases hok
  · cases hfault

lemma HaltsAt.bounds (h : a.HaltsAt p d place) :
    place.fieldCount p.numbered ≤ p.numbered.fields.length ∧
      place.methodCount p.numbered ≤ p.numbered.methods.length := by
  obtain ⟨halt, st₁, hplace⟩ := h
  exact hplace.bounds

/-- An analysis that stops at a place does not succeed. -/
lemma not_ok_of_haltsAt (h : a.HaltsAt p d place) : (a.analyse p d).1 ≠ .ok () := by
  obtain ⟨halt, st₁, hplace⟩ := h
  intro hok
  have hgives := gives_of_analyse hok
  unfold Gives at hgives
  rw [show outcome _ _ = _ from halts_program_iff.2 ⟨place, hplace⟩] at hgives
  cases hgives

end Analyser

/-- A fresh analyser that is given an undecorated tree leaves in its global scope the first `k`
fields and, after `print`, the first `m` methods, and nothing else. These are all of them if it
succeeds. Otherwise the analysis has stopped with a fault at some place, and the place tells how
many there are. The scopes of the host are unchanged. -/
theorem analysis_leaves_prefix (parent : Option Scope) (host : Store) (depth : Nat) (p : Program)
    (d : Decorations) (hd : ∀ m, d.get? m = none) :
    let a := Analyser.fresh parent host depth
    let fields := p.numbered.fields
    let methods := p.numbered.methods
    ∃ k m, k ≤ fields.length ∧ m ≤ methods.length ∧
      Holds host a.globals (fields.take k) (methods.take m) (a.analyse p d).2 ∧
      (0 < m → k = fields.length) ∧
      ((a.analyse p d).1 = .ok () ∧ k = fields.length ∧ m = methods.length ∨
        ∃ f place, (a.analyse p d).1 = .error (.fault f) ∧ a.HaltsAt p d place) ∧
      (∀ place, a.HaltsAt p d place →
        k = place.fieldCount p.numbered ∧ m = place.methodCount p.numbered) ∧
      ∀ i < host.frames.size, (a.analyse p d).2.store.frame i = host.frame i := by
  intro a fields methods
  have hstart := holds_fresh parent host depth d
  have hclean : (a.analyse p d).1 = .ok () ∨ ∃ f, (a.analyse p d).1 = .error (.fault f) :=
    analyze_clean hd
  -- All fields and methods are there if analysis succeeds; if it stops, the place where it does
  -- counts them.
  rcases hclean with hok | ⟨f, hfault⟩
  · have hholds := hstart.program (Analyser.gives_of_analyse hok)
    refine ⟨fields.length, methods.length, Nat.le_refl _, Nat.le_refl _, ?_, fun _ => rfl,
      .inl ⟨hok, rfl, rfl⟩, ?_, hholds.outer⟩
    · rwa [List.take_length, List.take_length]
    · exact fun place hplace => absurd hok (Analyser.not_ok_of_haltsAt hplace)
  · obtain ⟨place, hplace⟩ := Analyser.haltsAt_of_analyse hfault
    have hholds := Analyser.holds_of_haltsAt hstart hd hplace
    have hbounds := hplace.bounds
    refine ⟨place.fieldCount p.numbered, place.methodCount p.numbered, hbounds.1, hbounds.2,
      hholds, ?_, .inr ⟨f, place, hfault, hplace⟩, fun place' hplace' => ?_, hholds.outer⟩
    · cases place with
      | field i => exact fun hm => absurd hm (Nat.lt_irrefl 0)
      | signature _ | inside _ | main => exact fun _ => rfl
    · -- both places tell what the same scope holds
      have hbounds' := hplace'.bounds
      have hlength := hholds.length_eq (Analyser.holds_of_haltsAt hstart hd hplace')
      rwa [List.length_take_of_le hbounds.1, List.length_take_of_le hbounds'.1,
        List.length_take_of_le hbounds.2, List.length_take_of_le hbounds'.2] at hlength

/-- A field, a method, and a method that has the same parameter twice. -/
def twofold : Program where
  fields :=
    [{ name := "x", typeName := none, constant := true
       value := .literal {} (.value (.integer 1)) "integer" }]
  methods :=
    [{ name := "main", parameters := [], parameterTypes := [], returnType := some "Integer"
       body := [.giveBack {} (.access {} .absent "x")] },
     { name := "f", parameters := ["a", "a"], parameterTypes := ["Integer", "Integer"]
       returnType := none, body := [] },
     { name := "g", parameters := [], parameterTypes := [], returnType := none, body := [] }]

/-- Of the three methods two are left, and the field is there. -/
theorem analysis_leaves_prefix_twofold :
    ((Analyser.fresh none {} 9).analyse twofold {}).1.toOption = none ∧
    Holds {} (Analyser.fresh none {} 9).globals (twofold.numbered.fields.take 1)
      (twofold.numbered.methods.take 2) ((Analyser.fresh none {} 9).analyse twofold {}).2 := by
  have hrun : ((Analyser.fresh none {} 9).analyse twofold {}).1.toOption = none ∧
      (((Analyser.fresh none {} 9).analyse twofold {}).2.store.frame 0).functions.length = 3 := by
    decide +kernel
  obtain ⟨k, m, hk, hm, hholds, hpos, -⟩ :=
    analysis_leaves_prefix none {} 9 twofold {} fun _ => rfl
  obtain ⟨defined, hfunctions, hdefined⟩ := hholds.functions
  have hlength := hdefined.length_eq
  rw [List.length_take_of_le hm] at hlength
  have htwo : m = 2 := by
    have hthree := (congrArg List.length hfunctions).symm.trans hrun.2
    rw [List.length_cons] at hthree
    omega
  subst htwo
  rw [hpos (by decide)] at hholds
  exact ⟨hrun.1, hholds⟩

end LetDef.Analysis
