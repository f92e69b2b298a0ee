import LetDef.Store.Basic
import Mathlib.Data.List.Nodup

/-!
# Similar names

Which names are suggested for one that is not defined depends on what candidates there are, and not
on their order or on how often they come.
-/

namespace LetDef.Store

variable {limit : Int} {name a b c : String} {candidates : List String}

/-! ### The order of candidates -/

lemma comesFirst_iff : comesFirst name a b = true ↔
    nameDistance name a < nameDistance name b ∨
      nameDistance name a = nameDistance name b ∧ a ≤ b := by
  simp [comesFirst]

lemma comesFirst_trans (hab : comesFirst name a b = true) (hbc : comesFirst name b c = true) :
    comesFirst name a c = true := by
  rw [comesFirst_iff] at *
  rcases hab with hab | ⟨hab, hle⟩ <;> rcases hbc with hbc | ⟨hbc, hle'⟩
  · exact .inl (Nat.lt_trans hab hbc)
  · exact .inl (hbc ▸ hab)
  · exact .inl (hab ▸ hbc)
  · exact .inr ⟨hab.trans hbc, String.le_trans hle hle'⟩

lemma comesFirst_total (name a b : String) :
    (comesFirst name a b || comesFirst name b a) = true := by
  rw [Bool.or_eq_true, comesFirst_iff, comesFirst_iff]
  rcases Nat.lt_trichotomy (nameDistance name a) (nameDistance name b) with h | h | h
  · exact .inl (.inl h)
  · rcases String.le_total a b with hle | hle
    · exact .inl (.inr ⟨h, hle⟩)
    · exact .inr (.inr ⟨h.symm, hle⟩)
  · exact .inr (.inl h)

lemma comesFirst_antisymm (hab : comesFirst name a b = true) (hba : comesFirst name b a = true) :
    a = b := by
  rw [comesFirst_iff] at *
  rcases hab with hab | ⟨hab, hle⟩ <;> rcases hba with hba | ⟨hba, hle'⟩
  · omega
  · omega
  · omega
  · exact String.le_antisymm hle hle'

lemma mergeSort_comesFirst_sorted (name : String) (l : List String) :
    (l.mergeSort (comesFirst name)).Pairwise fun a b => comesFirst name a b = true := by
  apply List.pairwise_mergeSort
  · intro a b c
    exact comesFirst_trans
  · exact comesFirst_total name

/-- There is only one order that is sorted. -/
lemma mergeSort_comesFirst_eq {l l' : List String} (hperm : l.Perm l')
    (hsorted : l'.Pairwise fun a b => comesFirst name a b = true) :
    l.mergeSort (comesFirst name) = l' :=
  ((l.mergeSort_perm _).trans hperm).eq_of_pairwise (fun _ _ _ _ => comesFirst_antisymm)
    (mergeSort_comesFirst_sorted name l) hsorted

/-! ### The candidates that are near -/

lemma nodup_eraseDups (l : List String) : l.eraseDups.Nodup := by
  induction hn : l.length using Nat.strongRecOn generalizing l with
  | ind n ih =>
    cases l with
    | nil => exact List.nodup_nil
    | cons a l =>
      rw [List.eraseDups_cons, List.nodup_cons]
      have hlength : (l.filter fun b => !b == a).length < n := by
        have := List.length_filter_le (fun b => !b == a) l
        rw [← hn, List.length_cons]
        omega
      exact ⟨by simp [List.mem_eraseDups], ih _ hlength _ rfl⟩

/-- The suggestions are the first three of a list that holds, in order and each once, all candidates
that are near. -/
lemma exists_ranked (limit : Int) (name : String) (candidates : List String) :
    ∃ ranked : List String, similar limit name candidates = ranked.take 3 ∧ ranked.Nodup ∧
      (ranked.Pairwise fun a b => comesFirst name a b = true) ∧
      ∀ candidate, candidate ∈ ranked ↔
        candidate ∈ candidates ∧ (nameDistance name candidate : Int) ≤ limit := by
  unfold similar
  generalize hnear : candidates.eraseDups.filter
    (fun candidate => decide ((nameDistance name candidate : Int) ≤ limit)) = near
  have hperm := near.mergeSort_perm (comesFirst name)
  refine ⟨near.mergeSort (comesFirst name), rfl, ?_, mergeSort_comesFirst_sorted name near,
    fun candidate => ?_⟩
  · rw [hperm.nodup_iff, ← hnear]
    exact (nodup_eraseDups candidates).filter _
  · rw [hperm.mem_iff, ← hnear, List.mem_filter, List.mem_eraseDups, decide_eq_true_eq]

/-- The same candidates in whatever order and number give the same suggestions. -/
theorem similar_congr {candidates' : List String}
    (h : ∀ candidate, candidate ∈ candidates ↔ candidate ∈ candidates') :
    similar limit name candidates = similar limit name candidates' := by
  obtain ⟨ranked, heq, hnodup, hsorted, hmem⟩ := exists_ranked limit name candidates
  obtain ⟨ranked', heq', hnodup', hsorted', hmem'⟩ := exists_ranked limit name candidates'
  have hperm : ranked.Perm ranked' := by
    rw [List.perm_ext_iff_of_nodup hnodup hnodup']
    exact fun candidate => by rw [hmem, hmem', h]
  rw [heq, heq', hperm.eq_of_pairwise (fun _ _ _ _ => comesFirst_antisymm) hsorted hsorted']

end LetDef.Store
