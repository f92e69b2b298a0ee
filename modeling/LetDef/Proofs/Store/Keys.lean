import LetDef.Store.Basic
import Mathlib.Data.List.Nodup

/-!
# Keys of functions

Within a frame a function is known by its name and arity. Where no two functions of a frame share
their key, it does not matter in which order they were defined.
-/

namespace LetDef

/-- What a function is known by within a frame. -/
def Function.key (g : Function) : String × Nat :=
  (g.name, g.arity)

/-- What a method is known by once it is defined. -/
def Method.key (m : Method) : String × Nat :=
  (m.name, m.parameters.length)

namespace Frame

variable {f g : Frame} {h : Function} {name : String} {arity : Nat}

lemma getFunction?_eq_none_iff :
    f.getFunction? name arity = none ↔ (name, arity) ∉ f.functions.map Function.key := by
  simp [Frame.getFunction?, Function.key]

/-- A function is found by its key if no other has it. -/
lemma getFunction?_of_mem (hkeys : (f.functions.map Function.key).Nodup) (hmem : h ∈ f.functions) :
    f.getFunction? h.name h.arity = some h := by
  cases hfind : f.getFunction? h.name h.arity with
  | none => exact absurd (List.mem_map_of_mem hmem) (getFunction?_eq_none_iff.1 hfind)
  | some h' =>
    have hkey := List.find?_some hfind
    rw [Bool.and_eq_true, beq_iff_eq, beq_iff_eq] at hkey
    rw [List.inj_on_of_nodup_map hkeys (List.mem_of_find?_eq_some hfind) hmem
      (Prod.ext hkey.1 hkey.2)]

/-- Among functions with different keys the order does not count. -/
lemma getFunction?_of_perm (hkeys : (f.functions.map Function.key).Nodup)
    (hperm : f.functions.Perm g.functions) (name : String) (arity : Nat) :
    f.getFunction? name arity = g.getFunction? name arity := by
  have hkeys' : (g.functions.map Function.key).Nodup := (hperm.map _).nodup_iff.1 hkeys
  cases hfind : f.getFunction? name arity with
  | none =>
    rw [getFunction?_eq_none_iff, (hperm.map Function.key).mem_iff] at hfind
    exact (getFunction?_eq_none_iff.2 hfind).symm
  | some h =>
    have hmem := hperm.mem_iff.1 (List.mem_of_find?_eq_some hfind)
    have hkey := List.find?_some hfind
    rw [Bool.and_eq_true, beq_iff_eq, beq_iff_eq] at hkey
    have hget := getFunction?_of_mem hkeys' hmem
    rw [hkey.1, hkey.2] at hget
    exact hget.symm

end Frame

end LetDef
