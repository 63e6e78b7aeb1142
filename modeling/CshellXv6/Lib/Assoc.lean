import Mathlib.Tactic
import Mathlib.Data.List.Perm.Subperm
import Mathlib.Algebra.Order.BigOperators.Group.List

/-! # Lists of keys and values

A list of pairs in which no key stands twice, read with `List.lookup`.
-/

namespace CshellXv6.Lib

open List

variable {κ ν : Type*} [BEq κ] [LawfulBEq κ] {l : List (κ × ν)} {k : κ} {v : ν}

lemma mem_of_lookup (h : l.lookup k = some v) : (k, v) ∈ l := by
  obtain ⟨l1, l2, rfl, -⟩ := lookup_eq_some_iff.mp h
  exact mem_append_right l1 mem_cons_self

lemma lookup_of_mem (hnodup : (l.map Prod.fst).Nodup) (h : (k, v) ∈ l) : l.lookup k = some v := by
  obtain ⟨l1, l2, rfl⟩ := append_of_mem h
  refine lookup_eq_some_iff.mpr ⟨l1, l2, rfl, ?_⟩
  intro e he
  rw [map_append, map_cons] at hnodup
  have hne : e.1 ≠ k :=
    (nodup_append.mp hnodup).2.2 e.1 (mem_map_of_mem he) k mem_cons_self
  simpa using hne.symm

lemma exists_lookup_of_mem (hnodup : (l.map Prod.fst).Nodup) (h : k ∈ l.map Prod.fst) :
    ∃ v, l.lookup k = some v := by
  obtain ⟨⟨k', v⟩, he, rfl⟩ := mem_map.mp h
  exact ⟨v, lookup_of_mem hnodup he⟩

section Sums

variable {f : κ → Nat} {g : ν → Nat}

/-- What the value of a key gives; nothing, for a key that is not in the list. -/
def weight (g : ν → Nat) (l : List (κ × ν)) (k : κ) : Nat := ((l.lookup k).map g).getD 0

omit [LawfulBEq κ] in
lemma weight_of_lookup (h : l.lookup k = some v) : weight g l k = g v := by
  rw [weight, h, Option.map_some, Option.getD_some]

lemma sum_map_weight (hnodup : (l.map Prod.fst).Nodup) :
    ((l.map Prod.fst).map (weight g l)).sum = (l.map fun e => g e.2).sum := by
  rw [map_map]
  refine congrArg List.sum (map_congr_left fun e he => ?_)
  exact weight_of_lookup (lookup_of_mem hnodup he)

/-- A sum over some keys, each below what its value gives. -/
lemma sum_map_le_of_lookup {ks : List κ} (hnodup : (l.map Prod.fst).Nodup) (hks : ks.Nodup)
    (hmem : ∀ k ∈ ks, k ∈ l.map Prod.fst) (h : ∀ k ∈ ks, ∀ v, l.lookup k = some v → f k ≤ g v) :
    (ks.map f).sum ≤ (l.map fun e => g e.2).sum := by
  have hle : (ks.map f).sum ≤ (ks.map (weight g l)).sum := by
    refine sum_le_sum fun k hk => ?_
    obtain ⟨v, hv⟩ := exists_lookup_of_mem hnodup (hmem k hk)
    rw [weight_of_lookup hv]
    exact h k hk v hv
  obtain ⟨ks', hperm, hsub⟩ := hks.subperm hmem
  calc (ks.map f).sum ≤ (ks.map (weight g l)).sum := hle
    _ = (ks'.map (weight g l)).sum := (hperm.map (weight g l)).sum_eq.symm
    _ ≤ ((l.map Prod.fst).map (weight g l)).sum :=
        (hsub.map (weight g l)).sum_le_sum fun _ _ => Nat.zero_le _
    _ = (l.map fun e => g e.2).sum := sum_map_weight hnodup

/-- A sum over all keys, each above what its value gives. -/
lemma le_sum_map_of_lookup (hnodup : (l.map Prod.fst).Nodup)
    (h : ∀ k v, l.lookup k = some v → g v ≤ f k) :
    (l.map fun e => g e.2).sum ≤ ((l.map Prod.fst).map f).sum := by
  rw [map_map]
  exact sum_le_sum fun e he => h e.1 e.2 (lookup_of_mem hnodup he)

end Sums

end CshellXv6.Lib
