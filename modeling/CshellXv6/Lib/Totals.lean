import Mathlib.Algebra.BigOperators.Group.Finset.Piecewise
import Mathlib.Algebra.Order.BigOperators.Group.Finset
import Mathlib.Tactic

/-! # Totals over agents

A quantity that every agent has in its local state, added up over all agents,
and how the total changes when one agent moves.
-/

namespace CshellXv6.Lib

open Function

universe u v

variable {P : Type u} {α : Type v}

/-- The sum of `g` over the local states of the agents in `A`. -/
def totalOn (A : Finset P) (g : α → Nat) (f : P → α) : Nat := ∑ p ∈ A, g (f p)

section

variable {A : Finset P} {g : α → Nat} {f : P → α} {p : P}

lemma totalOn_update [DecidableEq P] (hp : p ∈ A) (a : α) :
    totalOn A g (update f p a) + g (f p) = totalOn A g f + g a := by
  have hnew : totalOn A g (update f p a) = g a + ∑ q ∈ A.erase p, g (f q) := by
    rw [totalOn, ← Finset.add_sum_erase _ _ hp, update_self]
    congr 1
    refine Finset.sum_congr rfl ?_
    intro q hq
    rw [update_of_ne (Finset.ne_of_mem_erase hq)]
  have hold : totalOn A g f = g (f p) + ∑ q ∈ A.erase p, g (f q) :=
    (Finset.add_sum_erase _ _ hp).symm
  omega

lemma totalOn_congr {β : Type*} {g' : β → Nat} {f' : P → β}
    (h : ∀ p ∈ A, g (f p) = g' (f' p)) : totalOn A g f = totalOn A g' f' :=
  Finset.sum_congr rfl h

lemma le_totalOn (hp : p ∈ A) : g (f p) ≤ totalOn A g f :=
  Finset.single_le_sum (f := fun p => g (f p)) (fun _ _ => Nat.zero_le _) hp

lemma totalOn_eq_zero : totalOn A g f = 0 ↔ ∀ p ∈ A, g (f p) = 0 := by
  simp [totalOn]

end

variable [Fintype P]

/-- The sum of `g` over the local states of all agents. -/
def total (g : α → Nat) (f : P → α) : Nat := ∑ p, g (f p)

variable {g : α → Nat} {f : P → α}

lemma total_update [DecidableEq P] (g : α → Nat) (f : P → α) (p : P) (a : α) :
    total g (update f p a) + g (f p) = total g f + g a :=
  totalOn_update (Finset.mem_univ p) a

lemma le_total (p : P) : g (f p) ≤ total g f := le_totalOn (Finset.mem_univ p)

lemma total_eq_zero : total g f = 0 ↔ ∀ p, g (f p) = 0 := by
  simp [total]

/-- Two agents that count are at least what they count together. -/
lemma add_le_total [DecidableEq P] {p q : P} (hpq : p ≠ q) : g (f p) + g (f q) ≤ total g f := by
  rw [← Finset.sum_pair hpq (f := fun p => g (f p))]
  exact Finset.sum_le_univ_sum_of_nonneg (fun _ => Nat.zero_le _)

end CshellXv6.Lib
