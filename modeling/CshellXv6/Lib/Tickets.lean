import Mathlib.Tactic

/-! # Tickets

Parties that draw tickets from one counter. A party may keep its ticket for as
long as it likes, give it up, or draw a new one; a ticket that somebody holds
is then below the counter and nobody else's.
-/

namespace CshellXv6.Lib

universe u

variable {ι : Type u}

/-- Who holds a ticket, which one, and the next ticket to be drawn. -/
structure Tickets (ι : Type u) where
  holds : ι → Prop
  ticket : ι → ℕ
  next : ℕ

namespace Tickets

/-- The parties in `s` hold in `t'` the tickets they held in `t`. -/
def Keeps (t t' : Tickets ι) (s : Set ι) : Prop :=
  ∀ i ∈ s, t'.holds i → t.holds i ∧ t'.ticket i = t.ticket i

/-- Nobody draws a ticket, or one party does. -/
inductive Step (t t' : Tickets ι) : Prop where
  | keep (same : t'.next = t.next) (all : Keeps t t' Set.univ)
  | draw (i : ι) (more : t'.next = t.next + 1) (own : t'.ticket i = t.next)
      (others : Keeps t t' {j | j ≠ i})

/-- Tickets are unique, and the counter is ahead of them. -/
structure Valid (t : Tickets ι) : Prop where
  below : ∀ i, t.holds i → t.ticket i < t.next
  distinct : ∀ i j, t.holds i → t.holds j → t.ticket i = t.ticket j → i = j

variable {t t' : Tickets ι}

/-- A ticket just drawn is the largest. -/
lemma Valid.lt_drawn (h : Valid t) {i j : ι} (own : t'.ticket i = t.next)
    (others : Keeps t t' {j | j ≠ i}) (hj : j ≠ i) (hold : t'.holds j) :
    t'.ticket j < t'.ticket i := by
  obtain ⟨hold', hsame⟩ := others j hj hold
  rw [own, hsame]
  exact h.below j hold'

lemma Valid.step (h : Valid t) (hs : Step t t') : Valid t' := by
  cases hs with
  | keep same all =>
    constructor
    · intro i hi
      obtain ⟨hi', hsame⟩ := all i trivial hi
      rw [hsame, same]
      exact h.below i hi'
    intro i j hi hj heq
    obtain ⟨hi', hsi⟩ := all i trivial hi
    obtain ⟨hj', hsj⟩ := all j trivial hj
    rw [hsi, hsj] at heq
    exact h.distinct i j hi' hj' heq
  | draw i more own others =>
    have hlt : ∀ j, j ≠ i → t'.holds j → t'.ticket j < t'.ticket i :=
      fun j hj hold => h.lt_drawn own others hj hold
    constructor
    · intro j hj
      by_cases hji : j = i
      · subst hji
        omega
      · have := hlt j hji hj
        omega
    intro a b ha hb heq
    by_cases hai : a = i
    · by_cases hbi : b = i
      · rw [hai, hbi]
      subst hai
      have := hlt b hbi hb
      omega
    by_cases hbi : b = i
    · subst hbi
      have := hlt a hai ha
      omega
    obtain ⟨ha', hsa⟩ := others a hai ha
    obtain ⟨hb', hsb⟩ := others b hbi hb
    rw [hsa, hsb] at heq
    exact h.distinct a b ha' hb' heq

end Tickets

end CshellXv6.Lib
