import Mathlib.Logic.Function.Basic
import Mathlib.Tactic

/-! # Exclusive ownership

Places hold addresses, and zero where they hold none. Ownership is exclusive if
no address is held in two places. A place may take an address that nobody
holds, and any place may let go of its address.
-/

namespace CshellXv6.Lib

universe u

variable {P : Type u}

/-- No address is held twice. -/
def Exclusive (refs : P → Nat) : Prop := ∀ p q, refs p ≠ 0 → refs p = refs q → p = q

variable {refs refs' : P → Nat}

/-- A place takes an address that is not held. -/
lemma Exclusive.update [DecidableEq P] (h : Exclusive refs) {p : P} {a : Nat}
    (hfresh : ∀ q, refs q ≠ a) : Exclusive (Function.update refs p a) := by
  intro q r hq hqr
  by_cases hqp : q = p
  · by_cases hrp : r = p
    · rw [hqp, hrp]
    · rw [hqp, Function.update_self, Function.update_of_ne hrp] at hqr
      exact absurd hqr.symm (hfresh r)
  rw [Function.update_of_ne hqp] at hq hqr
  by_cases hrp : r = p
  · rw [hrp, Function.update_self] at hqr
    exact absurd hqr (hfresh q)
  · rw [Function.update_of_ne hrp] at hqr
    exact h q r hq hqr

/-- Some places let go. -/
lemma Exclusive.release (h : Exclusive refs) (hsub : ∀ p, refs' p = refs p ∨ refs' p = 0) :
    Exclusive refs' := by
  intro p q hp hpq
  have hp' : refs' p = refs p := (hsub p).resolve_right hp
  have hq' : refs' q = refs q := (hsub q).resolve_right (hpq ▸ hp)
  rw [hp'] at hp hpq
  exact h p q hp (hpq.trans hq')

end CshellXv6.Lib
