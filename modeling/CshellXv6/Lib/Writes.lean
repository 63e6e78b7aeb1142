import Mathlib.Tactic

/-! # Lists of writes

A store is a function from addresses to values; a list of writes is carried out
from left to right. What matters for recovery is that a list of writes may be
interrupted anywhere and carried out again from its beginning.
-/

namespace CshellXv6.Lib

open Function List

universe u v

variable {A : Type u} {V : Type v} [DecidableEq A]

/-- Carry out the writes, in order. -/
def applyWrites (ws : List (A × V)) (d : A → V) : A → V :=
  ws.foldl (fun d w => update d w.1 w.2) d

variable {ws : List (A × V)} {d d' : A → V} {a : A}

@[simp] lemma applyWrites_nil : applyWrites ([] : List (A × V)) d = d := rfl

@[simp] lemma applyWrites_cons (w : A × V) :
    applyWrites (w :: ws) d = applyWrites ws (update d w.1 w.2) := rfl

lemma applyWrites_append (ws ws' : List (A × V)) (d : A → V) :
    applyWrites (ws ++ ws') d = applyWrites ws' (applyWrites ws d) := foldl_append ..

lemma applyWrites_of_notMem (h : ∀ w ∈ ws, w.1 ≠ a) : applyWrites ws d a = d a := by
  induction ws generalizing d with
  | nil => rfl
  | cons w ws ih =>
    rw [applyWrites_cons, ih (fun w' hw' => h w' (mem_cons_of_mem w hw'))]
    exact update_of_ne (Ne.symm (h w mem_cons_self)) _ _

/-- An address that is written holds what was written last, whatever it held
before. -/
lemma applyWrites_congr (h : (∃ w ∈ ws, w.1 = a) ∨ d a = d' a) :
    applyWrites ws d a = applyWrites ws d' a := by
  induction ws generalizing d d' with
  | nil =>
    rcases h with ⟨w, hw, -⟩ | h
    · cases hw
    · exact h
  | cons w ws ih =>
    rw [applyWrites_cons, applyWrites_cons]
    apply ih
    by_cases hwa : w.1 = a
    · right
      subst hwa
      rw [update_self, update_self]
    rcases h with ⟨w', hw', ha⟩ | h
    · rcases mem_cons.mp hw' with rfl | hw'
      · exact absurd ha hwa
      · exact .inl ⟨w', hw', ha⟩
    right
    rw [update_of_ne (Ne.symm hwa), update_of_ne (Ne.symm hwa)]
    exact h

/-- Writes that were interrupted after `k` of them and are carried out again. -/
lemma applyWrites_take_again (ws : List (A × V)) (k : Nat) (d : A → V) :
    applyWrites ws (applyWrites (ws.take k) d) = applyWrites ws d := by
  funext a
  apply applyWrites_congr
  by_cases h : ∃ w ∈ ws, w.1 = a
  · exact .inl h
  right
  apply applyWrites_of_notMem
  intro w hw ha
  exact h ⟨w, mem_of_mem_take hw, ha⟩

/-- Of writes to different addresses, each one is found. -/
lemma applyWrites_of_mem {w : A × V} (hnodup : (ws.map Prod.fst).Nodup) (hw : w ∈ ws) :
    applyWrites ws d w.1 = w.2 := by
  induction ws generalizing d with
  | nil => cases hw
  | cons w' ws ih =>
    rw [map_cons, nodup_cons] at hnodup
    rw [applyWrites_cons]
    rcases mem_cons.mp hw with rfl | hw
    · rw [applyWrites_of_notMem, update_self]
      intro w' hw' heq
      exact hnodup.1 (mem_map.mpr ⟨w', hw', heq⟩)
    · exact ih hnodup.2 hw

end CshellXv6.Lib
