import Mathlib.Tactic

/-! # Pieces by index

A list can be cut at the elements that satisfy a test by noting their indices first and
taking the parts between them afterwards. The result is that of `List.splitOnP`
(`slices_hits`).
-/

namespace CshellXv6.Lib

open List

variable {α : Type*}

/-- The parts of a list between `start` and the ends, without the elements at the ends. -/
def slices (l : List α) : Nat → List Nat → List (List α)
  | _, [] => []
  | start, stop :: stops => (l.drop start).take (stop - start) :: slices l (stop + 1) stops

/-- The indices from `pos` on where the test holds. -/
def hits (p : α → Bool) (l : List α) (pos m : Nat) : List Nat :=
  (List.range' pos m).filter fun i => (l[i]?).any p

lemma hits_succ (p : α → Bool) {l : List α} {pos m : Nat} {x : α} (hx : l[pos]? = some x) :
    hits p l pos (m + 1) = if p x then pos :: hits p l (pos + 1) m else hits p l (pos + 1) m := by
  rw [hits, range'_succ, filter_cons, hx]
  rfl

/-- Cutting at the indices is cutting at the elements. -/
lemma slices_hits (p : α → Bool) (l : List α) {start pos m : Nat} (hstart : start ≤ pos)
    (hm : pos + m = l.length) :
    slices l start (hits p l pos m ++ [l.length]) =
      ((l.drop pos).splitOnP p).modifyHead ((l.drop start).take (pos - start) ++ ·) := by
  induction m generalizing start pos with
  | zero =>
    have hpos : pos = l.length := by omega
    subst hpos
    simp [hits, slices]
  | succ m ih =>
    have hlt : pos < l.length := by omega
    have hx := List.getElem?_eq_getElem hlt
    rw [hits_succ p hx, drop_eq_getElem_cons hlt, splitOnP_cons_eq_if_modifyHead]
    split
    · have hrest := ih (le_refl (pos + 1)) (by omega)
      rw [cons_append, slices, hrest, Nat.sub_self, take_zero]
      cases hs : (l.drop (pos + 1)).splitOnP p <;> simp
    have hpart : (l.drop start).take (pos + 1 - start) =
        (l.drop start).take (pos - start) ++ [l[pos]] := by
      have hnext : pos + 1 - start = pos - start + 1 := by omega
      have hget : (l.drop start)[pos - start]? = some l[pos] := by
        rw [List.getElem?_drop, Nat.add_sub_cancel' hstart, hx]
      rw [hnext, take_add_one, hget, Option.toList_some]
    rw [ih (by omega) (by omega), hpart, modifyHead_modifyHead]
    congr 1
    funext s
    simp

/-- The ends come one after the other, and none is behind `bound`. -/
def Ordered (bound : Nat) : Nat → List Nat → Prop
  | _, [] => True
  | start, stop :: stops => start ≤ stop ∧ stop ≤ bound ∧ Ordered bound (stop + 1) stops

lemma ordered_hits (p : α → Bool) (l : List α) {start pos m : Nat} (hstart : start ≤ pos)
    (hm : pos + m = l.length) : Ordered l.length start (hits p l pos m ++ [l.length]) := by
  induction m generalizing start pos with
  | zero => exact ⟨by omega, le_refl _, trivial⟩
  | succ m ih =>
    have hx := List.getElem?_eq_getElem (show pos < l.length by omega)
    rw [hits_succ p hx]
    split
    · exact ⟨hstart, by omega, ih (le_refl _) (by omega)⟩
    · exact ih (by omega) (by omega)

lemma hits_concat (p : α → Bool) {l : List α} {m : Nat} {x : α} (hx : l[m]? = some x) :
    hits p l 0 (m + 1) = if p x then hits p l 0 m ++ [m] else hits p l 0 m := by
  rw [hits, range'_concat, filter_append]
  by_cases hp : p x = true
  all_goals simp [hx, hp, hits]

end CshellXv6.Lib
