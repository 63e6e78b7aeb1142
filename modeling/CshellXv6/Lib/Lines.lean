import Mathlib.Tactic

/-! # Lines

A text as a sequence of lines: the pieces between the newlines, where a newline at
the very end does not start a further line. A text can be cut into its lines from the
front, one line after the other with its newline (`getlines`), or from the back
(`cutBack`); both give the same lines.
-/

namespace CshellXv6.Lib

open List

variable {α : Type*} [DecidableEq α]

/-- The text without a newline at its end. -/
def chop (nl : α) (l : List α) : List α := if l.getLast? = some nl then l.dropLast else l

def lines (nl : α) (l : List α) : List (List α) := if l = [] then [] else (chop nl l).splitOn nl

/-- The lines with their newlines; the last one may have none. -/
def getlines (nl : α) : List α → List (List α)
  | [] => []
  | b :: l =>
    if b = nl then [b] :: getlines nl l
    else
      match getlines nl l with
      | [] => [[b]]
      | x :: xs => (b :: x) :: xs

/-- What is left of the lines that start before some point, and the lines behind it,
the last one first. -/
def cutBack (nl : α) (l : List α) : List α × List (List α) :=
  l.foldr (fun b s => if b = nl then ([], s.2 ++ [s.1]) else (b :: s.1, s.2)) ([], [])

variable {nl : α} {l : List α}

lemma cutBack_cons (b : α) : cutBack nl (b :: l) =
    if b = nl then ([], (cutBack nl l).2 ++ [(cutBack nl l).1])
    else (b :: (cutBack nl l).1, (cutBack nl l).2) := rfl

lemma splitOn_cons (b : α) : (b :: l).splitOn nl =
    if b = nl then [] :: l.splitOn nl else (l.splitOn nl).modifyHead (b :: ·) := by
  rw [splitOn_cons_eq_if_modifyHead]
  simp

lemma splitOn_eq_cutBack : l.splitOn nl = (cutBack nl l).1 :: (cutBack nl l).2.reverse := by
  induction l with
  | nil => rfl
  | cons b l ih =>
    rw [splitOn_cons, cutBack_cons, ih]
    split
    · simp
    · rfl

/-- The first line is empty if the text begins with a newline, or is empty. -/
lemma cutBack_fst_eq_nil : (cutBack nl l).1 = [] ↔ l = [] ∨ l.head? = some nl := by
  cases l with
  | nil => simp [cutBack]
  | cons b l =>
    rw [cutBack_cons]
    split
    next hb => simp [hb]
    next hb => simp [hb]

lemma chop_cons_of_ne_nil {b : α} (h : l ≠ []) : chop nl (b :: l) = b :: chop nl l := by
  unfold chop
  rw [List.getLast?_cons_of_ne_nil h, dropLast_cons_of_ne_nil h]
  split
  all_goals rfl

lemma chop_append_newline : chop nl (l ++ [nl]) = l := by
  simp [chop]

lemma length_chop (nl : α) (l : List α) :
    l.length ≤ (chop nl l).length + 1 ∧ (chop nl l).length ≤ l.length := by
  unfold chop
  split
  · rw [length_dropLast]
    omega
  · omega

/-- The bytes of the lines, each with a newline. -/
lemma length_cutBack (nl : α) (l : List α) :
    (cutBack nl l).1.length + ((cutBack nl l).2.flatMap (· ++ [nl])).length = l.length := by
  induction l with
  | nil => rfl
  | cons b l ih =>
    rw [cutBack_cons]
    split
    · simp only [flatMap_append, flatMap_singleton, length_append, length_nil, length_cons]
      omega
    · simp only [length_cons]
      omega

lemma head?_chop (h : (chop nl l).head? = some nl) : l.head? = some nl := by
  cases l with
  | nil => exact h
  | cons b l =>
    by_cases hl : l = []
    · subst hl
      by_cases hb : b = nl
      · rw [hb]
        rfl
      · simp [chop, hb] at h
    · rwa [chop_cons_of_ne_nil hl] at h

lemma ne_nil_of_mem_getlines {x : List α} (h : x ∈ getlines nl l) : x ≠ [] := by
  induction l generalizing x with
  | nil => cases h
  | cons b l ih =>
    rw [getlines] at h
    split at h
    · rcases mem_cons.mp h with rfl | h
      · exact cons_ne_nil b []
      · exact ih h
    split at h
    · rw [mem_singleton.mp h]
      exact cons_ne_nil b []
    next y ys hg =>
      rcases mem_cons.mp h with rfl | h
      · exact cons_ne_nil b y
      · exact ih (hg ▸ mem_cons_of_mem y h)

/-- Cutting from the front gives the same lines. -/
lemma map_chop_getlines : (getlines nl l).map (chop nl) = lines nl l := by
  induction l with
  | nil => rfl
  | cons b l ih =>
    have hlines : lines nl (b :: l) = (chop nl (b :: l)).splitOn nl :=
      if_neg (cons_ne_nil b l)
    rw [hlines]
    by_cases hl : l = []
    · subst hl
      by_cases hb : b = nl
      · simp [getlines, chop, hb]
      · simp [getlines, chop, hb, splitOn_cons]
    have hrest : lines nl l = (chop nl l).splitOn nl := if_neg hl
    rw [chop_cons_of_ne_nil hl, splitOn_cons, ← hrest, ← ih, getlines]
    split
    next hb => simp [chop, hb]
    · cases hg : getlines nl l with
      | nil =>
        rw [hg, hrest] at ih
        exact absurd ih.symm (splitOn_ne_nil nl (chop nl l))
      | cons x xs =>
        have hx : x ≠ [] := ne_nil_of_mem_getlines (hg ▸ mem_cons_self)
        rw [map_cons, map_cons, chop_cons_of_ne_nil hx]
        rfl

end CshellXv6.Lib
