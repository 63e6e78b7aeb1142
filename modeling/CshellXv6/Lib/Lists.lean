import Mathlib.Tactic

/-! # Lists and their pieces

Facts about cutting a list at the elements that satisfy a test
(`List.splitOnP`), stated by positions: where an element of the list ends up
among the pieces, and where a piece stood in the list. Then the effect of a
change of one element, or of one more element, by position.
-/

namespace CshellXv6.Lib

open List

variable {α : Type*}

/-- A list either has no separator, or it has a last one. -/
lemma no_separator_or_last (p : α → Bool) (l : List α) :
    (∀ x ∈ l, p x = false) ∨ ∃ a x b, l = a ++ x :: b ∧ p x = true ∧ ∀ y ∈ b, p y = false := by
  induction l with
  | nil => left; simp
  | cons y l ih =>
    rcases ih with hno | ⟨a, x, b, rfl, hx, hb⟩
    · by_cases hy : p y = true
      · exact .inr ⟨[], y, l, rfl, hy, hno⟩
      left
      intro z hz
      rcases mem_cons.mp hz with rfl | hz
      · simpa using hy
      · exact hno z hz
    · exact .inr ⟨y :: a, x, b, rfl, hx, hb⟩

/-- A part without separators stays in front of the first piece. -/
lemma splitOnP_append_of_no_separator (p : α → Bool) (l xs : List α) (h : ∀ x ∈ l, p x = false) :
    (l ++ xs).splitOnP p = (xs.splitOnP p).modifyHead (l ++ ·) := by
  induction l with
  | nil => cases hs : xs.splitOnP p <;> simp [hs]
  | cons y l ih =>
    have hy : p y = false := h y (by simp)
    have hl : ∀ x ∈ l, p x = false := fun x hx => h x (by simp [hx])
    rw [cons_append, splitOnP_cons_eq_if_modifyHead, ih hl]
    cases hs : xs.splitOnP p <;> simp [hy]

/-- The cut only depends on the test at the elements of the list. -/
lemma splitOnP_congr {p q : α → Bool} {l : List α} (h : ∀ x ∈ l, p x = q x) :
    l.splitOnP p = l.splitOnP q := by
  induction l with
  | nil => rfl
  | cons y l ih =>
    rw [splitOnP_cons_eq_if_modifyHead, splitOnP_cons_eq_if_modifyHead,
      h y (by simp), ih (fun x hx => h x (by simp [hx]))]

/-- The pieces and the separators between them make up the list. -/
lemma sum_length_splitOnP (p : α → Bool) (l : List α) :
    ((l.splitOnP p).map List.length).sum + (l.splitOnP p).length = l.length + 1 := by
  induction l with
  | nil => simp
  | cons x l ih =>
    rw [splitOnP_cons_eq_if_modifyHead]
    split
    · simp only [map_cons, length_nil, sum_cons, length_cons]
      omega
    cases hpieces : l.splitOnP p with
    | nil => exact absurd hpieces (splitOnP_ne_nil _ _)
    | cons s ss =>
      rw [hpieces] at ih
      simp only [modifyHead_cons, map_cons, sum_cons, length_cons] at ih ⊢
      omega

/-- An element that is no separator lies in some piece, and inside that
piece it is preceded by the same element as before, if by any. -/
lemma exists_piece_of_append (p : α → Bool) (pre : List α) (t : α) (post : List α)
    (ht : p t = false) :
    ∃ s ∈ (pre ++ t :: post).splitOnP p, ∃ pre' post',
      s = pre' ++ t :: post' ∧ (pre' = [] ∨ pre'.getLast? = pre.getLast?) := by
  -- the piece of `t` starts after the last separator of `pre`
  have hpiece : ∀ b : List α, (∀ y ∈ b, p y = false) →
      ∃ post', b ++ t :: post' ∈ (b ++ t :: post).splitOnP p := by
    intro b hb
    obtain ⟨s, ss, hs⟩ := exists_cons_of_ne_nil (splitOnP_ne_nil p post)
    refine ⟨s, ?_⟩
    rw [splitOnP_append_of_no_separator p b _ hb, splitOnP_cons_eq_if_modifyHead]
    simp [ht, hs]
  rcases no_separator_or_last p pre with hno | ⟨a, x, b, rfl, hx, hb⟩
  · obtain ⟨post', hmem⟩ := hpiece pre hno
    exact ⟨_, hmem, pre, post', rfl, .inr rfl⟩
  obtain ⟨post', hmem⟩ := hpiece b hb
  refine ⟨b ++ t :: post', ?_, b, post', rfl, ?_⟩
  · rw [append_assoc, cons_append, splitOnP_append_cons _ _ hx]
    exact mem_append_right _ hmem
  cases b with
  | nil => exact .inl rfl
  | cons y ys =>
    right
    cases hl : (y :: ys).getLast? with
    | none => simp at hl
    | some z => simp [List.getLast?_append, hl]

/-- A list either has no separator, or it has a first one. -/
lemma no_separator_or_first (p : α → Bool) (l : List α) :
    (∀ x ∈ l, p x = false) ∨ ∃ a x b, l = a ++ x :: b ∧ p x = true ∧ ∀ y ∈ a, p y = false := by
  induction l with
  | nil => left; simp
  | cons y l ih =>
    by_cases hy : p y = true
    · exact .inr ⟨[], y, l, rfl, hy, by simp⟩
    have hy' : p y = false := by simpa using hy
    rcases ih with hno | ⟨a, x, b, rfl, hx, ha⟩
    · left
      simpa [hy'] using hno
    · refine .inr ⟨y :: a, x, b, rfl, hx, ?_⟩
      simpa [hy'] using ha

/-- A piece is a contiguous part of the list, at its start or right after a
separator. -/
lemma eq_append_of_mem_splitOnP (p : α → Bool) (l s : List α) (hs : s ∈ l.splitOnP p) :
    ∃ a b, l = a ++ (s ++ b) ∧ (a = [] ∨ ∃ a' x, a = a' ++ [x] ∧ p x = true) := by
  -- induction on the length: the list after the first separator is shorter
  induction hn : l.length using Nat.strong_induction_on generalizing l with
  | _ n ih =>
    rcases no_separator_or_first p l with hno | ⟨a, x, b, rfl, hx, ha⟩
    · rw [splitOnP_eq_singleton hno] at hs
      exact ⟨[], [], by simp_all, .inl rfl⟩
    rw [splitOnP_append_cons_of_forall_mem ha x hx b] at hs
    rcases mem_cons.mp hs with rfl | hs
    · exact ⟨[], x :: b, rfl, .inl rfl⟩
    have hlt : b.length < n := by simp at hn; omega
    obtain ⟨c, d, rfl, hc⟩ := ih b.length hlt b hs rfl
    refine ⟨a ++ x :: c, d, by simp, .inr ?_⟩
    rcases hc with rfl | ⟨c', y, rfl, hy⟩
    · exact ⟨a, x, rfl, hx⟩
    · exact ⟨a ++ x :: c', y, by simp, hy⟩

/-- No piece contains a separator. -/
lemma not_separator_of_mem_splitOnP (p : α → Bool) (l s : List α) (hs : s ∈ l.splitOnP p) :
    ∀ x ∈ s, p x = false := by
  induction hn : l.length using Nat.strong_induction_on generalizing l with
  | _ n ih =>
    rcases no_separator_or_first p l with hno | ⟨a, x, b, rfl, hx, ha⟩
    · rw [splitOnP_eq_singleton hno] at hs
      rw [mem_singleton.mp hs]
      exact hno
    rw [splitOnP_append_cons_of_forall_mem ha x hx b] at hs
    rcases mem_cons.mp hs with rfl | hs
    · exact ha
    · have hlt : b.length < n := by simp at hn; omega
      exact ih b.length hlt b hs rfl

/-! ## Changing one entry -/

/-- The entry right after a part of known length. -/
lemma modify_length_append (f : α → α) (l : List α) (x : α) (r : List α) :
    (l ++ x :: r).modify l.length f = l ++ f x :: r := by
  induction l with
  | nil => rfl
  | cons y l ih => simpa using ih

/-- Changing an element in a way that `g` does not see. -/
lemma map_modify_eq {β : Type*} {f : α → α} {g : α → β} (h : ∀ a, g (f a) = g a) (i : Nat)
    (l : List α) : (l.modify i f).map g = l.map g := by
  induction l generalizing i with
  | nil => simp
  | cons a l ih =>
    cases i with
    | zero => simp [h]
    | succ i => simp [ih]

/-! ## A list that has grown -/

lemma getElem?_append_of_some {l : List α} {i : Nat} {x : α} (h : l[i]? = some x)
    (r : List α) : (l ++ r)[i]? = some x := by
  rw [List.getElem?_append_left (List.getElem?_eq_some_iff.mp h).1]
  exact h

/-- An element is an old one or the new one. -/
lemma getElem?_concat_eq_some {l : List α} {i : Nat} {x y : α} :
    (l ++ [x])[i]? = some y ↔ l[i]? = some y ∨ (i = l.length ∧ y = x) := by
  rcases Nat.lt_trichotomy i l.length with hlt | rfl | hgt
  · rw [List.getElem?_append_left hlt]
    simp [Nat.ne_of_lt hlt]
  · simp [eq_comm]
  · rw [List.getElem?_eq_none (by simp; omega), List.getElem?_eq_none (Nat.le_of_lt hgt)]
    simp [Nat.ne_of_gt hgt]

end CshellXv6.Lib
