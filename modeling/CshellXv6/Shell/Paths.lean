import Mathlib.Data.List.Basic

/-! # Paths

What `hop.c`, `locate.c`, `peek.c` and `reveal.c` share: the size of a buffer for a path, and
`~` for the directory in which the shell was started. A byte is a character.
-/

namespace CshellXv6.Shell

/-- `PATH_MAX`. The system takes no path of this length or longer. -/
def pathMax : Nat := 4096

/-- The path with the home of the shell for `~`. -/
def expand (home_shell path : List Char) : List Char :=
  if path = ['~'] then home_shell
  else if path.take 2 = ['~', '/'] then home_shell ++ '/' :: path.drop 2
  else path

section

variable {home path : List Char}

/-- There is nothing left to expand. -/
lemma expand_ne_tilde (hhome : home.head? ≠ some '~') :
    expand home path ≠ ['~'] ∧ (expand home path).take 2 ≠ ['~', '/'] := by
  have hhead : ∀ q : List Char, q.head? ≠ some '~' → q ≠ ['~'] ∧ q.take 2 ≠ ['~', '/'] := by
    intro q hq
    constructor
    · rintro rfl
      exact hq rfl
    intro htake
    cases q with
    | nil => cases htake
    | cons c q =>
      rw [List.take_succ_cons] at htake
      exact hq (congrArg some (List.cons.inj htake).1)
  unfold expand
  split
  · exact hhead home hhome
  split
  · apply hhead
    cases home with
    | nil => simp
    | cons c home => exact hhome
  · constructor
    all_goals assumption

/-- A name in an expanded directory is not expanded again. -/
lemma expand_join (hhome : home.head? ≠ some '~') (name : List Char) :
    expand home (expand home path ++ '/' :: name) = expand home path ++ '/' :: name := by
  obtain ⟨hne, htake⟩ : expand home path ≠ _ ∧ (expand home path).take 2 ≠ _ :=
    expand_ne_tilde hhome
  generalize expand home path = p at hne htake ⊢
  have hjoin : p ++ '/' :: name ≠ ['~'] ∧ (p ++ '/' :: name).take 2 ≠ ['~', '/'] := by
    rcases p with _ | ⟨c, _ | ⟨d, p⟩⟩
    · simp
    · simpa using hne
    · simpa using htake
  rw [expand, if_neg hjoin.1, if_neg hjoin.2]

end

end CshellXv6.Shell
