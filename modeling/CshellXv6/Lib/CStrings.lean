import CshellXv6.Lib.Lists
import Mathlib.Data.List.TakeWhile

/-! # Taking strings apart

The functions of the C library with which a string is cut into tokens. A string is the
list of its characters, without the zero at its end.
-/

namespace CshellXv6.Lib

open List

variable {α : Type*} {delim : α → Bool} {s t rest : List α}

/-- `strtok`, from some position on: the token, and where the next call goes on. -/
def strtok (delim : α → Bool) (s : List α) : Option (List α × List α) :=
  match s.dropWhile delim with
  | [] => none
  | c :: rest =>
    some (c :: rest.takeWhile fun d => !delim d, (rest.dropWhile fun d => !delim d).tail)

/-- The tokens that `strtok` gives one after the other: what is between the
delimiters, unless it is empty. -/
def strtokAll (delim : α → Bool) (s : List α) : List (List α) :=
  (s.splitOnP delim).filter fun t => !t.isEmpty

lemma strtok_cons_of_not_delim {c : α} (hc : delim c = false) : strtok delim (c :: s) =
    some (c :: s.takeWhile fun d => !delim d, (s.dropWhile fun d => !delim d).tail) := by
  have hstop : (c :: s).dropWhile delim = c :: s := dropWhile_cons_of_neg (by simp [hc])
  rw [strtok, hstop]

/-- A token up to a delimiter. -/
lemma strtok_append {c : α} (hne : t ≠ []) (h : ∀ d ∈ t, delim d = false)
    (hc : delim c = true) : strtok delim (t ++ c :: rest) = some (t, rest) := by
  cases t with
  | nil => exact absurd rfl hne
  | cons b t =>
    have hall : ∀ d ∈ t, (!delim d) = true :=
      fun d hd => by simp [h d (mem_cons_of_mem b hd)]
    have htake : (c :: rest).takeWhile (fun d => !delim d) = [] := by simp [hc]
    have hdrop : (c :: rest).dropWhile (fun d => !delim d) = c :: rest := by simp [hc]
    rw [cons_append, strtok_cons_of_not_delim (h b mem_cons_self),
      takeWhile_append_of_pos hall, dropWhile_append_of_pos hall, htake, hdrop,
      append_nil, tail_cons]

/-- A token has no delimiters in it. -/
lemma not_delim_of_mem_strtok (h : strtok delim s = some (t, rest)) : ∀ c ∈ t, delim c = false := by
  rw [strtok] at h
  split at h
  · cases h
  next b tail hdrop =>
    obtain ⟨rfl, -⟩ := Prod.mk.inj (Option.some.inj h)
    have hb : delim b = false := by
      have hhead := head_dropWhile_not delim (l := s) (by rw [hdrop]; simp)
      simpa [hdrop] using hhead
    intro c hc
    rcases mem_cons.mp hc with rfl | hc
    · exact hb
    · simpa using mem_takeWhile_imp hc

end CshellXv6.Lib
