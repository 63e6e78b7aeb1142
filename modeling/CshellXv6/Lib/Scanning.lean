import CshellXv6.Lib.Words
import Mathlib.Data.List.TakeWhile

/-! # Reading a text back

The functions of the C library with which a text is read: `fgets` for its lines, and
`atoi` and the `%d` of `sscanf` for the numbers in them. What `printf` writes for a number
of type `int` is read back as that number.
-/

namespace CshellXv6.Lib

open List

/-! ## Lines -/

section

variable {α : Type*} [DecidableEq α] {nl : α} {n room : Nat} {line rest : List α}

/-- What `fgets` gives one call after the other: each piece ends with the first newline, with
the text, or after `n` characters; the first one after `room`. -/
def pieces (nl : α) (n : Nat) : Nat → List α → List (List α)
  | _, [] => []
  | room, b :: l =>
    if b = nl ∨ room ≤ 1 then [b] :: pieces nl n n l
    else
      match pieces nl n (room - 1) l with
      | [] => [[b]]
      | x :: xs => (b :: x) :: xs

/-- A line that fits. -/
lemma pieces_line (hline : nl ∉ line) (hroom : line.length < room) :
    pieces nl n room (line ++ nl :: rest) = (line ++ [nl]) :: pieces nl n n rest := by
  induction line generalizing room with
  | nil => exact if_pos (.inl rfl)
  | cons b line ih =>
    rw [mem_cons, not_or] at hline
    rw [length_cons] at hroom
    have hgo : ¬ (b = nl ∨ room ≤ 1) := by
      rintro (hb | hle)
      · exact hline.1 hb.symm
      · omega
    rw [cons_append, pieces, if_neg hgo, ih hline.2 (by omega)]
    rfl

/-- A text whose lines all fit. -/
lemma pieces_flatMap {ls : List (List α)} (h : ∀ l ∈ ls, nl ∉ l ∧ l.length < n) :
    pieces nl n n (ls.flatMap fun l => l ++ [nl]) = ls.map fun l => l ++ [nl] := by
  induction ls with
  | nil => rfl
  | cons l ls ih =>
    obtain ⟨hl, hls⟩ := forall_mem_cons.mp h
    rw [flatMap_cons, append_assoc, singleton_append, pieces_line hl.1 hl.2, ih hls, map_cons]

end

/-! ## Numbers -/

/-- `isspace` in the C locale. -/
def isspace (c : Char) : Bool :=
  c = ' ' || c = '\t' || c = '\n' || c = '\x0b' || c = '\x0c' || c = '\r'

/-- At least one digit: their value, and what follows. -/
def scanDigits (s : List Char) : Option (Nat × List Char) :=
  if s.takeWhile Char.isDigit = [] then none
  else some (Nat.ofDigitChars 10 (s.takeWhile Char.isDigit) 0, s.dropWhile Char.isDigit)

/-- `strtol` stops at the ends of the type `long`, and the result is stored in an `int`. -/
def storeLong (v : Int) : Int := toInt (max (-2 ^ 63) (min v (2 ^ 63 - 1)))

/-- A number with its sign, and what follows. -/
def scanSigned (s : List Char) : Option (Int × List Char) :=
  if s.head? = some '-' then (scanDigits s.tail).map fun r => (storeLong (-(r.1 : Int)), r.2)
  else if s.head? = some '+' then (scanDigits s.tail).map fun r => (storeLong r.1, r.2)
  else (scanDigits s).map fun r => (storeLong r.1, r.2)

/-- The `%d` of `sscanf`. -/
def scanInt (s : List Char) : Option (Int × List Char) := scanSigned (s.dropWhile isspace)

def atoi (s : List Char) : Int := ((scanInt s).map Prod.fst).getD 0

/-- The `%d` of `printf`. -/
def showInt (k : Int) : List Char :=
  if k < 0 then '-' :: Nat.toDigits 10 k.natAbs else Nat.toDigits 10 k.natAbs

section

variable {k : Int} {rest : List Char} {c : Char}

lemma storeLong_of_range (hlow : -2 ^ 31 ≤ k) (hhigh : k < 2 ^ 31) : storeLong k = k := by
  have hclamp : max (-2 ^ 63) (min k (2 ^ 63 - 1)) = k := by omega
  rw [storeLong, hclamp, toInt_of_range hlow hhigh]

lemma isDigit_of_mem_toDigits {n : Nat} (h : c ∈ Nat.toDigits 10 n) : c.isDigit = true :=
  Nat.isDigit_of_mem_toDigits (by decide) (by decide) h

lemma isspace_of_isDigit (h : c.isDigit = true) : isspace c = false := by
  rw [Bool.eq_false_iff]
  intro hspace
  simp only [isspace, Bool.or_eq_true, decide_eq_true_eq] at hspace
  rcases hspace with ((((rfl | rfl) | rfl) | rfl) | rfl) | rfl
  all_goals exact absurd h (by decide)

lemma scanDigits_toDigits (n : Nat) (hrest : ∀ c, rest.head? = some c → c.isDigit = false) :
    scanDigits (Nat.toDigits 10 n ++ rest) = some (n, rest) := by
  have hall : ∀ c ∈ Nat.toDigits 10 n, c.isDigit = true := fun c hc => isDigit_of_mem_toDigits hc
  have hstop : rest.takeWhile Char.isDigit = [] ∧ rest.dropWhile Char.isDigit = rest := by
    cases rest with
    | nil => exact ⟨rfl, rfl⟩
    | cons c rest =>
      have hc := hrest c rfl
      simp [hc]
  rw [scanDigits, takeWhile_append_of_pos hall, dropWhile_append_of_pos hall, hstop.1,
    hstop.2, append_nil, if_neg Nat.toDigits_ne_nil,
    Nat.ofDigitChars_toDigits (by decide) (by decide)]

/-- No character of a number is a blank. -/
lemma isspace_of_mem_showInt (h : c ∈ showInt k) : isspace c = false := by
  unfold showInt at h
  split at h
  · rcases mem_cons.mp h with rfl | h
    · decide
    · exact isspace_of_isDigit (isDigit_of_mem_toDigits h)
  · exact isspace_of_isDigit (isDigit_of_mem_toDigits h)

lemma showInt_ne_nil (k : Int) : showInt k ≠ [] := by
  unfold showInt
  split
  · exact cons_ne_nil _ _
  · exact Nat.toDigits_ne_nil

lemma length_showInt_le (hlow : -2 ^ 31 ≤ k) (hhigh : k < 2 ^ 31) : (showInt k).length ≤ 11 := by
  have hdigits : (Nat.toDigits 10 k.natAbs).length ≤ 10 :=
    (Nat.length_toDigits_le_iff (by decide) (by decide)).mpr (by omega)
  unfold showInt
  split
  · rw [length_cons]
    omega
  · omega

/-- **A number is read back**, when no digit follows. -/
lemma scanInt_showInt (hlow : -2 ^ 31 ≤ k) (hhigh : k < 2 ^ 31)
    (hrest : ∀ c, rest.head? = some c → c.isDigit = false) :
    scanInt (showInt k ++ rest) = some (k, rest) := by
  have hskip : (showInt k ++ rest).dropWhile isspace = showInt k ++ rest := by
    cases hshow : showInt k with
    | nil => exact absurd hshow (showInt_ne_nil k)
    | cons c s =>
      have hc : isspace c = false := isspace_of_mem_showInt (hshow ▸ mem_cons_self)
      simp [hc]
  rw [scanInt, hskip, showInt]
  split
  next hneg =>
    have habs : -((k.natAbs : Nat) : Int) = k := by omega
    rw [scanSigned, cons_append, List.head?_cons, if_pos rfl, tail_cons,
      scanDigits_toDigits _ hrest, Option.map_some, habs, storeLong_of_range hlow hhigh]
  next hpos =>
    have habs : ((k.natAbs : Nat) : Int) = k := by omega
    -- the first character is a digit, so there is no sign
    have hhead : ∀ c, (Nat.toDigits 10 k.natAbs ++ rest).head? = some c → c.isDigit = true := by
      intro c hc
      cases hdigits : Nat.toDigits 10 k.natAbs with
      | nil => exact absurd hdigits Nat.toDigits_ne_nil
      | cons d s =>
        rw [hdigits] at hc
        obtain rfl := Option.some.inj hc
        exact isDigit_of_mem_toDigits (hdigits ▸ mem_cons_self)
    have hminus : (Nat.toDigits 10 k.natAbs ++ rest).head? ≠ some '-' := fun h =>
      absurd (hhead '-' h) (by decide)
    have hplus : (Nat.toDigits 10 k.natAbs ++ rest).head? ≠ some '+' := fun h =>
      absurd (hhead '+' h) (by decide)
    rw [scanSigned, if_neg hminus, if_neg hplus, scanDigits_toDigits _ hrest, Option.map_some,
      habs, storeLong_of_range hlow hhigh]

lemma scanInt_cons_of_isspace {s : List Char} (h : isspace c = true) :
    scanInt (c :: s) = scanInt s := by
  rw [scanInt, dropWhile_cons_of_pos h, scanInt]

lemma atoi_showInt (hlow : -2 ^ 31 ≤ k) (hhigh : k < 2 ^ 31) : atoi (showInt k) = k := by
  have hscan : scanInt (showInt k ++ []) = some (k, []) :=
    scanInt_showInt hlow hhigh (by simp)
  rw [append_nil] at hscan
  rw [atoi, hscan]
  rfl

end

end CshellXv6.Lib
