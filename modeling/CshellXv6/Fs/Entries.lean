import CshellXv6.Fs.Dir

/-! # The entries of a directory

The contents of a directory, 16 bytes at a time, as a list of entries. The name of
an entry is what `namecmp` looks at: the bytes before the first zero.
-/

namespace CshellXv6.Fs

open List

/-! ## Names -/

/-- The first `n` bytes, up to a zero byte. -/
def cstring (n : Nat) (bytes : List UInt8) : List UInt8 := (bytes.take n).takeWhile (· ≠ 0)

/-- The name that `DIRSIZ` bytes stand for. -/
def cname (bytes : List UInt8) : List UInt8 := cstring 14 bytes

section

variable {n : Nat} {s t : List UInt8}

lemma cstring_succ :
    cstring (n + 1) s = if s.headD 0 ≠ 0 then s.headD 0 :: cstring n s.tail else [] := by
  cases s with
  | nil => rfl
  | cons c cs =>
    by_cases hc : c = 0
    all_goals simp [cstring, hc]

lemma strncmp_eq_zero : strncmp n s t = 0 ↔ cstring n s = cstring n t := by
  induction n generalizing s t with
  | zero => simp [strncmp, cstring]
  | succ n ih =>
    have hdiff : ∀ a b : UInt8, (a.toNat : Int) - b.toNat = 0 ↔ a = b := by
      intro a b
      rw [← UInt8.toNat_inj]
      omega
    rw [strncmp, cstring_succ, cstring_succ]
    generalize s.headD 0 = a
    generalize t.headD 0 = b
    by_cases hab : a = b
    · subst hab
      by_cases ha : a = 0
      · simp [ha]
      · simp [ha, ih]
    rw [if_neg fun h => hab h.2, hdiff]
    by_cases ha : a = 0
    · by_cases hb : b = 0
      · exact absurd (ha.trans hb.symm) hab
      · simp [ha, hb, Ne.symm hb]
    by_cases hb : b = 0
    · simp [ha, hb]
    · simp [ha, hb, hab]

/-- `namecmp` compares the names. -/
lemma namecmp_eq_zero : namecmp s t = 0 ↔ cname s = cname t := strncmp_eq_zero

lemma length_strncpy : (strncpy n t).length = n := by
  induction n generalizing t with
  | zero => rfl
  | succ n ih =>
    rw [strncpy]
    split
    · rw [length_cons, ih]
    · rw [length_replicate]

lemma cstring_strncpy : cstring n (strncpy n t) = cstring n t := by
  induction n generalizing t with
  | zero => rfl
  | succ n ih =>
    rw [cstring_succ, strncpy]
    split
    next h => rw [headD_cons, if_pos h, tail_cons, ih, cstring_succ, if_pos h]
    next h =>
      rw [cstring_succ, if_neg h, replicate_succ, headD_cons, if_neg (by simp)]

end

/-! ## Entries -/

/-- The entry that 16 bytes stand for. -/
def entry (bytes : List UInt8) : Dirent := ⟨(getDirent bytes).inum, cname (getDirent bytes).name⟩

def entries (bytes : List UInt8) : List Dirent :=
  (List.range (bytes.length / 16)).map fun k => entry ((bytes.drop (16 * k)).take 16)

/-- Element `k` is replaced, or added at the end. -/
def setSlot (es : List Dirent) (k : Nat) (e : Dirent) : List Dirent :=
  es.take k ++ e :: es.drop (k + 1)

section

variable {bytes new : List UInt8} {k inum : Nat}

@[simp] lemma length_entries : (entries bytes).length = bytes.length / 16 := by
  simp [entries]

lemma entries_drop (bytes : List UInt8) (k : Nat) :
    entries (bytes.drop (16 * k)) = (entries bytes).drop k := by
  apply ext_getElem
  · simp
    omega
  · intro j h1 h2
    simp [entries, Nat.mul_add]

lemma entries_take (bytes : List UInt8) (h : 16 * k ≤ bytes.length) :
    entries (bytes.take (16 * k)) = (entries bytes).take k := by
  apply ext_getElem
  · simp
    omega
  intro j h1 h2
  simp only [length_entries, length_take] at h1
  have hle : 16 ≤ 16 * k - 16 * j := by omega
  simp only [entries, getElem_map, getElem_range, getElem_take, drop_take,
    take_take, Nat.min_eq_left hle]

lemma entries_append (h : 16 ∣ bytes.length) :
    entries (bytes ++ new) = entries bytes ++ entries new := by
  obtain ⟨m, hm⟩ := h
  have htake := entries_take (bytes ++ new) (k := m) (by simp [hm])
  have hdrop := entries_drop (bytes ++ new) m
  rw [← hm, take_left] at htake
  rw [← hm, drop_left] at hdrop
  rw [htake, hdrop, take_append_drop]

lemma entries_of_length (h : new.length = 16) : entries new = [entry new] := by
  have hone : new.length / 16 = 1 := by rw [h]
  rw [entries, hone]
  simp [take_of_length_le (Nat.le_of_eq h)]

/-- Writing 16 bytes at a multiple of 16 replaces an entry, or adds one. -/
lemma entries_splice (hk : 16 * k ≤ bytes.length) (hnew : new.length = 16) :
    entries (splice bytes (16 * k) new) = setSlot (entries bytes) k (entry new) := by
  have htake : 16 ∣ (bytes.take (16 * k)).length := by
    rw [length_take, Nat.min_eq_left hk]
    exact Nat.dvd_mul_right 16 k
  have hnext : 16 * k + 16 = 16 * (k + 1) := by omega
  rw [splice, hnew, append_assoc, entries_append htake,
    entries_append (by rw [hnew]), entries_of_length hnew, entries_take bytes hk, hnext,
    entries_drop]
  rfl

/-- The bytes that are written for an entry stand for it. -/
lemma entry_toBytes {name : List UInt8} (h : inum < 2 ^ 16) :
    entry (Dirent.toBytes ⟨inum, strncpy 14 name⟩) = ⟨inum, cname name⟩ := by
  have hname : cname (strncpy 14 name) = cname name := cstring_strncpy
  simp only [entry, getDirent, Dirent.toBytes, getD_cons_zero, getD_cons_succ,
    drop_succ_cons, drop_zero, hname, Dirent.mk.injEq, and_true, UInt8.toNat_ofNat']
  omega

lemma entry_zero : (entry (List.replicate 16 0)).inum = 0 := rfl

end

end CshellXv6.Fs
