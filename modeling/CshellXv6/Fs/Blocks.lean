import CshellXv6.Fs.Log

/-! # Blocks and the bitmap

The bottom of `fs.c`: the superblock, and the allocation of blocks from the
bitmap. The blocks are what `bread` gives; `log_write` leaves the changed
buffer in the cache, so a change is a change of this function.

The constants of `fs.h`: `BSIZE` is 1024, `BPB` is 8192.
-/

namespace CshellXv6.Fs

open Lib Function

/-- The fields of the superblock that say where things are. -/
structure Superblock where
  size : Nat
  ninodes : Nat
  inodestart : Nat
  bmapstart : Nat

/-- `FSMAGIC`. -/
def fsmagic : Nat := 0x10203040

/-- `readsb`, and the check of `fsinit` on what it has read; `none` is a panic. -/
def readsb (d : Disk) : Option Superblock :=
  if word (d 1) 0 ≠ fsmagic then none
  else some ⟨word (d 1) 1, word (d 1) 3, word (d 1) 6, word (d 1) 7⟩

/-- `BBLOCK(b, sb)`. -/
def bblock (sb : Superblock) (b : Nat) : Nat := b / 8192 + sb.bmapstart

/-- The first block behind the bitmap, where `mkfs` puts the data. -/
def Superblock.dataStart (sb : Superblock) : Nat := sb.bmapstart + sb.size / 8192 + 1

lemma Superblock.bmapstart_lt (sb : Superblock) : sb.bmapstart < sb.dataStart := by
  unfold Superblock.dataStart
  omega

/-- The parts of the disk follow each other in the order of `fs.h`. -/
structure Superblock.Valid (sb : Superblock) : Prop where
  inodes : 0 < sb.inodestart
  bitmap : sb.inodestart + sb.ninodes / 16 + 1 ≤ sb.bmapstart
  data : sb.dataStart ≤ sb.size
  fits : sb.size < 2 ^ 31

-- the superblock and the blocks
variable (sb : Superblock) (d : Disk)

/-- The bit of block `b`, as `balloc` and `bfree` look at it. -/
def bit (b : Nat) : Bool := hasBit ((d (bblock sb b)).get (b % 8192 / 8)) (b % 8192 % 8)

/-- `bp->data[bi / 8] = x` in the block of the bitmap for `b`. -/
def setByte (b : Nat) (x : UInt8) : Disk :=
  update d (bblock sb b) ((d (bblock sb b)).put (b % 8192 / 8) (fun _ => x) 1)

/-- `bp->data[bi / 8] |= m`. -/
def setBit (b : Nat) : Disk :=
  setByte sb d b ((d (bblock sb b)).get (b % 8192 / 8) ||| mask (b % 8192 % 8))

/-- `bp->data[bi / 8] &= ~m`. -/
def clearBit (b : Nat) : Disk :=
  setByte sb d b ((d (bblock sb b)).get (b % 8192 / 8) &&& ~~~ mask (b % 8192 % 8))

def bzero (b : Nat) : Disk := update d b Bytes.zero

/-- The inner loop of `balloc`: `n` bits are left from `bi` on. -/
def ballocBits (b : Nat) : Nat → Nat → Option (Nat × Disk)
  | _, 0 => none
  | bi, n + 1 =>
    if b + bi < sb.size then
      if bit sb d (b + bi) = false then some (b + bi, bzero (setBit sb d (b + bi)) (b + bi))
      else ballocBits b (bi + 1) n
    else none

/-- The outer loop, with at most `n` blocks of the bitmap left. -/
def ballocBlocks : Nat → Nat → Nat × Disk
  | _, 0 => (0, d)
  | b, n + 1 =>
    if b < sb.size then
      match ballocBits sb d b 0 8192 with
      | some r => r
      | none => ballocBlocks (b + 8192) n
    else (0, d)

/-- `balloc`: a block that was free, or 0. -/
def balloc : Nat × Disk := ballocBlocks sb d 0 (sb.size / 8192 + 1)

/-- `bfree`; it panics if the block is free. -/
def bfree (b : Nat) : Option Disk :=
  if bit sb d b = false then none else some (clearBit sb d b)

/-! ## Bits -/

section

variable {sb d} {b c x bi n : Nat} {v : UInt8} {d' : Disk}

lemma bblock_lt (hb : b < sb.size) : bblock sb b < sb.dataStart := by
  have := Nat.div_le_div_right (c := 8192) hb.le
  unfold bblock Superblock.dataStart
  omega

lemma le_bblock : sb.bmapstart ≤ bblock sb b := Nat.le_add_left _ _

lemma setByte_of_ne (h : x ≠ bblock sb b) : setByte sb d b v x = d x :=
  update_of_ne h _ _

/-- A byte of the bitmap changes the bits of eight blocks at most. -/
lemma bit_setByte (v : UInt8) : bit sb (setByte sb d b v) c =
    if c / 8 = b / 8 then hasBit v (c % 8) else bit sb d c := by
  have hmod : c % 8192 % 8 = c % 8 := Nat.mod_mod_of_dvd c (by decide)
  unfold bit setByte
  by_cases hblock : bblock sb c = bblock sb b
  · rw [hblock, update_self, hmod]
    have hdiv : c / 8192 = b / 8192 := Nat.add_right_cancel hblock
    by_cases hbyte : c / 8 = b / 8
    · rw [if_pos hbyte, Bytes.get_put_of_mem _ _ _ _ _ (by omega) (by omega) (by omega)]
    · rw [if_neg hbyte, Bytes.get_put_of_notMem _ _ _ _ _ (by omega)]
  · have hdiv : c / 8192 ≠ b / 8192 := fun h => hblock (by rw [bblock, bblock, h])
    rw [update_of_ne hblock, if_neg (by omega)]

/-- Blocks with their bits in one byte. -/
lemma bit_of_byte (h : c / 8 = b / 8) :
    bit sb d c = hasBit ((d (bblock sb b)).get (b % 8192 / 8)) (c % 8) := by
  have hdiv : c / 8192 = b / 8192 := by omega
  have hpos : c % 8192 / 8 = b % 8192 / 8 := by omega
  rw [bit, hpos, Nat.mod_mod_of_dvd c (by decide), bblock, hdiv, ← bblock]

lemma bit_setBit : bit sb (setBit sb d b) c = (decide (c = b) || bit sb d c) := by
  rw [setBit, bit_setByte]
  split
  next hbyte =>
    have hcb : c % 8 = b % 8 ↔ c = b := by omega
    rw [Nat.mod_mod_of_dvd b (by decide), hasBit_or_mask (Nat.mod_lt _ (by decide))
      (Nat.mod_lt _ (by decide)), bit_of_byte hbyte, decide_eq_decide.mpr hcb]
  next hbyte =>
    have hne : c ≠ b := by
      rintro rfl
      exact hbyte rfl
    rw [decide_eq_false hne, Bool.false_or]

lemma bit_clearBit : bit sb (clearBit sb d b) c = (decide (c ≠ b) && bit sb d c) := by
  rw [clearBit, bit_setByte]
  split
  next hbyte =>
    have hcb : c % 8 ≠ b % 8 ↔ c ≠ b := by omega
    rw [Nat.mod_mod_of_dvd b (by decide), hasBit_and_not_mask (Nat.mod_lt _ (by decide))
      (Nat.mod_lt _ (by decide)), bit_of_byte hbyte, decide_eq_decide.mpr hcb]
  next hbyte =>
    have hne : c ≠ b := by
      rintro rfl
      exact hbyte rfl
    rw [decide_eq_true hne, Bool.true_and]

/-- The bitmap is read from its own blocks. -/
lemma bit_congr (h : d' (bblock sb b) = d (bblock sb b)) : bit sb d' b = bit sb d b := by
  rw [bit, bit, h]

/-! ## Allocation -/

lemma ballocBits_spec :
    (∃ c, b + bi ≤ c ∧ c < sb.size ∧ bit sb d c = false ∧
      ballocBits sb d b bi n = some (c, bzero (setBit sb d c) c)) ∨
    (ballocBits sb d b bi n = none ∧
      ∀ c, b + bi ≤ c → c < b + bi + n → c < sb.size → bit sb d c = true) := by
  induction n generalizing bi with
  | zero =>
    right
    exact ⟨rfl, fun c h1 h2 => by omega⟩
  | succ n ih =>
    rw [ballocBits]
    split
    next hlt =>
      split
      next hfree => exact .inl ⟨b + bi, Nat.le_refl _, hlt, hfree, rfl⟩
      next hused =>
        rcases @ih (bi + 1) with ⟨c, hc, hrest⟩ | ⟨hnone, hall⟩
        · exact .inl ⟨c, by omega, hrest⟩
        right
        refine ⟨hnone, fun c h1 h2 h3 => ?_⟩
        by_cases hcb : c = b + bi
        · rw [hcb]
          simpa using hused
        · exact hall c (by omega) (by omega) h3
    next hge => exact .inr ⟨rfl, fun c h1 h2 h3 => by omega⟩

lemma ballocBlocks_spec (hn : sb.size ≤ b + 8192 * n) :
    (∃ c, c < sb.size ∧ bit sb d c = false ∧ ballocBlocks sb d b n = (c, bzero (setBit sb d c) c)) ∨
    (ballocBlocks sb d b n = (0, d) ∧ ∀ c, b ≤ c → c < sb.size → bit sb d c = true) := by
  induction n generalizing b with
  | zero => exact .inr ⟨rfl, fun c h1 h2 => by omega⟩
  | succ n ih =>
    rw [ballocBlocks]
    split
    · rcases @ballocBits_spec sb d b 0 8192 with
        ⟨c, -, hc, hfree, heq⟩ | ⟨heq, hall⟩
      · exact .inl ⟨c, hc, hfree, by rw [heq]⟩
      rw [heq]
      rcases ih (b := b + 8192) (by omega) with hfound | ⟨hnone, hrest⟩
      · exact .inl hfound
      right
      refine ⟨hnone, fun c h1 h2 => ?_⟩
      by_cases hcb : c < b + 8192
      · exact hall c (by omega) (by omega) h2
      · exact hrest c (by omega) h2
    next hge => exact .inr ⟨rfl, fun c h1 h2 => by omega⟩

/-- A free block, marked and zeroed, if there is one. -/
lemma balloc_spec :
    (∃ b, b < sb.size ∧ bit sb d b = false ∧ balloc sb d = (b, bzero (setBit sb d b) b)) ∨
    (balloc sb d = (0, d) ∧ ∀ b, b < sb.size → bit sb d b = true) := by
  have hn : sb.size ≤ 0 + 8192 * (sb.size / 8192 + 1) := by omega
  rcases ballocBlocks_spec (d := d) hn with hfound | ⟨hnone, hall⟩
  · exact .inl hfound
  · exact .inr ⟨hnone, fun b hb => hall b (Nat.zero_le b) hb⟩

end

end CshellXv6.Fs
