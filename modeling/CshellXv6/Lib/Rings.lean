import Mathlib.Tactic

/-! # Ring buffers with wrapping counters

A ring of `m` cells. Its positions are two 32-bit counters, which are reduced modulo `m`
only where a cell is accessed. When `m` divides `2 ^ 32`, the wrap of the counters does not
show: the ring is a queue of at most `m` elements.
-/

namespace CshellXv6.Lib

open Function List

structure Buffer (α : Type) where
  data : Nat → α
  nread : UInt32
  nwrite : UInt32

namespace Buffer

variable {α : Type} {m : Nat} {r : Buffer α} {x : α}

/-- The number of elements stored and not yet taken. -/
def count (r : Buffer α) : Nat := (r.nwrite - r.nread).toNat

def empty (r : Buffer α) : Bool := r.nread = r.nwrite

def full (m : Nat) (r : Buffer α) : Bool := r.nwrite = r.nread + UInt32.ofNat m

def store (m : Nat) (x : α) (r : Buffer α) : Buffer α :=
  { r with
    data := update r.data (r.nwrite.toNat % m) x
    nwrite := r.nwrite + 1 }

/-- The element stored first. -/
def head (m : Nat) (r : Buffer α) : α := r.data (r.nread.toNat % m)

def take (r : Buffer α) : Buffer α := { r with nread := r.nread + 1 }

/-- The elements in the order in which they were stored. -/
def contents (m : Nat) (r : Buffer α) : List α :=
  (List.range r.count).map fun d => r.data ((r.nread.toNat + d) % m)

lemma contents_of_empty (h : r.nread = r.nwrite) : r.contents m = [] := by
  have hcount : r.count = 0 := by simp [count, h]
  rw [contents, hcount]
  rfl

/-- The counters count modulo `2 ^ 32`. -/
lemma toNat_nwrite : r.nwrite.toNat = (r.nread.toNat + r.count) % 2 ^ 32 := by
  rw [count, UInt32.toNat_sub]
  have hread := r.nread.toNat_lt
  have hwrite := r.nwrite.toNat_lt
  omega

lemma count_lt (hle : r.count ≤ m) (hfull : r.full m = false) : r.count < m := by
  refine lt_of_le_of_ne hle fun heq => ?_
  have hofNat : UInt32.ofNat m = r.nwrite - r.nread := by
    rw [← heq, count, UInt32.ofNat_toNat]
  rw [full, hofNat, UInt32.add_comm, UInt32.sub_add_cancel] at hfull
  simp at hfull

lemma count_store (hm : m < 2 ^ 32) (hlt : r.count < m) : (r.store m x).count = r.count + 1 := by
  have hnwrite := r.toNat_nwrite
  have hread := r.nread.toNat_lt
  simp only [count, store, UInt32.toNat_sub, UInt32.toNat_add] at *
  simp only [UInt32.reduceToNat]
  omega

lemma count_take (hempty : r.empty = false) : r.take.count + 1 = r.count := by
  have hne : r.nread.toNat ≠ r.nwrite.toNat := by
    simpa [empty, UInt32.toNat_inj] using hempty
  have hread := r.nread.toNat_lt
  have hwrite := r.nwrite.toNat_lt
  simp only [count, take, UInt32.toNat_sub, UInt32.toNat_add, UInt32.reduceToNat]
  omega

variable (hdvd : m ∣ 2 ^ 32)
include hdvd

/-- The cell for the next element is the one behind the contents. -/
lemma nwrite_mod : r.nwrite.toNat % m = (r.nread.toNat + r.count) % m := by
  rw [toNat_nwrite, Nat.mod_mod_of_dvd _ hdvd]

/-- A new element goes behind the others and overwrites none of them. -/
lemma contents_store (hm : m < 2 ^ 32) (hlt : r.count < m) :
    (r.store m x).contents m = r.contents m ++ [x] := by
  rw [contents, count_store hm hlt, range_succ, map_append, contents]
  congr 1
  · refine map_congr_left fun d hd => ?_
    have hd' := mem_range.mp hd
    refine update_of_ne (fun heq => ?_) _ _
    -- two positions less than `m` apart are not the same cell
    rw [nwrite_mod hdvd] at heq
    have hmod : d % m = r.count % m := Nat.ModEq.add_left_cancel' r.nread.toNat heq
    rw [Nat.mod_eq_of_lt (hd'.trans hlt), Nat.mod_eq_of_lt hlt] at hmod
    omega
  · rw [map_singleton, store]
    simp only
    rw [← nwrite_mod hdvd, update_self]

lemma contents_take (hempty : r.empty = false) : r.contents m = r.head m :: r.take.contents m := by
  rw [contents, ← count_take hempty, range_succ_eq_map, map_cons, map_map]
  congr 1
  refine map_congr_left fun d _ => ?_
  have hnext : (r.nread + 1).toNat % m = (r.nread.toNat + 1) % m := by
    rw [UInt32.toNat_add, Nat.mod_mod_of_dvd _ hdvd]
    rfl
  change r.data _ = r.data (((r.nread + 1).toNat + d) % m)
  rw [Nat.add_mod (r.nread + 1).toNat, hnext, ← Nat.add_mod]
  congr 2
  simp only [Nat.succ_eq_add_one]
  omega

end Buffer

end CshellXv6.Lib
