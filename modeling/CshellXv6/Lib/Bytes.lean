import Mathlib.Data.Nat.Bitwise
import Mathlib.Tactic

/-! # Bytes

Buffers of a fixed number of bytes, numbers in little-endian order in them, the
copying of a range of bytes, and the single bits of a byte. Reading outside a buffer gives zero;
writing outside it does nothing.
-/

namespace CshellXv6.Lib

/-- A buffer of `n` bytes. -/
def Bytes (n : Nat) : Type := Fin n → UInt8

namespace Bytes

variable {n : Nat}

instance : DecidableEq (Bytes n) := inferInstanceAs (DecidableEq (Fin n → UInt8))

/-- `memset(b, 0, n)`. -/
def zero : Bytes n := fun _ => 0

def get (b : Bytes n) (i : Nat) : UInt8 := if h : i < n then b ⟨i, h⟩ else 0

/-- `memmove(b + off, src, len)`. -/
def put (b : Bytes n) (off : Nat) (src : Nat → UInt8) (len : Nat) : Bytes n :=
  fun i => if off ≤ i.val ∧ i.val < off + len then src (i.val - off) else b i

variable (b : Bytes n) (off len i : Nat) (src : Nat → UInt8)

@[simp] lemma get_zero : (zero : Bytes n).get i = 0 := by
  simp [get, zero]

lemma get_of_le (h : n ≤ i) : b.get i = 0 := by
  simp [get, h]

lemma get_put (hi : i < n) :
    (b.put off src len).get i = if off ≤ i ∧ i < off + len then src (i - off) else b.get i := by
  simp [get, put, hi]

lemma get_put_of_mem (hi : i < n) (h : off ≤ i) (h' : i < off + len) :
    (b.put off src len).get i = src (i - off) := by
  rw [get_put b off len i src hi, if_pos ⟨h, h'⟩]

lemma get_put_of_notMem (h : i < off ∨ off + len ≤ i) : (b.put off src len).get i = b.get i := by
  by_cases hi : i < n
  · rw [get_put b off len i src hi, if_neg (by omega)]
  · rw [get_of_le _ _ (by omega), get_of_le _ _ (by omega)]

/-! ## Numbers -/

/-- The number in the `w` bytes from `off` on. -/
def load (w : Nat) (b : Bytes n) (off : Nat) : Nat :=
  match w with
  | 0 => 0
  | w + 1 => (b.get off).toNat + 256 * load w b (off + 1)

/-- Byte `i` of a number. -/
def digit (v i : Nat) : UInt8 := UInt8.ofNat (v / 256 ^ i)

/-- Put a number into the `w` bytes from `off` on. -/
def store (w : Nat) (b : Bytes n) (off v : Nat) : Bytes n := b.put off (digit v) w

variable (w v : Nat)

lemma load_lt : load w b off < 256 ^ w := by
  induction w generalizing off with
  | zero => simp [load]
  | succ w ih =>
    have hbyte : (b.get off).toNat < 256 := (b.get off).toNat_lt
    have hrest := ih (off + 1)
    rw [load, pow_succ]
    omega

/-- Only the bytes of the number matter. -/
lemma load_congr {m : Nat} (c : Bytes m) (off' : Nat)
    (h : ∀ i, i < w → b.get (off + i) = c.get (off' + i)) : load w b off = load w c off' := by
  induction w generalizing off off' with
  | zero => rfl
  | succ w ih =>
    have hfirst : b.get off = c.get off' := h 0 (Nat.succ_pos w)
    have hrest : load w b (off + 1) = load w c (off' + 1) := by
      refine ih (off + 1) (off' + 1) ?_
      intro i hi
      have := h (i + 1) (by omega)
      rwa [Nat.add_right_comm, Nat.add_right_comm off', ← Nat.add_assoc, ← Nat.add_assoc] at *
    rw [load, load, hfirst, hrest]

lemma load_digits {m : Nat} (c : Bytes m) (k : Nat)
    (h : ∀ i, i < w → c.get (off + i) = digit v (k + i)) :
    load w c off = v / 256 ^ k % 256 ^ w := by
  induction w generalizing off k with
  | zero => simp [load, Nat.mod_one]
  | succ w ih =>
    have hfirst : (c.get off).toNat = v / 256 ^ k % 256 := by
      have := h 0 (Nat.succ_pos w)
      simp only [Nat.add_zero] at this
      simp [this, digit]
    have hrest : load w c (off + 1) = v / 256 ^ (k + 1) % 256 ^ w := by
      refine ih (off + 1) (k + 1) ?_
      intro i hi
      have := h (i + 1) (by omega)
      rwa [← Nat.add_assoc, ← Nat.add_assoc, Nat.add_right_comm, Nat.add_right_comm k] at this
    rw [load, hfirst, hrest, pow_succ 256 k, ← Nat.div_div_eq_div_mul, pow_succ', Nat.mod_mul]

/-- A number is read back as it was stored, up to its width. -/
lemma load_store (h : off + w ≤ n) : load w (store w b off v) off = v % 256 ^ w := by
  have hbytes : ∀ i, i < w → (store w b off v).get (off + i) = digit v (0 + i) := by
    intro i hi
    rw [store, get_put_of_mem _ _ _ _ _ (by omega) (by omega) (by omega)]
    congr 1
    omega
  rw [load_digits off w v _ 0 hbytes]
  simp

/-- Numbers next to a stored one are as before. -/
lemma load_put_of_disjoint (h : off + w ≤ i ∨ i + len ≤ off) :
    load w (b.put i src len) off = load w b off := by
  refine load_congr _ _ _ _ _ ?_
  intro j hj
  exact get_put_of_notMem _ _ _ _ _ (by omega)

lemma load_store_of_disjoint (w' : Nat) (h : off + w ≤ i ∨ i + w' ≤ off) :
    load w (store w' b i v) off = load w b off :=
  load_put_of_disjoint b off w' i _ w h

lemma load_zero : load w (zero : Bytes n) off = 0 := by
  induction w generalizing off with
  | zero => rfl
  | succ w ih => simp [load, ih]

end Bytes

/-! ## Bits -/

/-- `1 << k`. -/
def mask (k : Nat) : UInt8 := 1 <<< UInt8.ofNat k

/-- `(x & (1 << k)) != 0`. -/
def hasBit (x : UInt8) (k : Nat) : Bool := x &&& mask k ≠ 0

section

variable {x : UInt8} {j k : Nat}

lemma toNat_mask (hk : k < 8) : (mask k).toNat = 2 ^ k := by
  interval_cases k <;> rfl

lemma hasBit_eq_testBit (hk : k < 8) : hasBit x k = x.toNat.testBit k := by
  have hne : x &&& mask k ≠ 0 ↔ x.toNat &&& 2 ^ k ≠ 0 := by
    rw [← toNat_mask hk, ← UInt8.toNat_and, ne_eq, ne_eq, ← UInt8.toNat_inj]
    rfl
  rw [hasBit, Bool.eq_iff_iff, decide_eq_true_iff, hne, Nat.and_two_pow]
  cases x.toNat.testBit k <;> simp

lemma hasBit_or_mask (hj : j < 8) (hk : k < 8) :
    hasBit (x ||| mask k) j = (decide (j = k) || hasBit x j) := by
  rw [hasBit_eq_testBit hj, hasBit_eq_testBit hj, UInt8.toNat_or, toNat_mask hk,
    Nat.testBit_or, Nat.testBit_two_pow, Bool.or_comm]
  simp [eq_comm]

lemma hasBit_and_not_mask (hj : j < 8) (hk : k < 8) :
    hasBit (x &&& ~~~ mask k) j = (decide (j ≠ k) && hasBit x j) := by
  have hnot : (~~~ mask k).toNat = 2 ^ 8 - (2 ^ k + 1) := by
    interval_cases k <;> rfl
  rw [hasBit_eq_testBit hj, hasBit_eq_testBit hj, UInt8.toNat_and, hnot, Nat.testBit_and,
    Nat.testBit_two_pow_sub_succ (by interval_cases k <;> decide), Nat.testBit_two_pow]
  simp [hj, eq_comm, Bool.and_comm]

end

end CshellXv6.Lib
