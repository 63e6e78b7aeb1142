import CshellXv6.Fs.Blocks

/-! # Inodes

The inode of `fs.c` in memory and on the disk, and the functions that work on
the contents of a file: `bmap`, `itrunc`, `readi`, `writei`. The copies are
from and to kernel memory, which cannot fail. `none` is a panic.

`NDIRECT` is 12, `NINDIRECT` is 256, `MAXFILE` is 268; a `struct dinode` has 64
bytes, and there are 16 in a block.
-/

namespace CshellXv6.Fs

open Lib Function List

/-- One instance for the numerals of `Fin 13` everywhere. -/
instance neZero_addrs : NeZero 13 := ⟨by decide⟩

variable {bn : Nat}

/-- A direct block has its address in the inode. -/
lemma direct_lt (h : bn < 12) : bn < 13 := by omega

structure Inode where
  type : Int
  major : Int
  minor : Int
  nlink : Int
  size : Nat
  addrs : Fin 13 → Nat
deriving DecidableEq

/-- Two bytes as a `short`. -/
def asShort (v : Nat) : Int := if v < 2 ^ 15 then v else v - 2 ^ 16

/-- A `short` as two bytes. -/
def ofShort (x : Int) : Nat := (x % 2 ^ 16).toNat

/-- The `struct dinode` at offset `o` of a block. -/
def getInode (b : Block) (o : Nat) : Inode where
  type := asShort (b.load 2 o)
  major := asShort (b.load 2 (o + 2))
  minor := asShort (b.load 2 (o + 4))
  nlink := asShort (b.load 2 (o + 6))
  size := b.load 4 (o + 8)
  addrs := fun k => b.load 4 (o + 12 + 4 * k.val)

/-- `memmove(dip->addrs, ip->addrs, sizeof(ip->addrs))`, for the addresses `ks`. -/
def putAddrs (addrs : Fin 13 → Nat) (ks : List (Fin 13)) (b : Block) (o : Nat) : Block :=
  ks.foldl (fun b k => b.store 4 (o + 12 + 4 * k.val) (addrs k)) b

def putInode (ip : Inode) (b : Block) (o : Nat) : Block :=
  let b := b.store 2 o (ofShort ip.type)
  let b := b.store 2 (o + 2) (ofShort ip.major)
  let b := b.store 2 (o + 4) (ofShort ip.minor)
  let b := b.store 2 (o + 6) (ofShort ip.nlink)
  let b := b.store 4 (o + 8) ip.size
  putAddrs ip.addrs (List.finRange 13) b o

section

variable (sb : Superblock)

/-- `IBLOCK(inum, sb)`. -/
def iblock (inum : Nat) : Nat := inum / 16 + sb.inodestart

/-- The inode on the disk. -/
def dinode (d : Disk) (inum : Nat) : Inode := getInode (d (iblock sb inum)) (inum % 16 * 64)

/-- `iupdate`. -/
def iupdate (inum : Nat) (ip : Inode) (d : Disk) : Disk :=
  update d (iblock sb inum) (putInode ip (d (iblock sb inum)) (inum % 16 * 64))

def Inode.setAddr (ip : Inode) (k : Fin 13) (addr : Nat) : Inode :=
  { ip with addrs := update ip.addrs k addr }

/-- `if((addr = ip->addrs[k]) == 0) { addr = balloc(..); ..; ip->addrs[k] = addr; }` -/
def bmapAddr (ip : Inode) (k : Fin 13) (d : Disk) : Nat × Inode × Disk :=
  if ip.addrs k = 0 then
    match balloc sb d with
    | (addr, d) => if addr = 0 then (0, ip, d) else (addr, ip.setAddr k addr, d)
  else (ip.addrs k, ip, d)

/-- The part of `bmap` that looks into the indirect block. -/
def bmapEntry (ind j : Nat) (d : Disk) : Nat × Disk :=
  if word (d ind) j = 0 then
    match balloc sb d with
    | (addr, d) =>
      if addr ≠ 0 then (addr, update d ind (setWord (d ind) j addr)) else (0, d)
  else (word (d ind) j, d)

/-- `bmap`: the address of block `bn` of the file, 0 if there is no free block. -/
def bmap (ip : Inode) (bn : Nat) (d : Disk) : Option (Nat × Inode × Disk) :=
  if h : bn < 12 then some (bmapAddr sb ip ⟨bn, by omega⟩ d)
  else if bn - 12 < 256 then
    match bmapAddr sb ip 12 d with
    | (ind, ip, d) =>
      if ind = 0 then some (0, ip, d)
      else
        match bmapEntry sb ind (bn - 12) d with
        | (addr, d) => some (addr, ip, d)
  else none

/-- The loop of `itrunc` over the direct blocks. -/
def itruncDirect (ip : Inode) (d : Disk) : List (Fin 13) → Option (Inode × Disk)
  | [] => some (ip, d)
  | k :: ks =>
    if ip.addrs k ≠ 0 then
      (bfree sb d (ip.addrs k)).bind fun d => itruncDirect (ip.setAddr k 0) d ks
    else itruncDirect ip d ks

/-- The loop of `itrunc` over the entries of the indirect block. -/
def itruncEntries (a : Block) (d : Disk) : List Nat → Option Disk
  | [] => some d
  | j :: js =>
    if word a j ≠ 0 then (bfree sb d (word a j)).bind fun d => itruncEntries a d js
    else itruncEntries a d js

/-- The part of `itrunc` for the indirect block. -/
def itruncIndirect (ip : Inode) (d : Disk) : Option (Inode × Disk) :=
  if ip.addrs 12 ≠ 0 then
    (itruncEntries sb (d (ip.addrs 12)) d (List.range 256)).bind fun d =>
      (bfree sb d (ip.addrs 12)).map fun d => (ip.setAddr 12 0, d)
  else some (ip, d)

/-- The direct addresses. -/
def direct : List (Fin 13) := (List.finRange 12).map Fin.castSucc

def itrunc (inum : Nat) (ip : Inode) (d : Disk) : Option (Inode × Disk) :=
  (itruncDirect sb ip d direct).bind fun (ip, d) =>
    (itruncIndirect sb ip d).map fun (ip, d) =>
      let ip := { ip with size := 0 }
      (ip, iupdate sb inum ip d)

/-- The loop of `readi`; `data` are the bytes copied so far, `tot` of them. -/
def readLoop (n : Nat) : Nat → Nat → Nat → List UInt8 → Inode → Disk →
    Option (List UInt8 × Inode × Disk)
  | 0, _, _, data, ip, d => some (data, ip, d)
  | fuel + 1, tot, off, data, ip, d =>
    if tot < n then
      (bmap sb ip (off / 1024) d).bind fun (addr, ip, d) =>
        if addr = 0 then some (data, ip, d)
        else
          let m := min (n - tot) (1024 - off % 1024)
          readLoop n fuel (tot + m) (off + m)
            (data ++ (List.range m).map fun k => (d addr).get (off % 1024 + k)) ip d
    else some (data, ip, d)

/-- `readi`: the bytes that are copied; their number is the result. -/
def readi (ip : Inode) (off n : Nat) (d : Disk) : Option (List UInt8 × Inode × Disk) :=
  if off > ip.size ∨ (off + n) % 2 ^ 32 < off then some ([], ip, d)
  else
    let n := if (off + n) % 2 ^ 32 > ip.size then ip.size - off else n
    readLoop sb n n 0 off [] ip d

/-- The loop of `writei`, with the bytes from `src` on. -/
def writeLoop (src : Nat → UInt8) (n : Nat) : Nat → Nat → Nat → Inode → Disk →
    Option (Nat × Nat × Inode × Disk)
  | 0, tot, off, ip, d => some (tot, off, ip, d)
  | fuel + 1, tot, off, ip, d =>
    if tot < n then
      (bmap sb ip (off / 1024) d).bind fun (addr, ip, d) =>
        if addr = 0 then some (tot, off, ip, d)
        else
          let m := min (n - tot) (1024 - off % 1024)
          writeLoop src n fuel (tot + m) (off + m) ip
            (update d addr ((d addr).put (off % 1024) (fun k => src (tot + k)) m))
    else some (tot, off, ip, d)

/-- `writei`: -1, or the number of bytes that were written. -/
def writei (inum : Nat) (ip : Inode) (src : Nat → UInt8) (off n : Nat) (d : Disk) :
    Option (Int × Inode × Disk) :=
  if off > ip.size ∨ (off + n) % 2 ^ 32 < off then some (-1, ip, d)
  else if (off + n) % 2 ^ 32 > 268 * 1024 then some (-1, ip, d)
  else
    (writeLoop sb src n n 0 off ip d).map fun (tot, off, ip, d) =>
      let ip := if off > ip.size then { ip with size := off } else ip
      (tot, ip, iupdate sb inum ip d)

end

/-! ## The inode on the disk -/

section

variable {addrs : Fin 13 → Nat} {ks : List (Fin 13)} {b : Block} {o p w v : Nat} {ip : Inode}
  {x : Int}

lemma load_putAddrs_of_disjoint (h : p + w ≤ o + 12 ∨ o + 64 ≤ p) :
    (putAddrs addrs ks b o).load w p = b.load w p := by
  induction ks generalizing b with
  | nil => rfl
  | cons k ks ih =>
    have hk := k.isLt
    rw [putAddrs, foldl_cons, ← putAddrs, ih]
    exact Bytes.load_store_of_disjoint _ _ _ _ _ _ (by omega)

lemma load_putAddrs (k : Fin 13) (ho : o + 64 ≤ 1024) :
    (putAddrs addrs ks b o).load 4 (o + 12 + 4 * k.val) =
      if k ∈ ks then addrs k % 2 ^ 32 else b.load 4 (o + 12 + 4 * k.val) := by
  induction ks generalizing b with
  | nil => rfl
  | cons k' ks ih =>
    have hk := k.isLt
    rw [putAddrs, foldl_cons, ← putAddrs, ih]
    by_cases hmem : k ∈ ks
    · rw [if_pos hmem, if_pos (mem_cons_of_mem k' hmem)]
    rw [if_neg hmem]
    by_cases heq : k = k'
    · subst heq
      rw [if_pos mem_cons_self, Bytes.load_store _ _ _ _ (by omega)]
      norm_num
    have hval : k.val ≠ k'.val := fun h => heq (Fin.ext h)
    rw [if_neg (by simp [heq, hmem]), Bytes.load_store_of_disjoint _ _ _ _ _ _ (by omega)]

/-- The inode can be stored in a `struct dinode`. -/
structure Inode.Fits (ip : Inode) : Prop where
  type : -2 ^ 15 ≤ ip.type ∧ ip.type < 2 ^ 15
  major : -2 ^ 15 ≤ ip.major ∧ ip.major < 2 ^ 15
  minor : -2 ^ 15 ≤ ip.minor ∧ ip.minor < 2 ^ 15
  nlink : -2 ^ 15 ≤ ip.nlink ∧ ip.nlink < 2 ^ 15
  size : ip.size < 2 ^ 32
  addrs : ∀ k, ip.addrs k < 2 ^ 32

lemma asShort_ofShort (h : -2 ^ 15 ≤ x ∧ x < 2 ^ 15) : asShort (ofShort x % 256 ^ 2) = x := by
  unfold asShort ofShort
  split <;> omega

lemma asShort_bounds (h : v < 256 ^ 2) : -2 ^ 15 ≤ asShort v ∧ asShort v < 2 ^ 15 := by
  unfold asShort
  split <;> omega

lemma getInode_fits (b : Block) (o : Nat) : (getInode b o).Fits where
  type := asShort_bounds (Bytes.load_lt _ _ _)
  major := asShort_bounds (Bytes.load_lt _ _ _)
  minor := asShort_bounds (Bytes.load_lt _ _ _)
  nlink := asShort_bounds (Bytes.load_lt _ _ _)
  size := Bytes.load_lt b (o + 8) 4
  addrs := fun k => Bytes.load_lt b (o + 12 + 4 * k.val) 4

/-- An inode is read back as it was written. -/
lemma getInode_putInode (h : ip.Fits) (ho : o + 64 ≤ 1024) : getInode (putInode ip b o) o = ip := by
  obtain ⟨type, major, minor, nlink, size, addrs⟩ := ip
  obtain ⟨htype, hmajor, hminor, hnlink, hsize, haddrs⟩ := h
  simp only [getInode, putInode, Inode.mk.injEq]
  refine ⟨?_, ?_, ?_, ?_, ?_, ?_⟩
  · simp (disch := omega) only [load_putAddrs_of_disjoint, Bytes.load_store_of_disjoint,
      Bytes.load_store]
    exact asShort_ofShort htype
  · simp (disch := omega) only [load_putAddrs_of_disjoint, Bytes.load_store_of_disjoint,
      Bytes.load_store]
    exact asShort_ofShort hmajor
  · simp (disch := omega) only [load_putAddrs_of_disjoint, Bytes.load_store_of_disjoint,
      Bytes.load_store]
    exact asShort_ofShort hminor
  · simp (disch := omega) only [load_putAddrs_of_disjoint, Bytes.load_store_of_disjoint,
      Bytes.load_store]
    exact asShort_ofShort hnlink
  · simp (disch := omega) only [load_putAddrs_of_disjoint, Bytes.load_store]
    exact Nat.mod_eq_of_lt hsize
  funext k
  rw [load_putAddrs k ho, if_pos (mem_finRange k)]
  exact Nat.mod_eq_of_lt (haddrs k)

lemma load_putInode_of_disjoint (h : p + w ≤ o ∨ o + 64 ≤ p) :
    (putInode ip b o).load w p = b.load w p := by
  simp (disch := omega) only [putInode, load_putAddrs_of_disjoint, Bytes.load_store_of_disjoint]

/-- The other inodes of the block stay. -/
lemma getInode_putInode_of_disjoint (h : p + 64 ≤ o ∨ o + 64 ≤ p) :
    getInode (putInode ip b o) p = getInode b p := by
  simp only [getInode, Inode.mk.injEq]
  refine ⟨?_, ?_, ?_, ?_, ?_, ?_⟩
  · rw [load_putInode_of_disjoint (by omega)]
  · rw [load_putInode_of_disjoint (by omega)]
  · rw [load_putInode_of_disjoint (by omega)]
  · rw [load_putInode_of_disjoint (by omega)]
  · rw [load_putInode_of_disjoint (by omega)]
  funext k
  have hk := k.isLt
  rw [load_putInode_of_disjoint (by omega)]

end

section

variable {sb : Superblock} {d d' : Disk} {inum i b : Nat} {ip : Inode}

lemma dinode_fits : (dinode sb d inum).Fits := getInode_fits _ _

lemma dinode_iupdate_self (h : ip.Fits) : dinode sb (iupdate sb inum ip d) inum = ip := by
  rw [dinode, iupdate, update_self]
  exact getInode_putInode h (by omega)

lemma dinode_iupdate_of_ne (h : i ≠ inum) : dinode sb (iupdate sb inum ip d) i = dinode sb d i := by
  rw [dinode, dinode, iupdate]
  by_cases hblock : iblock sb i = iblock sb inum
  · have hdiv : i / 16 = inum / 16 := Nat.add_right_cancel hblock
    rw [hblock, update_self]
    exact getInode_putInode_of_disjoint (by omega)
  · rw [update_of_ne hblock]

/-- Inodes are read from their own blocks. -/
lemma dinode_congr (h : d' (iblock sb inum) = d (iblock sb inum)) :
    dinode sb d' inum = dinode sb d inum := by
  rw [dinode, dinode, h]

lemma iupdate_of_ne (h : b ≠ iblock sb inum) : iupdate sb inum ip d b = d b :=
  update_of_ne h _ _

end

end CshellXv6.Fs
