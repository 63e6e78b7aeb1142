import CshellXv6.Fs.Itable

/-! # Directories and paths

A directory is a file of `struct dirent`s, of 16 bytes each: two for the number of
the inode, and 14 (`DIRSIZ`) for the name. Strings end with a zero byte or with
the list.
-/

namespace CshellXv6.Fs

open Lib List

/-! ## Strings -/

/-- `strncmp` of `string.c`. -/
def strncmp : Nat → List UInt8 → List UInt8 → Int
  | 0, _, _ => 0
  | n + 1, p, q =>
    if p.headD 0 ≠ 0 ∧ p.headD 0 = q.headD 0 then strncmp n p.tail q.tail
    else (p.headD 0).toNat - (q.headD 0).toNat

/-- The `n` bytes that `strncpy` writes. -/
def strncpy : Nat → List UInt8 → List UInt8
  | 0, _ => []
  | n + 1, t =>
    if t.headD 0 ≠ 0 then t.headD 0 :: strncpy n t.tail
    else List.replicate (n + 1) 0

def namecmp (s t : List UInt8) : Int := strncmp 14 s t

/-- `"."`. -/
def dot : List UInt8 := [46]

/-- `".."`. -/
def dotdot : List UInt8 := [46, 46]

/-- `struct dirent`. -/
structure Dirent where
  inum : Nat
  name : List UInt8
deriving DecidableEq, Repr

def getDirent (data : List UInt8) : Dirent where
  inum := (data.getD 0 0).toNat + 256 * (data.getD 1 0).toNat
  name := data.drop 2

/-- The bytes of a `struct dirent`; `inum` is a `ushort`. -/
def Dirent.toBytes (de : Dirent) : List UInt8 :=
  UInt8.ofNat de.inum :: UInt8.ofNat (de.inum / 256) :: de.name

/-! ## Directories -/

section

variable (sb : Superblock)

/-- The loops over a directory: from `off` on, up to an entry for which `p` holds.
The result is the offset at the end of the loop, with the entry if there is one. -/
def scanDir (dp : Nat) (short : Panic) (p : Dirent → Bool) :
    Nat → Nat → KernelM (Nat × Option Dirent)
  | 0, off => return (off, none)
  | fuel + 1, off => do
      let s ← get
      if off < (s.mem dp).size then
        let data ← readInode sb dp off 16
        if data.length ≠ 16 then throw short
        else if p (getDirent data) then return (off, some (getDirent data))
        else scanDir dp short p fuel (off + 16)
      else return (off, none)

/-- A loop as above, with enough fuel for the size of the directory. -/
def scan (dp : Nat) (short : Panic) (p : Dirent → Bool) (off : Nat) :
    KernelM (Nat × Option Dirent) := do
  let s ← get
  scanDir sb dp short p (s.mem dp).size off

/-- `dirlookup`: the inode of the entry, and its offset. -/
def dirlookup (dp : Nat) (name : List UInt8) : KernelM (Option (Nat × Nat)) := do
  let s ← get
  if (s.mem dp).type ≠ tDir then throw .dirlookupNotDir
  else
    match ← scan sb dp .dirlookupRead (fun de => de.inum ≠ 0 ∧ namecmp name de.name = 0) 0 with
    | (off, some de) => do
        iget de.inum
        return some (de.inum, off)
    | (_, none) => return none

def dirlink (dp : Nat) (name : List UInt8) (inum : Nat) : KernelM Int := do
  match ← dirlookup sb dp name with
  | some (ip, _) => do
      iput sb ip
      return -1
  | none => do
      let (off, _) ← scan sb dp .dirlinkRead (fun de => de.inum = 0) 0
      let r ← writeInode sb dp (Dirent.toBytes ⟨inum, strncpy 14 name⟩) off
      if r ≠ 16 then return -1 else return 0

/-- Is the directory empty except for `.` and `..`? -/
def isdirempty (dp : Nat) : KernelM Bool := do
  match ← scan sb dp .isdiremptyReadi (fun de => de.inum ≠ 0) 32 with
  | (_, some _) => return false
  | (_, none) => return true

/-! ## Paths -/

/-- `'/'`. -/
def slash : UInt8 := 47

/-- `skipelem`: the first element of the path, cut off after 14 bytes, and the path
behind it, without slashes at its front. -/
def skipelem (path : List UInt8) : Option (List UInt8 × List UInt8) :=
  match path.dropWhile (· = slash) with
  | [] => none
  | c :: cs => some (((c :: cs).takeWhile (· ≠ slash)).take 14,
      ((c :: cs).dropWhile (· ≠ slash)).dropWhile (· = slash))

lemma skipelem_length {path name rest : List UInt8} (h : skipelem path = some (name, rest)) :
    rest.length < path.length := by
  unfold skipelem at h
  have hle : (path.dropWhile (· = slash)).length ≤ path.length :=
    (dropWhile_suffix _).length_le
  have hhead := List.head?_dropWhile_not (fun c => decide (c = slash)) path
  split at h
  · cases h
  next c cs heq =>
    cases h
    rw [heq] at hle hhead
    have hc : c ≠ slash := by simpa using hhead
    rw [dropWhile_cons_of_pos (by simpa using hc)]
    have h1 : ((cs.dropWhile (· ≠ slash)).dropWhile (· = slash)).length ≤
        (cs.dropWhile (· ≠ slash)).length := (dropWhile_suffix _).length_le
    have h2 : (cs.dropWhile (· ≠ slash)).length ≤ cs.length := (dropWhile_suffix _).length_le
    simp only [length_cons] at hle
    omega

/-- The loop of `namex`, at inode `ip` with `path` to go. -/
def namexLoop (parent : Bool) (ip : Nat) (path : List UInt8) :
    KernelM (Option (Nat × List UInt8)) :=
  match _h : skipelem path with
  | none => do
      if parent then
        iput sb ip
        return none
      else return some (ip, [])
  | some (name, rest) => do
      ilock sb ip
      let s ← get
      if (s.mem ip).type ≠ tDir then
        iput sb ip
        return none
      else if (s.mem ip).nlink = 0 then
        iput sb ip
        return none
      else if parent ∧ rest = [] then
        -- stop one level early
        return some (ip, name)
      else
        match ← dirlookup sb ip name with
        | none => do
            iput sb ip
            return none
        | some (next, _) => do
            iput sb ip
            namexLoop parent next rest
termination_by path.length
decreasing_by exact skipelem_length _h

/-- `namex`, for process `p`. -/
def namex (p : Nat) (path : List UInt8) (parent : Bool) :
    KernelM (Option (Nat × List UInt8)) := do
  if path.head? = some slash then
    iget rootIno
    namexLoop sb parent rootIno path
  else
    let s ← get
    idup (s.procs p).cwd
    namexLoop sb parent (s.procs p).cwd path

def namei (p : Nat) (path : List UInt8) : KernelM (Option Nat) := do
  match ← namex sb p path false with
  | none => return none
  | some (ip, _) => return some ip

def nameiparent (p : Nat) (path : List UInt8) : KernelM (Option (Nat × List UInt8)) :=
  namex sb p path true

end

end CshellXv6.Fs
