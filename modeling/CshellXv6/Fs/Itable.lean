import CshellXv6.Fs.Truncate
import CshellXv6.Lib.Effects
import Mathlib.Data.Multiset.AddSub
import Mathlib.Data.Finset.Dedup

/-! # The inode table

The functions of `fs.c` that hand out inodes: `iget`, `ilock`, `iput`, `ialloc`.

An inode is known by its number. The entries of `itable` that are in use are a
multiset, with one element for each reference, so `ip->ref` is the multiplicity of
the inode; there is room for `NINODE` = 50 different inodes. The calls run one after
the other, so the locks are left out: `iunlock` does nothing and `iunlockput` is
`iput`.
-/

namespace CshellXv6.Fs

open Lib Function

/-- The panics of the functions in these modules. -/
inductive Panic where
  | igetNoInodes
  | ilock
  | ilockNoType
  | bmapOutOfRange
  | freeingFreeBlock
  | dirlookupNotDir
  | dirlookupRead
  | dirlinkRead
  | isdiremptyReadi
  | unlinkNlink
  | unlinkWritei
deriving DecidableEq, Repr

/-- `f->type` of an open file that is not a pipe. -/
inductive FileType where
  | inode
  | device
deriving DecidableEq, Repr

/-- `struct file`, as `sys_open` fills it in. -/
structure File where
  type : FileType
  readable : Bool
  writable : Bool
  ip : Nat
  off : Nat
  major : Int
deriving DecidableEq, Repr

/-- The fields of `struct proc` for files. -/
structure Proc where
  cwd : Nat
  ofile : Fin 16 → Option (Fin 100)

/-- What the file system keeps: the blocks, the inode table, the file table and the
processes. -/
structure State where
  disk : Disk
  /-- The copies of inodes in memory. -/
  mem : Nat → Inode
  /-- Whether the copy has been read from the disk. -/
  valid : Nat → Bool
  refs : Multiset Nat
  ftable : Fin 100 → Option File
  procs : Nat → Proc

/-- Kernel code. -/
abbrev KernelM (α : Type) : Type := StateT State (Except Panic) α

/-- The types of inodes. -/
abbrev tDir : Int := 1

abbrev tFile : Int := 2

abbrev tDevice : Int := 3

def rootIno : Nat := 1

section

variable (sb : Superblock)

def iget (inum : Nat) : KernelM Unit := do
  let s ← get
  if inum ∈ s.refs then set { s with refs := inum ::ₘ s.refs }
  else if s.refs.toFinset.card < 50 then
    set { s with refs := inum ::ₘ s.refs, valid := update s.valid inum false }
  else throw .igetNoInodes

def idup (inum : Nat) : KernelM Unit := do
  let s ← get
  set { s with refs := inum ::ₘ s.refs }

def ilock (inum : Nat) : KernelM Unit := do
  let s ← get
  if inum ∉ s.refs then throw .ilock
  else if s.valid inum = false then
    if (dinode sb s.disk inum).type = 0 then throw .ilockNoType
    else
      set { s with
        mem := update s.mem inum (dinode sb s.disk inum)
        valid := update s.valid inum true }
  else pure ()

/-- `ifree`: `dip->type = 0`. -/
def ifree (inum : Nat) (d : Disk) : Disk :=
  update d (iblock sb inum) ((d (iblock sb inum)).store 2 (inum % 16 * 64) 0)

/-- `iput`; the inode is freed if this was the last reference and it has no links. -/
def iput (inum : Nat) : KernelM Unit := do
  let s ← get
  if s.refs.count inum = 1 ∧ s.valid inum = true ∧ (s.mem inum).nlink = 0 then
    match itrunc sb inum (s.mem inum) s.disk with
    | none => throw .freeingFreeBlock
    | some (ip, d) =>
      set { s with
        mem := update s.mem inum ip
        valid := update s.valid inum false
        refs := s.refs.erase inum
        disk := ifree sb inum d }
  else set { s with refs := s.refs.erase inum }

/-- Some fields of a locked inode are set, and then `iupdate(ip)`. -/
def modifyInode (inum : Nat) (f : Inode → Inode) : KernelM Unit := do
  let s ← get
  set { s with
    mem := update s.mem inum (f (s.mem inum))
    disk := iupdate sb inum (f (s.mem inum)) s.disk }

/-- An inode as `ialloc` leaves it on the disk. -/
def Inode.fresh (type : Int) : Inode where
  type := type
  major := 0
  minor := 0
  nlink := 0
  size := 0
  addrs := fun _ => 0

/-- The search of `ialloc` for a free inode, from inode 1 on. -/
def freeInode (d : Disk) : Option Nat :=
  ((List.range sb.ninodes).drop 1).find? fun inum => (dinode sb d inum).type = 0

def ialloc (type : Int) : KernelM (Option Nat) := do
  let s ← get
  match freeInode sb s.disk with
  | none => return none
  | some inum => do
      set { s with disk := iupdate sb inum (Inode.fresh type) s.disk }
      iget inum
      return some inum

/-- `readi` of a locked inode into kernel memory. -/
def readInode (inum off n : Nat) : KernelM (List UInt8) := do
  let s ← get
  match readi sb (s.mem inum) off n s.disk with
  | none => throw .bmapOutOfRange
  | some (data, ip, d) => do
      set { s with mem := update s.mem inum ip, disk := d }
      return data

/-- `writei` of a locked inode from kernel memory. -/
def writeInode (inum : Nat) (src : List UInt8) (off : Nat) : KernelM Int := do
  let s ← get
  match writei sb inum (s.mem inum) (fun k => src.getD k 0) off src.length s.disk with
  | none => throw .bmapOutOfRange
  | some (r, ip, d) => do
      set { s with mem := update s.mem inum ip, disk := d }
      return r

end

end CshellXv6.Fs
