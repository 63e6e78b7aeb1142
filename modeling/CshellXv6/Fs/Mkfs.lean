import CshellXv6.Fs.Image

/-! # mkfs

`mkfs.c` writes the first image of a file system: the superblock, a root directory,
one file for each argument, and last the bitmap. It has its own `ialloc`, `balloc` and
`iappend`, which give out inodes and blocks in order and never take one back.

The image file is open and takes every write. It has `FSSIZE` blocks from the first
loop on, so reading a sector behind them fails; and except for the superblock and the
bitmap, every sector is read before it is written. `none` is a failed assertion or
`die`. `xshort` and `xint` put numbers into the order in which the kernel reads them,
and so are part of how a number is stored.
-/

namespace CshellXv6.Fs.Mkfs

open Lib

/-! ## The layout -/

/-- `FSSIZE`. -/
def fsSize : Nat := 2000

/-- `NINODES`. -/
def nInodes : Nat := 200

def nbitmap : Nat := fsSize / 8192 + 1

def ninodeblocks : Nat := nInodes / 16 + 1

def nlog : Nat := logBlocks + 1

def nmeta : Nat := 2 + nlog + ninodeblocks + nbitmap

def nblocks : Nat := fsSize - nmeta

def sb : Superblock where
  size := fsSize
  ninodes := nInodes
  inodestart := 2 + nlog
  bmapstart := 2 + nlog + ninodeblocks

/-- The fields of `struct superblock`, in their order. -/
def superblock : List Nat :=
  [fsmagic, sb.size, nblocks, sb.ninodes, nlog, 2, sb.inodestart, sb.bmapstart]

/-- `memset(buf, 0, sizeof(buf)); memmove(buf, &sb, sizeof(sb));` -/
def superblockBuf : Block :=
  (List.range 8).foldl (fun buf k => setWord buf k (superblock.getD k 0)) Bytes.zero

/-! ## Sectors and inodes -/

structure State where
  disk : Disk
  freeinode : Nat
  freeblock : Nat

def wsect (d : Disk) (sec : Nat) (buf : Block) : Disk := Function.update d sec buf

def rsect (d : Disk) (sec : Nat) : Option Block := if sec < fsSize then some (d sec) else none

def winode (inum : Nat) (ip : Inode) (d : Disk) : Option Disk := do
  let buf ← rsect d (iblock sb inum)
  return wsect d (iblock sb inum) (putInode ip buf (inum % 16 * 64))

def rinode (inum : Nat) (d : Disk) : Option Inode := do
  let buf ← rsect d (iblock sb inum)
  return getInode buf (inum % 16 * 64)

/-- `bzero(&din, sizeof(din))`. -/
def blank : Inode := ⟨0, 0, 0, 0, 0, fun _ => 0⟩

def ialloc (type : Int) (st : State) : Option (Nat × State) := do
  let inum := st.freeinode
  let disk ← winode inum { blank with type := type, nlink := 1 } st.disk
  return (inum, { st with disk := disk, freeinode := st.freeinode + 1 })

/-! ## `iappend` -/

/-- `if (xint(din.addrs[k]) == 0) { din.addrs[k] = xint(freeblock++); }` -/
def takeAddr (din : Inode) (k : Fin 13) (st : State) : Inode × State :=
  if din.addrs k = 0 then
    (din.setAddr k st.freeblock, { st with freeblock := st.freeblock + 1 })
  else (din, st)

/-- The same for an entry of the block `indirect` at `sec`, which is written back. -/
def takeEntry (indirect : Block) (sec n : Nat) (st : State) : Block × State :=
  if word indirect n = 0 then
    (setWord indirect n st.freeblock,
      { st with
        disk := wsect st.disk sec (setWord indirect n st.freeblock)
        freeblock := st.freeblock + 1 })
  else (indirect, st)

/-- The block `x` of the file that `iappend` goes on with. -/
def findBlock (din : Inode) (fbn : Nat) (st : State) : Option (Nat × Inode × State) :=
  if h : fbn < 12 then
    match takeAddr din ⟨fbn, direct_lt h⟩ st with
    | (din, st) => some (din.addrs ⟨fbn, direct_lt h⟩, din, st)
  else
    match takeAddr din 12 st with
    | (din, st) =>
      (rsect st.disk (din.addrs 12)).map fun indirect =>
        match takeEntry indirect (din.addrs 12) (fbn - 12) st with
        | (indirect, st) => (word indirect (fbn - 12), din, st)

/-- One round of the loop: `n1` of the bytes `p` go to `off`. -/
def appendRound (p : List UInt8) (off : Nat) (din : Inode) (st : State) :
    Option (Nat × Inode × State) :=
  let fbn := off / 1024
  if fbn < 268 then
    (findBlock din fbn st).bind fun (x, din, st) =>
      let n1 := min p.length ((fbn + 1) * 1024 - off)
      (rsect st.disk x).map fun buf =>
        (n1, din, { st with
          disk := wsect st.disk x (buf.put (off - fbn * 1024) (fun k => p.getD k 0) n1) })
  else none

/-- `while (n > 0)`, where `n` is the length of `p`; a round takes at least one byte. -/
def appendLoop : Nat → List UInt8 → Nat → Inode → State → Option (Nat × Inode × State)
  | 0, _, off, din, st => some (off, din, st)
  | fuel + 1, p, off, din, st =>
    if 0 < p.length then
      (appendRound p off din st).bind fun (n1, din, st) =>
        appendLoop fuel (p.drop n1) (off + n1) din st
    else some (off, din, st)

def iappend (inum : Nat) (p : List UInt8) (st : State) : Option State := do
  let din ← rinode inum st.disk
  let (off, din, st) ← appendLoop p.length p din.size din st
  let disk ← winode inum { din with size := off } st.disk
  return { st with disk := disk }

/-! ## `balloc` -/

/-- `buf` with the bits of the first `used` blocks. -/
def bitmap (used : Nat) : Block :=
  (List.range used).foldl
    (fun buf i => buf.put (i / 8) (fun _ => buf.get (i / 8) ||| mask (i % 8)) 1) Bytes.zero

def balloc (used : Nat) (d : Disk) : Option Disk :=
  if used < 8192 then some (wsect d sb.bmapstart (bitmap used)) else none

/-! ## `main` -/

/-- An argument, and what there is to read. -/
structure Input where
  path : List UInt8
  /-- What the calls of `read` give before the last, which gives nothing; `none` if the
  file cannot be opened. -/
  reads : Option (List (List UInt8))
  string : 0 ∉ path
  chunks : ∀ cs ∈ reads, ∀ c ∈ cs, 0 < c.length ∧ c.length ≤ 1024

/-- `"user/"`. -/
def user : List UInt8 := [117, 115, 101, 114, 47]

/-- The argument without `user/`. -/
def Input.shortname (f : Input) : List UInt8 :=
  if strncmp 5 f.path user = 0 then f.path.drop 5 else f.path

/-- The name in the file system, without a leading `_`. -/
def Input.name (f : Input) : List UInt8 :=
  if f.shortname.headD 0 = 95 then f.shortname.drop 1 else f.shortname

/-- The bytes of a `struct dirent`. -/
def dirent (inum : Nat) (name : List UInt8) : List UInt8 :=
  Dirent.toBytes ⟨inum, strncpy 14 name⟩

/-- The loop that copies the file. -/
def copyFile (inum : Nat) : List (List UInt8) → State → Option State
  | [], st => some st
  | buf :: bufs, st => (iappend inum buf st).bind (copyFile inum bufs)

/-- One round of the loop over the arguments. -/
def addFile (f : Input) (st : State) : Option State :=
  if slash ∈ f.shortname then none
  else
    f.reads.bind fun bufs =>
      if f.name.length ≤ 14 then
        (ialloc tFile st).bind fun (inum, st) =>
          (iappend rootIno (dirent inum f.name) st).bind (copyFile inum bufs)
      else none

def addFiles : List Input → State → Option State
  | [], st => some st
  | f :: fs, st => (addFile f st).bind (addFiles fs)

/-- The disk before the first inode. -/
def start : State where
  disk := wsect (fun _ => Bytes.zero) 1 superblockBuf
  freeinode := 1
  freeblock := nmeta

/-- The root directory with its first two entries. -/
def makeRoot (st : State) : Option State :=
  (ialloc tDir st).bind fun (rootino, st) =>
    if rootino = rootIno then
      (iappend rootino (dirent rootino dot) st).bind (iappend rootino (dirent rootino dotdot))
    else none

/-- `off = ((off / BSIZE) + 1) * BSIZE` for the size of the root directory. -/
def fixRoot (d : Disk) : Option Disk := do
  let din ← rinode rootIno d
  winode rootIno { din with size := (din.size / 1024 + 1) * 1024 } d

def mkfs (files : List Input) : Option Disk := do
  let st ← makeRoot start
  let st ← addFiles files st
  let disk ← fixRoot st.disk
  balloc st.freeblock disk

end CshellXv6.Fs.Mkfs
