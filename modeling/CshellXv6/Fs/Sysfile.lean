import CshellXv6.Fs.Dir

/-! # The system calls on directories

`sys_link`, `sys_unlink`, `sys_open`, `sys_mkdir` and `sys_mknod` of `sysfile.c`, and
`create`, for a process `p`. A string argument is `none` if its address is bad. The
calls of `begin_op` and `end_op` are left out.
-/

namespace CshellXv6.Fs

open Lib Function

/-- `NLINK_MAX`. -/
abbrev nlinkMax : Int := 32767

/-- `argstr(n, buf, MAXPATH)`. -/
def argstr (arg : Option (List UInt8)) : Option (List UInt8) :=
  match arg with
  | none => none
  | some bytes =>
    let str := bytes.takeWhile (· ≠ 0)
    if str.length < 128 then some str else none

/-- `(short)` of an `int`. -/
def toShort (x : Int) : Int := asShort (ofShort x)

/-- `filealloc`: a free entry of the file table. -/
def filealloc (s : State) : Option (Fin 100) :=
  (List.finRange 100).find? fun f => (s.ftable f).isNone

/-- `fdalloc`: a free descriptor of process `p`. -/
def fdalloc (s : State) (p : Nat) : Option (Fin 16) :=
  (List.finRange 16).find? fun fd => ((s.procs p).ofile fd).isNone

/-- A statement under a condition. -/
def ifThen (c : Prop) [Decidable c] (act : KernelM Unit) : KernelM Unit :=
  if c then act else pure ()

section

variable (sb : Superblock)

/-! ## `sys_link` -/

/-- The label `bad` of `sys_link`. -/
def linkBad (ip : Nat) : KernelM Int := do
  ilock sb ip
  modifyInode sb ip fun inode => { inode with nlink := inode.nlink - 1 }
  iput sb ip
  return -1

/-- `sys_link`, when the link count of `ip` has been raised. -/
def linkInto (p : Nat) (new : List UInt8) (ip : Nat) : KernelM Int := do
  match ← nameiparent sb p new with
  | none => linkBad sb ip
  | some (dp, name) => do
      ilock sb dp
      let s ← get
      if (s.mem dp).nlink = 0 then
        iput sb dp
        linkBad sb ip
      else
        let r ← dirlink sb dp name ip
        if r < 0 then
          iput sb dp
          linkBad sb ip
        else
          iput sb dp
          iput sb ip
          return 0

def sysLink (p : Nat) (old new : Option (List UInt8)) : KernelM Int :=
  match argstr old, argstr new with
  | some old, some new => do
      match ← namei sb p old with
      | none => return -1
      | some ip => do
          ilock sb ip
          let s ← get
          if (s.mem ip).type = tDir then
            iput sb ip
            return -1
          else if nlinkMax ≤ (s.mem ip).nlink then
            iput sb ip
            return -1
          else
            modifyInode sb ip fun inode => { inode with nlink := inode.nlink + 1 }
            linkInto sb p new ip
  | _, _ => return -1

/-! ## `sys_unlink` -/

/-- `sys_unlink`, when the entry at `off` of `dp` is to be removed. -/
def unlinkEntry (dp ip off : Nat) : KernelM Int := do
  let r ← writeInode sb dp (List.replicate 16 0) off
  if r ≠ 16 then throw .unlinkWritei
  else
    let s ← get
    ifThen ((s.mem ip).type = tDir)
      (modifyInode sb dp fun inode => { inode with nlink := inode.nlink - 1 })
    iput sb dp
    modifyInode sb ip fun inode => { inode with nlink := inode.nlink - 1 }
    iput sb ip
    return 0

/-- `!(ip->type == T_DIR && !isdirempty(ip))`. -/
def removable (ip : Nat) (type : Int) : KernelM Bool :=
  if type = tDir then isdirempty sb ip else pure true

/-- `sys_unlink`, with the directory `dp` locked. -/
def unlinkIn (dp : Nat) (name : List UInt8) : KernelM Int := do
  if namecmp name dot = 0 ∨ namecmp name dotdot = 0 then
    iput sb dp
    return -1
  else
    match ← dirlookup sb dp name with
    | none => do
        iput sb dp
        return -1
    | some (ip, off) => do
        ilock sb ip
        let s ← get
        if (s.mem ip).nlink < 1 then throw .unlinkNlink
        else
          let empty ← removable sb ip (s.mem ip).type
          if empty then unlinkEntry sb dp ip off
          else
            iput sb ip
            iput sb dp
            return -1

def sysUnlink (p : Nat) (path : Option (List UInt8)) : KernelM Int :=
  match argstr path with
  | none => return -1
  | some path => do
      match ← nameiparent sb p path with
      | none => return -1
      | some (dp, name) => do
          ilock sb dp
          unlinkIn sb dp name

/-! ## `create` -/

/-- The label `fail` of `create`. -/
def createFail (dp ip : Nat) : KernelM (Option Nat) := do
  modifyInode sb ip fun inode => { inode with nlink := 0 }
  iput sb ip
  iput sb dp
  return none

/-- The entries `.` and `..` of a new directory. -/
def dirlinkDots (dp ip : Nat) (type : Int) : KernelM Int :=
  if type = tDir then do
    let r ← dirlink sb ip dot ip
    if r < 0 then return r else dirlink sb ip dotdot dp
  else return 0

/-- `create`, when inode `ip` has been allocated. -/
def createNew (dp : Nat) (name : List UInt8) (ip : Nat) (type major minor : Int) :
    KernelM (Option Nat) := do
  ilock sb ip
  modifyInode sb ip fun inode => { inode with major := major, minor := minor, nlink := 1 }
  let r ← dirlinkDots sb dp ip type
  if r < 0 then createFail sb dp ip
  else
    let r ← dirlink sb dp name ip
    if r < 0 then createFail sb dp ip
    else
      -- for ".."
      ifThen (type = tDir) (modifyInode sb dp fun inode => { inode with nlink := inode.nlink + 1 })
      iput sb dp
      return some ip

/-- `create`, when the name is there already. -/
def createOld (ip : Nat) (type : Int) : KernelM (Option Nat) := do
  ilock sb ip
  let s ← get
  if type = tFile ∧ ((s.mem ip).type = tFile ∨ (s.mem ip).type = tDevice) then return some ip
  else
    iput sb ip
    return none

def create (p : Nat) (path : List UInt8) (type major minor : Int) :
    KernelM (Option Nat) := do
  match ← nameiparent sb p path with
  | none => return none
  | some (dp, name) => do
      ilock sb dp
      let s ← get
      if (s.mem dp).nlink = 0 then
        iput sb dp
        return none
      else if type = tDir ∧ nlinkMax ≤ (s.mem dp).nlink then
        iput sb dp
        return none
      else
        match ← dirlookup sb dp name with
        | some (ip, _) => do
            iput sb dp
            createOld sb ip type
        | none => do
            match ← ialloc sb type with
            | none => do
                iput sb dp
                return none
            | some ip => createNew sb dp name ip type major minor

/-! ## `sys_open`, `sys_mkdir`, `sys_mknod` -/

/-- The bits of `fcntl.h`. -/
def oWronly : UInt32 := 0x001

def oRdwr : UInt32 := 0x002

def oCreate : UInt32 := 0x200

def oTrunc : UInt32 := 0x400

/-- The entry of the file table for an open file. -/
def openFile (ip : Nat) (inode : Inode) (omode : UInt32) : File where
  type := if inode.type = tDevice then .device else .inode
  readable := omode &&& oWronly = 0
  writable := omode &&& oWronly ≠ 0 ∨ omode &&& oRdwr ≠ 0
  ip := ip
  off := 0
  major := inode.major

/-- `itrunc` of a locked inode. -/
def truncInode (inum : Nat) : KernelM Unit := do
  let s ← get
  match itrunc sb inum (s.mem inum) s.disk with
  | none => throw .freeingFreeBlock
  | some (ip, d) => set { s with mem := update s.mem inum ip, disk := d }

/-- `sys_open`, with the inode locked. -/
def openInode (p : Nat) (ip : Nat) (omode : UInt32) : KernelM Int := do
  let s ← get
  if (s.mem ip).type = tDevice ∧ ((s.mem ip).major < 0 ∨ 10 ≤ (s.mem ip).major) then
    iput sb ip
    return -1
  else
    match filealloc s, fdalloc s p with
    | some f, some fd => do
        set { s with
          ftable := update s.ftable f (some (openFile ip (s.mem ip) omode))
          procs := update s.procs p { s.procs p with
            ofile := update (s.procs p).ofile fd (some f) } }
        ifThen (omode &&& oTrunc ≠ 0 ∧ (s.mem ip).type = tFile) (truncInode sb ip)
        return fd.val
    | _, _ => do
        iput sb ip
        return -1

def sysOpen (p : Nat) (path : Option (List UInt8)) (omode : UInt32) : KernelM Int :=
  match argstr path with
  | none => return -1
  | some path => do
      if omode &&& oCreate ≠ 0 then
        match ← create sb p path tFile 0 0 with
        | none => return -1
        | some ip => openInode sb p ip omode
      else
        match ← namei sb p path with
        | none => return -1
        | some ip => do
            ilock sb ip
            let s ← get
            if (s.mem ip).type = tDir ∧ omode ≠ 0 then
              iput sb ip
              return -1
            else openInode sb p ip omode

/-- What `sys_mkdir` and `sys_mknod` do with the path. -/
def makeInode (p : Nat) (path : Option (List UInt8)) (type major minor : Int) : KernelM Int :=
  match argstr path with
  | none => return -1
  | some path => do
      match ← create sb p path type major minor with
      | none => return -1
      | some ip => do
          iput sb ip
          return 0

def sysMkdir (p : Nat) (path : Option (List UInt8)) : KernelM Int :=
  makeInode sb p path tDir 0 0

def sysMknod (p : Nat) (path : Option (List UInt8)) (major minor : Int) : KernelM Int :=
  makeInode sb p path tDevice (toShort major) (toShort minor)

end

end CshellXv6.Fs
