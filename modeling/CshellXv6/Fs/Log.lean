import CshellXv6.Lib.Bytes
import CshellXv6.Lib.Words
import CshellXv6.Lib.Writes

/-! # The log of the file system

`log.c` without its locks: copying blocks into the log, the header block that
decides whether a transaction has happened, installing, and recovery. A state
has the blocks as the buffer cache gives them and the list of block writes the
disk has been asked to carry out, in order, since the machine was started. The
disk after a crash is the disk of the start with some first part of that list
carried out.
-/

namespace CshellXv6.Fs

open Lib

/-- The contents of a block, `BSIZE` bytes. -/
abbrev Block := Bytes 1024

/-- The block of each number. -/
abbrev Disk := Nat → Block

/-- `MAXOPBLOCKS`. -/
def maxOpBlocks : Nat := 10

/-- `LOGBLOCKS`. -/
def logBlocks : Nat := maxOpBlocks * 3

/-- `((uint *)b)[i]`. -/
def word (b : Block) (i : Nat) : Nat := b.load 4 (4 * i)

/-- `((uint *)b)[i] = v`. -/
def setWord (b : Block) (i v : Nat) : Block := b.store 4 (4 * i) v

variable {i j : Nat}

lemma word_setWord_self (b : Block) (v : Nat) (hi : i < 256) :
    word (setWord b i v) i = v % 2 ^ 32 :=
  Bytes.load_store b (4 * i) 4 v (by omega)

lemma word_setWord_of_ne (b : Block) (v : Nat) (h : j ≠ i) : word (setWord b i v) j = word b j :=
  Bytes.load_store_of_disjoint b (4 * j) (4 * i) 4 v 4 (by omega)

structure LogState where
  /-- What `bread` gives. -/
  cache : Disk
  /-- `log.lh.block`, as far as `log.lh.n` goes. -/
  lh : List Nat
  /-- The block writes so far. -/
  writes : List (Nat × Block)

/-- `bwrite`. -/
def LogState.bwrite (s : LogState) (b : Nat) : LogState :=
  { s with writes := s.writes ++ [(b, s.cache b)] }

/-- A buffer is changed and written. -/
def LogState.writeBlock (s : LogState) (b : Nat) (data : Block) : LogState :=
  { s with cache := Function.update s.cache b data }.bwrite b

-- `log.start`
variable (start : Nat)

/-- Copy the modified blocks to the log. -/
def writeLog (s : LogState) : LogState :=
  s.lh.zipIdx.foldl (fun s p => s.writeBlock (start + p.2 + 1) (s.cache p.1)) s

/-- Copy the blocks of the log to their homes. -/
def installTrans (s : LogState) : LogState :=
  s.lh.zipIdx.foldl (fun s p => s.writeBlock p.1 (s.cache (start + p.2 + 1))) s

/-- The header block: `n`, then the block numbers. -/
def putHead (lh : List Nat) (hb : Block) : Block :=
  lh.zipIdx.foldl (fun hb p => setWord hb (1 + p.2) p.1) (setWord hb 0 lh.length)

def writeHead (s : LogState) : LogState := s.writeBlock start (putHead s.lh (s.cache start))

/-- The block numbers of a header block; none if `n` is negative. -/
def getHead (hb : Block) : List Nat :=
  (List.range (toInt (word hb 0)).toNat).map fun i => word hb (1 + i)

def readHead (s : LogState) : LogState := { s with lh := getHead (s.cache start) }

def recoverFromLog (s : LogState) : LogState :=
  writeHead start { installTrans start (readHead start s) with lh := [] }

def commit (s : LogState) : LogState :=
  if s.lh.length > 0 then
    writeHead start { installTrans start (writeHead start (writeLog start s)) with lh := [] }
  else s

/-! ## Transactions and crashes -/

/-- Blocks outside the log. -/
def Home (b : Nat) : Prop := b < start ∨ start + logBlocks < b

instance (b : Nat) : Decidable (Home start b) := inferInstanceAs (Decidable (_ ∨ _))

/-- What the operations of a transaction have changed when it commits. -/
structure Transaction where
  writes : List (Nat × Block)
  distinct : (writes.map Prod.fst).Nodup
  bounded : writes.length ≤ logBlocks
  home : ∀ w ∈ writes, Home start w.1
  fits : ∀ w ∈ writes, w.1 < 2 ^ 32

variable {start}

/-- The operations change the buffers and log their block numbers. -/
def LogState.perform (s : LogState) (t : Transaction start) : LogState :=
  { s with cache := applyWrites t.writes s.cache, lh := t.writes.map Prod.fst }

/-- The blocks after the transactions. -/
def applyAll (ts : List (Transaction start)) (d : Disk) : Disk :=
  ts.foldl (fun d t => applyWrites t.writes d) d

/-- The machine is switched on: nothing is cached. -/
def boot (d : Disk) : LogState := ⟨d, [], []⟩

/-- The machine is switched on and runs the transactions. -/
def uptime (d : Disk) (ts : List (Transaction start)) : LogState :=
  ts.foldl (fun s t => commit start (s.perform t)) (recoverFromLog start (boot d))

/-- The disk after a crash that lets `k` of the block writes through. -/
def LogState.crash (s : LogState) (d : Disk) (k : Nat) : Disk := applyWrites (s.writes.take k) d

variable (start) in
/-- Recovery is tried again and again, and each time interrupted. -/
def interrupted (ks : List Nat) (d : Disk) : Disk :=
  ks.foldl (fun d k => (recoverFromLog start (boot d)).crash d k) d

variable (start) in
/-- Recovery runs to its end. -/
def recovery (d : Disk) : Disk := applyWrites (recoverFromLog start (boot d)).writes d

end CshellXv6.Fs
