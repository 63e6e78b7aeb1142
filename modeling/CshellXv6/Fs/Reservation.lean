import CshellXv6.Fs.Log
import CshellXv6.Lib.Rules
import CshellXv6.Lib.Totals

/-! # Operations that share a transaction

The part of `log.c` that runs under `log.lock`: operations enter with
`begin_op`, which reserves room for `MAXOPBLOCKS` blocks, log their blocks with
`log_write`, and leave with `end_op`; the last one to leave commits for all of
them, without the lock. `sys_sync` waits for a commit. Each critical section is
one step, and the steps of all processes are interleaved.
-/

namespace CshellXv6.Fs.Reservation

open Lib

/-- An operation: its number, and the distinct blocks it has logged. -/
structure Op where
  id : Nat
  blocks : List Nat
deriving DecidableEq, Repr

/-- Where a process is. -/
inductive Pc where
  | idle
  /-- In the loop of `begin_op`. -/
  | beginning
  /-- Between `begin_op` and `end_op`. -/
  | active (op : Op)
  /-- In `end_op`, about to call `commit`. -/
  | committing
  /-- In `commit`, when the header is on the disk. -/
  | installing
  /-- In `end_op`, back from `commit`. -/
  | committed
  /-- In the loop of `sys_sync`, waiting for commit number `n`; `owed` are the
  operations that had ended when it was called. -/
  | syncing (n : Int) (owed : List Op)
  /-- About to return from `sys_sync`. -/
  | synced (owed : List Op)
deriving DecidableEq, Repr

/-- The operation of a process. -/
def Pc.op : Pc → Option Op
  | .active op => some op
  | _ => none

inductive Panic where
  | tooBigATransaction
  | logWriteOutsideOfTrans
  | logCommitting
deriving DecidableEq, Repr

def Panic.text : Panic → String
  | .tooBigATransaction => "too big a transaction"
  | .logWriteOutsideOfTrans => "log_write outside of trans"
  | .logCommitting => "log.committing"

/-- `struct log`, the processes, and which operations have ended: `pending`
ones wait for the commit, `durable` ones have had all their blocks in a header
that was written. -/
structure State (P : Type) where
  outstanding : Int
  committing : Bool
  ncommit : Int
  lh : List Nat
  pc : P → Pc
  nextOp : Nat
  pending : List Op
  durable : List Op
  panicked : Option Panic

inductive Label (P : Type) where
  | beginOp (p : P)
  /-- A round of the loop of `begin_op`. -/
  | tryBegin (p : P)
  | logWrite (p : P) (b : Nat)
  | endOp (p : P)
  /-- `commit`, up to the header. -/
  | writeHead (p : P)
  /-- `commit`, the rest. -/
  | clear (p : P)
  /-- The end of `end_op`. -/
  | finish (p : P)
  | sync (p : P)
  /-- A round of the loop of `sys_sync`. -/
  | trySync (p : P)
  | syncReturn (p : P)
deriving DecidableEq, Repr

/-- The loop of `log_write`: the block is looked for, and appended when it is
not there. -/
def absorb (b : Nat) : List Nat → List Nat
  | [] => [b]
  | b' :: lh => if b' = b then b :: lh else b' :: absorb b lh

section

variable {P : Type} [DecidableEq P]

def State.start : State P where
  outstanding := 0
  committing := false
  ncommit := 0
  lh := []
  pc := fun _ => .idle
  nextOp := 0
  pending := []
  durable := []
  panicked := none

def State.goto (s : State P) (p : P) (pc : Pc) : State P :=
  { s with pc := Function.update s.pc p pc }

/-- The operations that have decremented `outstanding`. -/
def State.ended (s : State P) : List Op := s.durable ++ s.pending

/-- A round of the loop of `begin_op`. -/
def State.tryBegin (s : State P) (p : P) : State P :=
  if s.committing then s
  else if (s.lh.length : Int) + (s.outstanding + 1) * maxOpBlocks > logBlocks then s
  else
    { s with outstanding := s.outstanding + 1, nextOp := s.nextOp + 1 }.goto p
      (.active ⟨s.nextOp, []⟩)

def State.logWrite (s : State P) (p : P) (op : Op) (b : Nat) : State P :=
  if s.lh.length ≥ logBlocks then { s with panicked := some .tooBigATransaction }
  else if s.outstanding < 1 then { s with panicked := some .logWriteOutsideOfTrans }
  else { s with lh := absorb b s.lh }.goto p (.active { op with blocks := absorb b op.blocks })

def State.endOp (s : State P) (p : P) (op : Op) : State P :=
  let s := { s with outstanding := s.outstanding - 1, pending := s.pending ++ [op] }
  if s.committing then { s with panicked := some .logCommitting }
  else if s.outstanding = 0 then { s with committing := true }.goto p .committing
  else s.goto p .idle

/-- The operations whose blocks are all in the header become durable. -/
def State.writeHead (s : State P) (p : P) : State P :=
  { s with
    durable := s.durable ++ s.pending.filter fun op : Op => op.blocks ⊆ s.lh
    pending := s.pending.filter fun op : Op => ¬ op.blocks ⊆ s.lh }.goto p .installing

def State.sync (s : State P) (p : P) : State P :=
  if s.committing ∨ s.outstanding > 0 then s.goto p (.syncing (toInt (s.ncommit + 1)) s.ended)
  else s.goto p (.synced s.ended)

/-- The steps of a process, by its place. -/
def State.act (s : State P) (p : P) : Label P → Pc → Option (State P)
  | .beginOp _, .idle => some (s.goto p .beginning)
  | .tryBegin _, .beginning => some (s.tryBegin p)
  | .logWrite _ b, .active op => some (s.logWrite p op b)
  | .endOp _, .active op => some (s.endOp p op)
  | .writeHead _, .committing => some (s.writeHead p)
  | .clear _, .installing => some ({ s with lh := [] }.goto p .committed)
  | .finish _, .committed =>
    some ({ s with committing := false, ncommit := toInt (s.ncommit + 1) }.goto p .idle)
  | .sync _, .idle => some (s.sync p)
  | .trySync _, .syncing n owed => some (if s.ncommit < n then s else s.goto p (.synced owed))
  | .syncReturn _, .synced _ => some (s.goto p .idle)
  | _, _ => none

def Label.process : Label P → P
  | .beginOp p | .tryBegin p | .logWrite p _ | .endOp p | .writeHead p | .clear p | .finish p
  | .sync p | .trySync p | .syncReturn p => p

/-- After a panic nothing moves. -/
def step (l : Label P) (s : State P) : Option (State P) :=
  if s.panicked = none then s.act l.process l (s.pc l.process) else none

/-- Each operation logs at most `MAXOPBLOCKS` distinct blocks. -/
def withinBudget : Label P → State P → Prop
  | .logWrite p b, s => ∀ op ∈ (s.pc p).op, (absorb b op.blocks).length ≤ maxOpBlocks
  | _, _ => True

/-- No operation logs a block again while the header is full, and `sys_sync` does
not have to wait for a commit when their number is the greatest `int`. -/
def sparesLimits : Label P → State P → Prop
  | .logWrite p b, s => ∀ op ∈ (s.pc p).op, b ∈ op.blocks → s.lh.length < logBlocks
  | .sync _, s => s.committing ∨ s.outstanding > 0 → s.ncommit < 2 ^ 31 - 1
  | _, _ => True

def careful (l : Label P) (s : State P) : Prop := withinBudget l s ∧ sparesLimits l s

instance (l : Label P) (s : State P) : Decidable (withinBudget l s) := by
  unfold withinBudget
  apply @Label.casesOn _ _ l
  all_goals intros; infer_instance

instance (l : Label P) (s : State P) : Decidable (sparesLimits l s) := by
  unfold sparesLimits
  apply @Label.casesOn _ _ l
  all_goals intros; infer_instance

instance (l : Label P) (s : State P) : Decidable (careful l s) :=
  inferInstanceAs (Decidable (_ ∧ _))

/-- What a step does and when it is possible. -/
inductive Move (s : State P) : Label P → State P → Prop where
  | begin {p : P} (pc : s.pc p = .idle) : Move s (.beginOp p) (s.goto p .beginning)
  | blocked {p : P} : Move s (.tryBegin p) s
  | enter {p : P} (pc : s.pc p = .beginning) (free : s.committing = false)
      (room : (s.lh.length : Int) + (s.outstanding + 1) * maxOpBlocks ≤ logBlocks) :
      Move s (.tryBegin p)
        ({ s with outstanding := s.outstanding + 1, nextOp := s.nextOp + 1 }.goto p
          (.active ⟨s.nextOp, []⟩))
  | tooBig {p : P} {b : Nat} {op : Op} (pc : s.pc p = .active op)
      (full : logBlocks ≤ s.lh.length) :
      Move s (.logWrite p b) { s with panicked := some .tooBigATransaction }
  | outside {p : P} {b : Nat} {op : Op} (pc : s.pc p = .active op) (none : s.outstanding < 1) :
      Move s (.logWrite p b) { s with panicked := some .logWriteOutsideOfTrans }
  | log {p : P} {b : Nat} {op : Op} (pc : s.pc p = .active op)
      (room : s.lh.length < logBlocks) :
      Move s (.logWrite p b)
        ({ s with lh := absorb b s.lh }.goto p (.active { op with blocks := absorb b op.blocks }))
  | endPanic {p : P} {op : Op} (pc : s.pc p = .active op) (busy : s.committing = true) :
      Move s (.endOp p)
        { s with outstanding := s.outstanding - 1, pending := s.pending ++ [op],
                 panicked := some .logCommitting }
  | last {p : P} {op : Op} (pc : s.pc p = .active op) (free : s.committing = false)
      (zero : s.outstanding = 1) :
      Move s (.endOp p)
        ({ s with outstanding := s.outstanding - 1, pending := s.pending ++ [op],
                  committing := true }.goto p .committing)
  | leave {p : P} {op : Op} (pc : s.pc p = .active op) (free : s.committing = false)
      (others : s.outstanding ≠ 1) :
      Move s (.endOp p)
        ({ s with outstanding := s.outstanding - 1, pending := s.pending ++ [op] }.goto p .idle)
  | writeHead {p : P} (pc : s.pc p = .committing) : Move s (.writeHead p) (s.writeHead p)
  | clear {p : P} (pc : s.pc p = .installing) :
      Move s (.clear p) ({ s with lh := [] }.goto p .committed)
  | finish {p : P} (pc : s.pc p = .committed) :
      Move s (.finish p)
        ({ s with committing := false, ncommit := toInt (s.ncommit + 1) }.goto p .idle)
  | syncWait {p : P} (pc : s.pc p = .idle) (busy : s.committing = true ∨ 0 < s.outstanding) :
      Move s (.sync p) (s.goto p (.syncing (toInt (s.ncommit + 1)) s.ended))
  | syncNow {p : P} (pc : s.pc p = .idle) (free : s.committing = false)
      (quiet : s.outstanding ≤ 0) : Move s (.sync p) (s.goto p (.synced s.ended))
  | stillSyncing {p : P} : Move s (.trySync p) s
  | syncEnd {p : P} {n : Int} {owed : List Op} (pc : s.pc p = .syncing n owed)
      (reached : n ≤ s.ncommit) : Move s (.trySync p) (s.goto p (.synced owed))
  | syncReturn {p : P} {owed : List Op} (pc : s.pc p = .synced owed) :
      Move s (.syncReturn p) (s.goto p .idle)

variable {s s' : State P} {l : Label P}

/-- Every step is a move. -/
lemma Move.of_step (h : step l s = some s') : Move s l s' := by
  obtain ⟨-, h⟩ := Option.ite_none_right_eq_some.mp h
  generalize hpc : s.pc l.process = pc at h
  unfold State.act at h
  split at h
  all_goals cases h
  · exact .begin hpc
  · rw [State.tryBegin]
    split
    · exact .blocked
    split
    · exact .blocked
    next hbusy hroom => exact .enter hpc (by simpa using hbusy) (by omega)
  · rw [State.logWrite]
    split
    next hfull => exact .tooBig hpc hfull
    · split
      next hnone => exact .outside hpc hnone
      next hroom _ => exact .log hpc (by omega)
  · simp only [State.endOp]
    split
    next hbusy => exact .endPanic hpc hbusy
    · split
      next hfree hzero => exact .last hpc (by simpa using hfree) (by omega)
      next hfree hzero => exact .leave hpc (by simpa using hfree) (by omega)
  · exact .writeHead hpc
  · exact .clear hpc
  · exact .finish hpc
  · rw [State.sync]
    split
    next hbusy => exact .syncWait hpc hbusy
    next hfree =>
      obtain ⟨hfree, hquiet⟩ := not_or.mp hfree
      exact .syncNow hpc (by simpa using hfree) (by omega)
  · split
    · exact .stillSyncing
    next hreached => exact .syncEnd hpc (by omega)
  · exact .syncReturn hpc

end

end CshellXv6.Fs.Reservation
