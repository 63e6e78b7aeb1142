import CshellXv6.Lib.Rings
import CshellXv6.Lib.Rules

/-! # Pipes

`pipewrite` and `piperead` move bytes through a ring of `PIPESIZE` bytes, one at a time.
A call holds `pi->lock` except while it sleeps, so what a pipe does is a sequence of loop
iterations of the calls, in any order that the lock allows. Whether the process has been
killed and what `copyin` and `copyout` answer is decided at each iteration.

The bytes stored and the bytes copied to readers are kept as history.
-/

namespace CshellXv6.Kernel.Pipes

open Lib List

/-- `struct pipe`. -/
structure Pipe where
  ring : Buffer UInt8
  readopen : Bool
  writeopen : Bool

/-- Where a call is. At the first and the fourth point it waits for the lock, before its
loop or after `sleep`. -/
inductive Pc where
  | out
  | writeAcquire (n : Int) (i : Nat)
  | writing (n : Int) (i : Nat)
  | readAcquire (n : Int)
  | waiting (n : Int)
  | reading (n : Int) (i : Nat)
  | returned (r : Int)

structure State where
  pipe : Pipe
  lock : Option Nat
  pc : Nat → Pc
  stored : List UInt8
  delivered : List UInt8

inductive Label where
  | pipewrite (c : Nat) (n : Int)
  | piperead (c : Nat) (n : Int)
  | acquire (c : Nat)
  | run (c : Nat) (killed : Bool) (copyin : Option UInt8) (copyout : Bool)
  | pipeclose (writable : Bool)

/-- The pipe of `pipealloc`, with all its calls still to come. Its counters start at 0; any
other value `k` is where they are after some use. -/
def State.init (data : Nat → UInt8) (k : UInt32) : State :=
  ⟨⟨⟨data, k, k⟩, true, true⟩, none, fun _ => .out, [], []⟩

def State.goto (s : State) (c : Nat) (pc : Pc) : State :=
  { s with pc := Function.update s.pc c pc }

/-- `release(&pi->lock)`. -/
def State.release (s : State) (c : Nat) (pc : Pc) : State := { s.goto c pc with lock := none }

/-- What a call returns after `i` bytes when a copy fails: `if (i == 0) i = -1`. -/
def cut (i : Nat) : Int := if i = 0 then -1 else i

/-- One iteration of the loop of `pipewrite`. -/
def writeLoop (c : Nat) (n : Int) (i : Nat) (killed : Bool) (copyin : Option UInt8)
    (s : State) : State :=
  if i < n then
    if s.pipe.readopen = false ∨ killed then s.release c (.returned (-1))
    else if s.pipe.ring.full 512 then s.release c (.writeAcquire n i)
    else
      match copyin with
      | none => s.release c (.returned (cut i))
      | some ch =>
        { s.goto c (.writing n (i + 1)) with
          pipe := { s.pipe with ring := s.pipe.ring.store 512 ch }
          stored := s.stored ++ [ch] }
  else s.release c (.returned i)

/-- One iteration of the loop of `piperead` that waits for a byte. -/
def waitLoop (c : Nat) (n : Int) (killed : Bool) (s : State) : State :=
  if s.pipe.ring.empty ∧ s.pipe.writeopen then
    if killed then s.release c (.returned (-1)) else s.release c (.readAcquire n)
  else s.goto c (.reading n 0)

/-- One iteration of the loop of `piperead` that copies. -/
def readLoop (c : Nat) (n : Int) (i : Nat) (copyout : Bool) (s : State) : State :=
  if i < n then
    if s.pipe.ring.empty then s.release c (.returned i)
    else if copyout then
      { s.goto c (.reading n (i + 1)) with
        pipe := { s.pipe with ring := s.pipe.ring.take }
        delivered := s.delivered ++ [s.pipe.ring.head 512] }
    else s.release c (.returned (cut i))
  else s.release c (.returned i)

def step : Label → State → Option State
  | .pipewrite c n, s =>
    match s.pc c with
    | .out => some (s.goto c (.writeAcquire n 0))
    | _ => none
  | .piperead c n, s =>
    match s.pc c with
    | .out => some (s.goto c (.readAcquire n))
    | _ => none
  | .acquire c, s =>
    match s.lock, s.pc c with
    | none, .writeAcquire n i => some { s.goto c (.writing n i) with lock := some c }
    | none, .readAcquire n => some { s.goto c (.waiting n) with lock := some c }
    | _, _ => none
  | .run c killed copyin copyout, s =>
    if s.lock = some c then
      match s.pc c with
      | .writing n i => some (writeLoop c n i killed copyin s)
      | .waiting n => some (waitLoop c n killed s)
      | .reading n i => some (readLoop c n i copyout s)
      | _ => none
    else none
  | .pipeclose writable, s =>
    if s.lock = none then
      some { s with pipe :=
        if writable then { s.pipe with writeopen := false } else { s.pipe with readopen := false } }
    else none

/-! ## What a step does to the bytes -/

/-- A step leaves ring and history alone, stores a byte, or takes one out for a reader. -/
inductive Moved (s s' : State) : Prop where
  | same (ring : s'.pipe.ring = s.pipe.ring) (stored : s'.stored = s.stored)
      (delivered : s'.delivered = s.delivered)
  | store (ch : UInt8) (room : s.pipe.ring.full 512 = false)
      (ring : s'.pipe.ring = s.pipe.ring.store 512 ch) (stored : s'.stored = s.stored ++ [ch])
      (delivered : s'.delivered = s.delivered)
  | take (some : s.pipe.ring.empty = false) (ring : s'.pipe.ring = s.pipe.ring.take)
      (stored : s'.stored = s.stored)
      (delivered : s'.delivered = s.delivered ++ [s.pipe.ring.head 512])

variable {s s' : State} {l : Label} {c i : Nat} {n : Int} {killed copyout : Bool}
variable {copyin : Option UInt8}

lemma Moved.goto (pc : Pc) : Moved s (s.goto c pc) := .same rfl rfl rfl

lemma Moved.release (pc : Pc) : Moved s (s.release c pc) := .same rfl rfl rfl

lemma moved_writeLoop : Moved s (writeLoop c n i killed copyin s) := by
  unfold writeLoop
  split_ifs with hn hdead hfull
  · exact Moved.release _
  · exact Moved.release _
  · cases copyin with
    | none => exact Moved.release _
    | some ch => exact .store ch (by simpa using hfull) rfl rfl rfl
  · exact Moved.release _

lemma moved_waitLoop : Moved s (waitLoop c n killed s) := by
  unfold waitLoop
  split_ifs
  · exact Moved.release _
  · exact Moved.release _
  · exact Moved.goto _

lemma moved_readLoop : Moved s (readLoop c n i copyout s) := by
  unfold readLoop
  split_ifs with hn hempty hcopy
  · exact Moved.release _
  · exact .take (by simpa using hempty) rfl rfl rfl
  · exact Moved.release _
  · exact Moved.release _

lemma Moved.of_step (h : step l s = some s') : Moved s s' := by
  cases l with
  | pipewrite c n | piperead c n =>
    simp only [step] at h
    split at h
    · cases h
      exact Moved.goto _
    · cases h
  | acquire c =>
    simp only [step] at h
    split at h
    · cases h
      exact .same rfl rfl rfl
    · cases h
      exact .same rfl rfl rfl
    · cases h
  | run c killed copyin copyout =>
    obtain ⟨-, h⟩ := Option.ite_none_right_eq_some.mp h
    split at h
    · cases h
      exact moved_writeLoop
    · cases h
      exact moved_waitLoop
    · cases h
      exact moved_readLoop
    · cases h
  | pipeclose writable =>
    obtain ⟨-, rfl⟩ := of_guard h
    cases writable
    all_goals exact .same rfl rfl rfl

/-! ## The queue -/

/-- What has been stored and not been read is in the ring. -/
structure Queued (s : State) : Prop where
  bytes : s.stored = s.delivered ++ s.pipe.ring.contents 512
  bound : s.pipe.ring.count ≤ 512

lemma Queued.init (data : Nat → UInt8) (k : UInt32) : Queued (State.init data k) where
  bytes := (Buffer.contents_of_empty rfl).symm
  bound := by simp [State.init, Buffer.count]

lemma Queued.moved (h : Queued s) (hm : Moved s s') : Queued s' := by
  cases hm with
  | same hring hstored hdelivered =>
    constructor
    · rw [hstored, hdelivered, hring, h.bytes]
    · rw [hring]
      exact h.bound
  | store ch hroom hring hstored hdelivered =>
    have hlt := Buffer.count_lt h.bound hroom
    constructor
    · rw [hstored, hdelivered, hring, Buffer.contents_store (by decide) (by decide) hlt, h.bytes,
        append_assoc]
    · rw [hring, Buffer.count_store (by decide) hlt]
      exact hlt
  | take hsome hring hstored hdelivered =>
    constructor
    · rw [hstored, hdelivered, hring, h.bytes, Buffer.contents_take (by decide) hsome, append_assoc]
      rfl
    have hcount := Buffer.count_take hsome
    have hbound := h.bound
    rw [hring]
    omega

lemma Queued.length (h : Queued s) : s.stored.length = s.delivered.length + s.pipe.ring.count := by
  rw [h.bytes, length_append, Buffer.contents, length_map, length_range]

/-- The byte that a reader looks at is the one after those delivered. -/
lemma Queued.next (h : Queued s) (hsome : s.pipe.ring.empty = false) :
    s.delivered ++ [s.pipe.ring.head 512] <+: s.stored := by
  refine ⟨s.pipe.ring.take.contents 512, ?_⟩
  rw [h.bytes, Buffer.contents_take (by decide) hsome, append_assoc]
  rfl

/-- When `copyout` fails, the call gives up the lock and returns. -/
lemma readLoop_failed : ∃ r, readLoop c n i false s = s.release c (.returned r) := by
  unfold readLoop
  split_ifs with hn hempty hcopy
  · exact ⟨_, rfl⟩
  · cases hcopy
  · exact ⟨_, rfl⟩
  · exact ⟨_, rfl⟩

/-- **A pipe is a queue.** Whatever the calls, their lengths and their order, and wherever the
counters started: what readers have got is a prefix of what writers have stored, at most 512
bytes are in between, and a byte that `copyout` could not deliver is still the next one. -/
theorem pipe_fifo {data : Nat → UInt8} {k : UInt32} {ls : List Label}
    (hrun : Run step anyStep (State.init data k) ls s) :
    s.delivered <+: s.stored ∧ s.stored.length ≤ s.delivered.length + 512 ∧
      ∀ c n i killed copyin s', s.pc c = .reading n i →
        step (.run c killed copyin false) s = some s' →
        s'.pipe = s.pipe ∧ s'.delivered = s.delivered ∧
          (s.pipe.ring.empty = false → s'.delivered ++ [s.pipe.ring.head 512] <+: s'.stored) := by
  have h : Queued s := hrun.invariant Queued (Queued.init data k) fun _ _ _ _ hs h =>
    h.moved (Moved.of_step hs)
  refine ⟨⟨_, h.bytes.symm⟩, ?_, ?_⟩
  · have hlength := h.length
    have hbound := h.bound
    omega
  intro c n i killed copyin s' hpc hstep
  obtain ⟨-, hstep⟩ := Option.ite_none_right_eq_some.mp hstep
  obtain ⟨r, hfailed⟩ := readLoop_failed (s := s) (c := c) (n := n) (i := i)
  rw [hpc] at hstep
  cases hstep
  rw [hfailed]
  exact ⟨rfl, rfl, h.next⟩

/-- A reader waits for a writer, gets two of its three bytes, and cannot take the third. -/
def wrapping : List Label :=
  [.piperead 1 3, .acquire 1, .run 1 false none true, .pipewrite 0 3, .acquire 0,
    .run 0 false (some 104) true, .run 0 false (some 105) true, .run 0 false (some 106) true,
    .run 0 false none true, .acquire 1, .run 1 false none true, .run 1 false none true,
    .run 1 false none true, .run 1 false none false]

theorem pipe_fifo_wraps :
    ∃ s, Run step anyStep (State.init (fun _ => 0) 4294967295) wrapping s ∧
      (s.stored = [104, 105, 106] ∧ s.delivered = [104, 105] ∧ s.pipe.ring.nread = 1) ∧
      s.delivered <+: s.stored ∧ s.stored.length ≤ s.delivered.length + 512 := by
  refine Run.exists_imp (P := fun s => s.stored = [104, 105, 106] ∧ s.delivered = [104, 105] ∧
    s.pipe.ring.nread = 1) (by decide +kernel) ?_
  exact fun s hrun hs => ⟨hs, (pipe_fifo hrun).1, (pipe_fifo hrun).2.1⟩

/-! ## The end of file -/

/-- A call that is about to copy its first byte has the lock, and there is one if the write end
is still open. -/
def Settled (s : State) : Prop :=
  ∀ c n, s.pc c = .reading n 0 →
    s.lock = some c ∧ (s.pipe.ring.empty = true → s.pipe.writeopen = false)

lemma goto_pc {d : Nat} (pc : Pc) : (s.goto c pc).pc d = if d = c then pc else s.pc d :=
  Function.update_apply ..

lemma Settled.step (h : Settled s) (hs : step l s = some s') : Settled s' := by
  intro c n hpc
  -- only the call with the lock changes the pipe
  unfold Pipes.step writeLoop waitLoop readLoop State.release at hs
  repeat' split at hs
  all_goals cases hs
  all_goals grind [Settled, goto_pc, State.goto]

/-- **No end of file before the end.** When a call of `piperead` for at least one byte returns 0,
the write end is closed and all bytes that have been stored have been delivered. -/
theorem eof_after_last_byte {data : Nat → UInt8} {k : UInt32} {ls : List Label}
    (hrun : Run step anyStep (State.init data k) ls s) (hpc : s.pc c = .reading n i) (hn : 0 < n)
    (hstep : step (.run c killed copyin copyout) s = some s') (hret : s'.pc c = .returned 0) :
    s.pipe.writeopen = false ∧ s.delivered = s.stored := by
  have hsettled : Settled s := hrun.invariant Settled (fun _ _ h => by cases h)
    fun _ _ _ _ hs h => h.step hs
  have hqueued : Queued s := hrun.invariant Queued (Queued.init data k) fun _ _ _ _ hs h =>
    h.moved (Moved.of_step hs)
  obtain ⟨-, hstep⟩ := Option.ite_none_right_eq_some.mp hstep
  rw [hpc] at hstep
  cases hstep
  have hempty : s.pipe.ring.empty = true ∧ i = 0 := by
    unfold readLoop State.release at hret
    split_ifs at hret
    all_goals grind [cut, goto_pc]
  obtain ⟨hempty, rfl⟩ := hempty
  refine ⟨(hsettled c n hpc).2 hempty, ?_⟩
  rw [hqueued.bytes, Buffer.contents_of_empty (by simpa [Buffer.empty] using hempty), append_nil]

deriving instance DecidableEq for Pc

/-- One byte goes through the pipe before its end is seen. -/
theorem eof_after_close :
    ∃ s, Run step anyStep (State.init (fun _ => 0) 0)
        [.pipewrite 0 1, .acquire 0, .run 0 false (some 104) true, .run 0 false none true,
          .pipeclose true, .piperead 1 1, .acquire 1, .run 1 false none true,
          .run 1 false none true, .run 1 false none true, .piperead 2 1, .acquire 2,
          .run 2 false none true] s ∧
      s.stored = [104] ∧ s.pipe.writeopen = false ∧ s.delivered = s.stored := by
  refine Run.exists_imp (P := fun s => s.pc 2 = .reading 1 0 ∧ s.stored = [104] ∧
    ∃ s', step (.run 2 false none true) s = some s' ∧ s'.pc 2 = .returned 0) (by decide +kernel) ?_
  rintro s hrun ⟨hpc, hstored, s', hstep, hret⟩
  exact ⟨hstored, eof_after_last_byte hrun hpc (by decide) hstep hret⟩

end CshellXv6.Kernel.Pipes
