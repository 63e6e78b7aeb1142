import CshellXv6.Lib.Sweep
import CshellXv6.Lib.Words

/-! # The process table of the kernel

What `proc.c` and `trap.c` do to the process table: allocating, readying,
dispatching, yielding, sleeping, waking, killing, exiting and collecting a
process, the clock interrupt and the priority boost.

Each function below is the body of one critical section, the part of a source
function that runs under `p->lock`. A source function that visits the whole
table and takes the locks one after the other (`wakeup`, `mlfq_boost`) is the
sweep of its critical section.

The fields of `struct proc` that concern memory, files and registers are left
out. `enqueues` is not a variable of the kernel: it counts the calls of
`enqueue_locked`, of which `next` only has the last 64 bits.
-/

namespace CshellXv6.Kernel

open Function

/-- The scheduler the kernel is compiled with: `SCHEDULER_FCFS`,
`SCHEDULER_MLFQ`, or neither of them. -/
inductive Policy where
  | rr
  | fcfs
  | mlfq
deriving DecidableEq, Repr

/-- An index of `proc`, of which there are `NPROC`. -/
abbrev Slot := Fin 64

/-- An index of `cpus`, of which there are `NCPU`. -/
abbrev CpuId := Fin 8

/-- One instance for the numerals of `Slot` everywhere, and one for those of `CpuId`. -/
instance neZero_slots : NeZero 64 := ⟨by decide⟩

instance neZero_cpus : NeZero 8 := ⟨by decide⟩

/-- The CPU that keeps the time: `cpuid() == 0` in `clockintr`. -/
abbrev cpu0 : CpuId := 0

/-- `enum procstate`. -/
inductive ProcState where
  | unused
  | used
  | sleeping
  | runnable
  | running
  | zombie
deriving DecidableEq, Repr

/-- `struct proc`. A channel is an address, of which only `0` is special. -/
structure Proc where
  state : ProcState
  chan : Nat
  killed : Bool
  xstate : Int
  pid : Int
  parent : Option Slot
  arrival : Nat
  firstRun : Nat
  ticks : Nat
  waiting : Nat
  started : Bool
  sequence : Nat
  queue : Int
  sliceTicks : Int
  lastboost : Nat
deriving DecidableEq, Repr

/-- A slot as `procinit` leaves it. -/
def Proc.blank : Proc where
  state := .unused
  chan := 0
  killed := false
  xstate := 0
  pid := 0
  parent := none
  arrival := 0
  firstRun := 0
  ticks := 0
  waiting := 0
  started := false
  sequence := 0
  queue := 0
  sliceTicks := 0
  lastboost := 0

/-- The process is in the table and has not exited. -/
def Proc.live (p : Proc) : Prop := p.state ≠ .unused ∧ p.state ≠ .zombie

/-- The process has been made RUNNABLE once and has not exited. -/
def Proc.queued (p : Proc) : Prop :=
  p.state = .runnable ∨ p.state = .running ∨ p.state = .sleeping

instance (p : Proc) : Decidable p.live := inferInstanceAs (Decidable (_ ∧ _))

instance (p : Proc) : Decidable p.queued := inferInstanceAs (Decidable (_ ∨ _))

/-- The variables of the kernel that scheduling reads and writes: `proc`,
`cpus[c].proc`, `next`, `nextpid` and `ticks`. -/
structure KernelState where
  proc : Slot → Proc
  cpu : CpuId → Option Slot
  next : Nat
  enqueues : Nat
  nextpid : Int
  ticks : Nat

/-- `initproc`, for which `userinit` allocates the first slot. -/
def initproc : Slot := 0

/-- The channel `&ticks`. -/
def ticksChan : Nat := 1

/-- `MLFQ_LEVELS`. -/
def mlfqLevels : Int := 4

/-- `slices`. -/
def slices : List Int := [1, 2, 8, 16]

/-- `slices[queue]`. -/
def slice (queue : Int) : Int := slices.getD queue.toNat 0

/-- A counter of type `uint64` goes up. -/
def inc64 (n : Nat) : Nat := (n + 1) % 2 ^ 64

/-- Change one slot. -/
def KernelState.modify (k : KernelState) (i : Slot) (f : Proc → Proc) : KernelState :=
  { k with proc := update k.proc i (f (k.proc i)) }

/-- The process of CPU `c` is back in the scheduler. -/
def KernelState.vacate (k : KernelState) (c : CpuId) : KernelState :=
  { k with cpu := update k.cpu c none }

section

variable (k : KernelState) (i j : Slot) (c d : CpuId) (f : Proc → Proc)

@[simp] lemma modify_proc_self : (k.modify i f).proc i = f (k.proc i) := by
  simp [KernelState.modify]

lemma modify_proc_of_ne {i j : Slot} (h : j ≠ i) : (k.modify i f).proc j = k.proc j := by
  simp [KernelState.modify, h]

/-- What holds of every slot after a change of one. -/
lemma forall_of_slot {P : Slot → Proc → Prop} {k k' : KernelState} {i : Slot}
    (hother : ∀ j, j ≠ i → k'.proc j = k.proc j) (h : ∀ j, P j (k.proc j))
    (hi : P i (k'.proc i)) (j : Slot) : P j (k'.proc j) := by
  by_cases hji : j = i
  · subst hji
    exact hi
  · rw [hother j hji]
    exact h j

@[simp] lemma modify_cpu : (k.modify i f).cpu = k.cpu := rfl

@[simp] lemma modify_next : (k.modify i f).next = k.next := rfl

@[simp] lemma vacate_proc : (k.vacate c).proc = k.proc := rfl

@[simp] lemma vacate_cpu_self : (k.vacate c).cpu c = none := by simp [KernelState.vacate]

lemma vacate_cpu_of_ne {c d : CpuId} (h : d ≠ c) : (k.vacate c).cpu d = k.cpu d := by
  simp [KernelState.vacate, h]

end

/-! ## Creating and freeing a process -/

/-- `allocproc`, from the label `found` on. `killed`, `chan` and `parent` keep
the values they had in the free slot. -/
def allocproc (i : Slot) (k : KernelState) : KernelState :=
  { k.modify i fun p =>
      { p with
        pid := k.nextpid
        state := .used
        arrival := k.ticks
        firstRun := 0
        ticks := 0
        waiting := 0
        started := false
        sequence := 0
        queue := 0
        sliceTicks := 0
        lastboost := 0 } with
    nextpid := Lib.toInt (k.nextpid + 1) }

/-- `freeproc`. -/
def freeproc (p : Proc) : Proc :=
  { p with
    pid := 0
    chan := 0
    killed := false
    xstate := 0
    state := .unused
    arrival := 0
    firstRun := 0
    ticks := 0
    waiting := 0
    started := false
    sequence := 0
    queue := 0
    sliceTicks := 0
    lastboost := 0 }

/-- `enqueue_locked`, which is `mlfq_enqueue_locked`. -/
def enqueueLocked (i : Slot) (k : KernelState) : KernelState :=
  { k.modify i fun p => { p with sequence := k.next } with
    next := inc64 k.next
    enqueues := k.enqueues + 1 }

/-- The call of `enqueue_locked` between `#if defined(SCHEDULER_MLFQ) ||
defined(SCHEDULER_FCFS)` and `#endif`. -/
def enqueueIfOrdered (pol : Policy) (i : Slot) (k : KernelState) : KernelState :=
  match pol with
  | .rr => k
  | .fcfs => enqueueLocked i k
  | .mlfq => enqueueLocked i k

/-- The end of `kfork` and of `userinit`. -/
def makeRunnable (pol : Policy) (i : Slot) (k : KernelState) : KernelState :=
  (enqueueIfOrdered pol i k).modify i fun p => { p with state := .runnable }

section

variable (pol : Policy) (i : Slot) {j : Slot} (k : KernelState)

@[simp] lemma allocproc_cpu : (allocproc i k).cpu = k.cpu := rfl

lemma allocproc_of_ne (h : j ≠ i) : (allocproc i k).proc j = k.proc j := by
  simp [allocproc, modify_proc_of_ne k _ h]

/-- An allocation that fails leaves the other slots alone, too. -/
lemma allocFail_of_ne (h : j ≠ i) : ((allocproc i k).modify i freeproc).proc j = k.proc j := by
  rw [modify_proc_of_ne _ _ h, allocproc_of_ne i k h]

@[simp] lemma enqueueLocked_self :
    (enqueueLocked i k).proc i = { k.proc i with sequence := k.next } := by
  simp [enqueueLocked]

lemma enqueueLocked_of_ne (h : j ≠ i) : (enqueueLocked i k).proc j = k.proc j := by
  simp [enqueueLocked, modify_proc_of_ne k _ h]

@[simp] lemma enqueueLocked_cpu : (enqueueLocked i k).cpu = k.cpu := rfl

@[simp] lemma enqueueIfOrdered_cpu : (enqueueIfOrdered pol i k).cpu = k.cpu := by
  cases pol <;> rfl

lemma enqueueIfOrdered_of_ne (h : j ≠ i) : (enqueueIfOrdered pol i k).proc j = k.proc j := by
  cases pol with
  | rr => rfl
  | fcfs | mlfq => exact enqueueLocked_of_ne i k h

lemma enqueueIfOrdered_eq (h : pol ≠ .rr) : enqueueIfOrdered pol i k = enqueueLocked i k := by
  cases pol with
  | rr => exact absurd rfl h
  | fcfs | mlfq => rfl

/-- Drawing a sequence number changes nothing else about the process. -/
lemma enqueueIfOrdered_self :
    ∃ n, (enqueueIfOrdered pol i k).proc i = { k.proc i with sequence := n } := by
  cases pol with
  | rr => exact ⟨_, rfl⟩
  | fcfs | mlfq => exact ⟨_, enqueueLocked_self i k⟩

lemma makeRunnable_of_ne (h : j ≠ i) : (makeRunnable pol i k).proc j = k.proc j := by
  rw [makeRunnable, modify_proc_of_ne _ _ h, enqueueIfOrdered_of_ne pol i k h]

lemma makeRunnable_self :
    ∃ n, (makeRunnable pol i k).proc i = { k.proc i with state := .runnable, sequence := n } := by
  rcases enqueueIfOrdered_self pol i k with ⟨n, hn⟩
  exact ⟨n, by rw [makeRunnable, modify_proc_self, hn]⟩

end

/-- The end of `kexit`. -/
def exitProc (status : Int) (p : Proc) : Proc :=
  { p with xstate := status, state := .zombie }

/-- `kwait` found a zombie. -/
def collectProc (p : Proc) : Proc := freeproc { p with parent := none }

/-! ## Giving up the CPU and getting it back -/

/-- The scheduler switches to the process it has chosen. -/
def switchTo (c : CpuId) (i : Slot) (k : KernelState) : KernelState :=
  { k.modify i fun p =>
      { p with
        state := .running
        -- only the first dispatch counts as the response
        started := true
        firstRun := if p.started then p.firstRun else k.ticks } with
    cpu := update k.cpu c (some i) }

/-- The test at the beginning of `yield`: a process that has used its slice
goes one queue down and starts a new slice. -/
def expire (p : Proc) : Proc :=
  if slice p.queue ≤ p.sliceTicks then
    { p with
      queue := if p.queue < mlfqLevels - 1 then p.queue + 1 else p.queue
      sliceTicks := 0 }
  else p

/-- `yield`. Only the MLFQ kernel draws a new sequence number here. -/
def yieldProc (pol : Policy) (i : Slot) (k : KernelState) : KernelState :=
  let k := match pol with
    | .mlfq => enqueueLocked i (k.modify i expire)
    -- under FCFS the process keeps its number and so its place
    | .fcfs => k
    | .rr => k
  k.modify i fun p => { p with state := .runnable }

/-- `wakeup`, at one slot. -/
def wakeupSlot (pol : Policy) (chan : Nat) (i : Slot) (k : KernelState) : KernelState :=
  if (k.proc i).chan = chan then
    let k := k.modify i fun p => { p with chan := 0 }
    -- a process that is only about to sleep finds its channel cleared
    if (k.proc i).state = .sleeping then
      enqueueIfOrdered pol i (k.modify i fun p => { p with state := .runnable })
    else k
  else k

/-- `wakeup`. -/
def wakeup (pol : Policy) (chan : Nat) (k : KernelState) : KernelState :=
  Lib.sweep (wakeupSlot pol chan) k

section

variable (pol : Policy) (chan : Nat) (c : CpuId) (i : Slot) {j : Slot} (k : KernelState)

@[simp] lemma switchTo_self : (switchTo c i k).proc i =
    { k.proc i with
      state := .running
      started := true
      firstRun := if (k.proc i).started then (k.proc i).firstRun else k.ticks } := by
  simp [switchTo]

lemma switchTo_of_ne (h : j ≠ i) : (switchTo c i k).proc j = k.proc j := by
  simp [switchTo, modify_proc_of_ne k _ h]

lemma yieldProc_of_ne (h : j ≠ i) : (yieldProc pol i k).proc j = k.proc j := by
  unfold yieldProc
  dsimp only
  rw [modify_proc_of_ne _ _ h]
  cases pol with
  | rr | fcfs => rfl
  | mlfq => rw [enqueueLocked_of_ne i _ h, modify_proc_of_ne k _ h]

lemma yieldProc_mlfq_self : (yieldProc .mlfq i k).proc i =
    { expire (k.proc i) with state := .runnable, sequence := k.next } := by
  simp [yieldProc]

/-- A yield makes the process RUNNABLE, and touches otherwise only what orders
the queues. -/
lemma yieldProc_self : ∃ n queue ticks,
    (queue = (k.proc i).queue ∨ queue = (expire (k.proc i)).queue) ∧ (yieldProc pol i k).proc i =
      { k.proc i with
        state := .runnable, sequence := n, queue := queue, sliceTicks := ticks } := by
  cases pol with
  | rr | fcfs =>
    exact ⟨(k.proc i).sequence, _, (k.proc i).sliceTicks, .inl rfl, by simp [yieldProc]⟩
  | mlfq =>
    rw [yieldProc_mlfq_self]
    refine ⟨k.next, _, (expire (k.proc i)).sliceTicks, .inr rfl, ?_⟩
    unfold expire
    split
    all_goals rfl

@[simp] lemma yieldProc_cpu : (yieldProc pol i k).cpu = k.cpu := by
  cases pol <;> rfl

lemma wakeupSlot_of_ne (h : j ≠ i) : (wakeupSlot pol chan i k).proc j = k.proc j := by
  unfold wakeupSlot
  split
  · dsimp only
    split
    · rw [enqueueIfOrdered_of_ne pol i _ h, modify_proc_of_ne _ _ h, modify_proc_of_ne _ _ h]
    · exact modify_proc_of_ne k _ h
  · rfl

/-- A wakeup clears `chan`, or also readies a sleeper, or does nothing. -/
lemma wakeupSlot_self :
    (wakeupSlot pol chan i k).proc i = k.proc i ∨
      (k.proc i).state ≠ .sleeping ∧
        (wakeupSlot pol chan i k).proc i = { k.proc i with chan := 0 } ∨
      (k.proc i).state = .sleeping ∧ ∃ n, (wakeupSlot pol chan i k).proc i =
        { k.proc i with chan := 0, state := .runnable, sequence := n } := by
  unfold wakeupSlot
  split
  · dsimp only
    split
    next hs =>
      right; right
      rcases enqueueIfOrdered_self pol i
        ((k.modify i fun p => { p with chan := 0 }).modify i
          fun p => { p with state := .runnable }) with ⟨n, hn⟩
      refine ⟨by simpa using hs, n, ?_⟩
      rw [hn, modify_proc_self, modify_proc_self]
    next hs => exact .inr (.inl ⟨by simpa using hs, modify_proc_self k i _⟩)
  · exact .inl rfl

@[simp] lemma wakeupSlot_cpu : (wakeupSlot pol chan i k).cpu = k.cpu := by
  unfold wakeupSlot
  split
  · dsimp only
    split
    · simp
    · rfl
  · rfl

end

/-- `kkill`, at the slot with the right pid. -/
def killProc (p : Proc) : Proc :=
  { p with
    killed := true
    state := if p.state = .sleeping then .runnable else p.state }

/-! ## The clock -/

/-- `mlfq_boost`, at one slot. -/
def boostSlot (i : Slot) (k : KernelState) : KernelState :=
  if (k.proc i).live then
    let k := k.modify i fun p =>
      { p with queue := 0, sliceTicks := 0, lastboost := k.ticks }
    -- a sleeping process draws its number when it wakes up
    if (k.proc i).state = .runnable then enqueueLocked i k else k
  else k

/-- `mlfq_boost`. -/
def mlfqBoost (k : KernelState) : KernelState := Lib.sweep boostSlot k

section

variable (i : Slot) {j : Slot} (k : KernelState)

lemma boostSlot_of_ne (h : j ≠ i) : (boostSlot i k).proc j = k.proc j := by
  unfold boostSlot
  split
  · dsimp only
    split
    · rw [enqueueLocked_of_ne i _ h, modify_proc_of_ne _ _ h]
    · exact modify_proc_of_ne k _ h
  · rfl

lemma boostSlot_of_not_live (h : ¬ (k.proc i).live) : boostSlot i k = k := by
  rw [boostSlot, if_neg h]

/-- A boost takes a live process to the first queue. -/
lemma boostSlot_self_of_live (h : (k.proc i).live) :
    ∃ n, (boostSlot i k).proc i =
      { k.proc i with queue := 0, sliceTicks := 0, lastboost := k.ticks, sequence := n } := by
  rw [boostSlot, if_pos h]
  dsimp only
  split
  · exact ⟨k.next, by rw [enqueueLocked_self, modify_proc_self, modify_next]⟩
  · exact ⟨(k.proc i).sequence, modify_proc_self k i _⟩

@[simp] lemma boostSlot_cpu : (boostSlot i k).cpu = k.cpu := by
  unfold boostSlot
  split
  · dsimp only
    split <;> rfl
  · rfl

lemma boostSlot_state (i j : Slot) (k : KernelState) :
    ((boostSlot i k).proc j).state = (k.proc j).state := by
  by_cases hji : j = i
  · subst hji
    by_cases hl : (k.proc j).live
    · rcases boostSlot_self_of_live j k hl with ⟨n, hn⟩
      rw [hn]
    · rw [boostSlot_of_not_live j k hl]
  · rw [boostSlot_of_ne i k hji]

end

/-- What the first lines of `clockintr` do to the running process. -/
def chargeProc (pol : Policy) (p : Proc) : Proc :=
  { p with
    ticks := inc64 p.ticks
    sliceTicks := if pol = .mlfq then p.sliceTicks + 1 else p.sliceTicks }

/-- The beginning of `clockintr` on CPU 0: a tick goes by, the running process
is charged for it, and every other RUNNABLE process has waited for it. -/
def chargeTick (pol : Policy) (k : KernelState) : KernelState :=
  { k with
    ticks := (k.ticks + 1) % 2 ^ 32
    proc := fun j =>
      -- nobody is charged if the interrupt came in the scheduler
      if k.cpu cpu0 = some j then chargeProc pol (k.proc j)
      else if (k.proc j).state = .runnable then
        { k.proc j with waiting := inc64 (k.proc j).waiting }
      else k.proc j }

lemma chargeTick_state (pol : Policy) (k : KernelState) (j : Slot) :
    ((chargeTick pol k).proc j).state = (k.proc j).state := by
  simp only [chargeTick]
  split
  · rfl
  split
  all_goals rfl

/-- The tick just counted is one at which `clockintr` boosts. -/
def boostDue (pol : Policy) (k : KernelState) : Prop := pol = .mlfq ∧ k.ticks % 48 = 0

instance (pol : Policy) (k : KernelState) : Decidable (boostDue pol k) :=
  inferInstanceAs (Decidable (_ ∧ _))

/-- `clockintr` on CPU 0. -/
def clockintr (pol : Policy) (k : KernelState) : KernelState :=
  let charged := chargeTick pol k
  wakeup pol ticksChan (if boostDue pol charged then mlfqBoost charged else charged)

/-! ## The beginning -/

/-- The kernel after `procinit`. -/
def procinit : KernelState where
  proc := fun _ => Proc.blank
  cpu := fun _ => none
  next := 0
  enqueues := 0
  nextpid := 1
  ticks := 0

/-- `userinit`, after which the schedulers start. -/
def boot (pol : Policy) : KernelState := makeRunnable pol initproc (allocproc initproc procinit)

/-- In the beginning there is one process. -/
lemma boot_proc (pol : Policy) (i : Slot) :
    (i ≠ initproc ∧ (boot pol).proc i = Proc.blank) ∨
    (i = initproc ∧ ∃ n, (boot pol).proc i =
      { Proc.blank with state := .runnable, pid := 1, sequence := n }) := by
  by_cases hi : i = initproc
  · obtain ⟨n, hn⟩ := makeRunnable_self pol initproc (allocproc initproc procinit)
    refine .inr ⟨hi, n, ?_⟩
    rw [hi, boot, hn]
    simp [allocproc, procinit, Proc.blank]
  · refine .inl ⟨hi, ?_⟩
    rw [boot, makeRunnable_of_ne _ _ _ hi, allocproc_of_ne _ _ hi]
    rfl

end CshellXv6.Kernel
