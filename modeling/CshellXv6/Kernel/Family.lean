import CshellXv6.Kernel.Machine

/-! # Fork, exit and wait

`kfork`, `kexit` and `kwait`, one critical section at a time. Each process has
a program counter for these three functions, and `wait_lock` has its holder;
what the critical sections do to the table is what the steps of the kernel of
the same names do. Everything else the kernel does (dispatching, yielding,
sleeping elsewhere, waking, killing, the clock) may happen in between, and any
wakeup at any time.

Two lists are kept beside the kernel: `exits` has the pid and the status of
every process that exited, in order, and `waits` what each successful `kwait`
returned. The number of an exit is its index; `serial` remembers it for the
zombie.
-/

namespace CshellXv6.Kernel.Family

open Lib Option

/-- Where a process stands in `kfork`, `kexit` or `kwait`. -/
inductive Pc where
  | idle
  /-- `kfork`, after the allocation: the child has no parent yet. -/
  | forking (child : Slot)
  /-- `kfork`, after `np->parent = p`. -/
  | adopted (child : Slot)
  /-- `kexit`, with `wait_lock`: `reparent` has come to slot `next`. -/
  | exiting (status : Int) (next : Nat)
  /-- `kwait`, with `wait_lock`: the scan has come to slot `next`. -/
  | scanning (havekids : Bool) (next : Nat)
  /-- `kwait`, with `wait_lock`, after `sleep_prepare`. -/
  | registered
  /-- `kwait`, before `sleep`. -/
  | drowsy
  /-- `kwait`, before `wait_lock` is taken again. -/
  | awake
deriving DecidableEq, Repr

/-- What a successful `kwait` returned: which exit, to whom, who was the
parent then, and the values. -/
structure Receipt where
  serial : Nat
  waiter : Slot
  parent : Option Slot
  pid : Int
  status : Int
deriving DecidableEq, Repr

structure State where
  k : KernelState
  pc : Slot → Pc
  waitLock : Option Slot
  exits : List (Int × Int)
  waits : List Receipt
  serial : Slot → Nat

/-- The kernel after `userinit`. -/
def State.start (pol : Policy) : State where
  k := boot pol
  pc := fun _ => .idle
  waitLock := none
  exits := []
  waits := []
  serial := fun _ => 0

def State.goto (s : State) (p : Slot) (pc : Pc) : State :=
  { s with pc := Function.update s.pc p pc }

/-- A critical section of another function. -/
def isEnvironment : Kernel.Label → Bool
  | .dispatch _ _ | .charge | .boost _ | .wakeup _ _ | .yield _ | .kkill _ _ | .setkilled _
  | .sleepPrepare _ _ | .sleep _ => true
  | .allocproc _ | .allocFail _ | .setParent _ _ | .ready _ | .reparent _ _ | .exit _ _
  | .collect _ _ => false

/-- A critical section, of one of the three functions or of another. -/
inductive Label where
  | environment (l : Kernel.Label)
  | fork (c : CpuId) (i : Slot)
  | forkFail (c : CpuId) (i : Slot)
  | adopt (c : CpuId)
  | forkReady (c : CpuId)
  | exitBegin (c : CpuId) (status : Int)
  | reparent (c : CpuId)
  | becomeZombie (c : CpuId)
  | waitBegin (c : CpuId)
  /-- `fails` if the `copyout` of the status does. -/
  | scan (c : CpuId) (fails : Bool)
  | scanEnd (c : CpuId)
  | unlock (c : CpuId)
  | sleep (c : CpuId)
  | relock (c : CpuId)
deriving DecidableEq, Repr

/-- The channel of `sleep_prepare(p)` in `kwait`, an address of its own for
each process. -/
def procChan (p : Slot) : Nat := p.val + 2

variable (pol : Policy)

/-- `reparent`, at one slot. -/
def reparentSlot (c : CpuId) (p i : Slot) (k : KernelState) : Option KernelState :=
  if (k.proc i).parent = some p then Kernel.step pol (.reparent c i) k else some k

/-- The loop of `kwait`, at one slot. -/
def scanSlot (c : CpuId) (p i : Slot) (havekids fails : Bool) (s : State) : Option State :=
  if (s.k.proc i).parent = some p then
    if (s.k.proc i).state = .zombie then
      if fails then
        -- the child stays as it is
        some { s.goto p .idle with waitLock := none }
      else
        (Kernel.step pol (.collect c i) s.k).map fun k =>
          { s.goto p .idle with
            k := k
            waitLock := none
            waits := s.waits ++ [{
              serial := s.serial i
              waiter := p
              parent := (s.k.proc i).parent
              pid := (s.k.proc i).pid
              status := (s.k.proc i).xstate }] }
    else some (s.goto p (.scanning true (i.val + 1)))
  else some (s.goto p (.scanning havekids (i.val + 1)))

/-- One critical section by process `p` on CPU `c`, from the place where its
program counter is. -/
def State.act (c : CpuId) (p : Slot) (s : State) : Label → Pc → Option State
  | .fork _ i, .idle =>
    (Kernel.step pol (.allocproc i) s.k).map fun k => { s.goto p (.forking i) with k := k }
  | .forkFail _ i, .idle => (Kernel.step pol (.allocFail i) s.k).map fun k => { s with k := k }
  | .adopt _, .forking i =>
    if s.waitLock = none then
      (Kernel.step pol (.setParent c i) s.k).map fun k => { s.goto p (.adopted i) with k := k }
    else none
  | .forkReady _, .adopted i =>
    (Kernel.step pol (.ready i) s.k).map fun k => { s.goto p .idle with k := k }
  | .exitBegin _ status, .idle =>
    -- `panic("init exiting")`
    if p ≠ initproc ∧ s.waitLock = none then
      some { s.goto p (.exiting status 0) with waitLock := some p }
    else none
  | .reparent _, .exiting status next =>
    if h : next < 64 then
      (reparentSlot pol c p ⟨next, h⟩ s.k).map fun k =>
        { s.goto p (.exiting status (next + 1)) with k := k }
    else none
  | .becomeZombie _, .exiting status next =>
    if next = 64 then
      (Kernel.step pol (.exit c status) s.k).map fun k =>
        { s.goto p .idle with
          k := k
          waitLock := none
          exits := s.exits ++ [((s.k.proc p).pid, status)]
          serial := Function.update s.serial p s.exits.length }
    else none
  | .waitBegin _, .idle =>
    if s.waitLock = none then
      some { s.goto p (.scanning false 0) with waitLock := some p }
    else none
  | .scan _ fails, .scanning havekids next =>
    if h : next < 64 then scanSlot pol c p ⟨next, h⟩ havekids fails s else none
  | .scanEnd _, .scanning havekids next =>
    if next = 64 then
      if havekids = false ∨ (s.k.proc p).killed = true then
        some { s.goto p .idle with waitLock := none }
      else
        (Kernel.step pol (.sleepPrepare c (procChan p)) s.k).map fun k =>
          { s.goto p .registered with k := k }
    else none
  | .unlock _, .registered => some { s.goto p .drowsy with waitLock := none }
  | .sleep _, .drowsy =>
    -- a wakeup since `sleep_prepare` has cleared the channel
    if (s.k.proc p).chan = 0 then some (s.goto p .awake)
    else (Kernel.step pol (.sleep c) s.k).map fun k => { s.goto p .awake with k := k }
  | .relock _, .awake =>
    if s.waitLock = none then
      some { s.goto p (.scanning false 0) with waitLock := some p }
    else none
  | _, _ => none

/-- The CPU that runs the critical section. -/
def Label.cpu : Label → Option CpuId
  | .environment _ => none
  | .fork c _ | .forkFail c _ | .adopt c | .forkReady c | .exitBegin c _ | .reparent c
  | .becomeZombie c | .waitBegin c | .scan c _ | .scanEnd c | .unlock c | .sleep c
  | .relock c => some c

/-- The CPU that calls `sleep_prepare` or `sleep` in another function. -/
def sleepCpu : Kernel.Label → Option CpuId
  | .sleepPrepare c _ | .sleep c => some c
  | _ => none

/-- A process inside one of the three functions is not inside another. -/
def State.calm (s : State) (l : Kernel.Label) : Prop :=
  ∀ c ∈ sleepCpu l, ∀ p ∈ s.k.cpu c, s.pc p = .idle

instance (s : State) (l : Kernel.Label) : Decidable (s.calm l) :=
  inferInstanceAs (Decidable (∀ c ∈ sleepCpu l, ∀ p ∈ s.k.cpu c, s.pc p = .idle))

def step (l : Label) (s : State) : Option State :=
  match l with
  | .environment l =>
    if isEnvironment l = true ∧ s.calm l then
      (Kernel.step pol l s.k).map fun k => { s with k := k }
    else none
  | l => l.cpu.bind fun c => (s.k.cpu c).bind fun p => s.act pol c p l (s.pc p)

/-- What a step does and when it is possible. -/
inductive Move (s : State) : Label → State → Prop where
  | environment {l : Kernel.Label} {k' : KernelState} (env : isEnvironment l = true)
      (calm : s.calm l) (move : Kernel.Move pol s.k l k') :
      Move s (.environment l) { s with k := k' }
  | fork {c : CpuId} {p i : Slot} (on : s.k.cpu c = some p) (pc : s.pc p = .idle)
      (free : (s.k.proc i).state = .unused) :
      Move s (.fork c i) { s.goto p (.forking i) with k := allocproc i s.k }
  | forkFail {c : CpuId} {p i : Slot} (on : s.k.cpu c = some p) (pc : s.pc p = .idle)
      (free : (s.k.proc i).state = .unused) :
      Move s (.forkFail c i) { s with k := (allocproc i s.k).modify i freeproc }
  | adopt {c : CpuId} {p i : Slot} (on : s.k.cpu c = some p) (pc : s.pc p = .forking i)
      (lock : s.waitLock = none) (used : (s.k.proc i).state = .used) :
      Move s (.adopt c) { s.goto p (.adopted i) with
        k := s.k.modify i fun q => { q with parent := some p } }
  | forkReady {c : CpuId} {p i : Slot} (on : s.k.cpu c = some p) (pc : s.pc p = .adopted i)
      (used : (s.k.proc i).state = .used) :
      Move s (.forkReady c) { s.goto p .idle with k := makeRunnable pol i s.k }
  | exitBegin {c : CpuId} {p : Slot} {status : Int} (on : s.k.cpu c = some p)
      (pc : s.pc p = .idle) (other : p ≠ initproc) (lock : s.waitLock = none) :
      Move s (.exitBegin c status) { s.goto p (.exiting status 0) with waitLock := some p }
  | reparentChild {c : CpuId} {p i : Slot} {status : Int} (on : s.k.cpu c = some p)
      (pc : s.pc p = .exiting status i.val) (child : (s.k.proc i).parent = some p) :
      Move s (.reparent c) { s.goto p (.exiting status (i.val + 1)) with
        k := s.k.modify i fun q => { q with parent := some initproc } }
  | reparentOther {c : CpuId} {p i : Slot} {status : Int} (on : s.k.cpu c = some p)
      (pc : s.pc p = .exiting status i.val) (other : (s.k.proc i).parent ≠ some p) :
      Move s (.reparent c) (s.goto p (.exiting status (i.val + 1)))
  | becomeZombie {c : CpuId} {p : Slot} {status : Int} (on : s.k.cpu c = some p)
      (pc : s.pc p = .exiting status 64) (other : p ≠ initproc) :
      Move s (.becomeZombie c) { s.goto p .idle with
        k := (s.k.modify p (exitProc status)).vacate c
        waitLock := none
        exits := s.exits ++ [((s.k.proc p).pid, status)]
        serial := Function.update s.serial p s.exits.length }
  | waitBegin {c : CpuId} {p : Slot} {l : Label} (on : s.k.cpu c = some p)
      (pc : s.pc p = .idle ∨ s.pc p = .awake) (lock : s.waitLock = none)
      (label : l = .waitBegin c ∨ l = .relock c) :
      Move s l { s.goto p (.scanning false 0) with waitLock := some p }
  | scanNext {c : CpuId} {p i : Slot} {havekids havekids' fails : Bool}
      (on : s.k.cpu c = some p) (pc : s.pc p = .scanning havekids i.val)
      (kept : (s.k.proc i).parent = some p → (s.k.proc i).state ≠ .zombie) :
      Move s (.scan c fails) (s.goto p (.scanning havekids' (i.val + 1)))
  | scanFail {c : CpuId} {p i : Slot} {havekids : Bool} (on : s.k.cpu c = some p)
      (pc : s.pc p = .scanning havekids i.val) (child : (s.k.proc i).parent = some p)
      (ended : (s.k.proc i).state = .zombie) :
      Move s (.scan c true) { s.goto p .idle with waitLock := none }
  | collect {c : CpuId} {p i : Slot} {havekids : Bool} (on : s.k.cpu c = some p)
      (pc : s.pc p = .scanning havekids i.val) (child : (s.k.proc i).parent = some p)
      (ended : (s.k.proc i).state = .zombie) :
      Move s (.scan c false) { s.goto p .idle with
        k := s.k.modify i collectProc
        waitLock := none
        waits := s.waits ++ [{
          serial := s.serial i
          waiter := p
          parent := (s.k.proc i).parent
          pid := (s.k.proc i).pid
          status := (s.k.proc i).xstate }] }
  | giveUp {c : CpuId} {p : Slot} {havekids : Bool} (on : s.k.cpu c = some p)
      (pc : s.pc p = .scanning havekids 64) :
      Move s (.scanEnd c) { s.goto p .idle with waitLock := none }
  | register {c : CpuId} {p : Slot} {havekids : Bool} (on : s.k.cpu c = some p)
      (pc : s.pc p = .scanning havekids 64) :
      Move s (.scanEnd c) { s.goto p .registered with
        k := s.k.modify p fun q => { q with chan := procChan p } }
  | unlock {c : CpuId} {p : Slot} (on : s.k.cpu c = some p) (pc : s.pc p = .registered) :
      Move s (.unlock c) { s.goto p .drowsy with waitLock := none }
  | sleepSkip {c : CpuId} {p : Slot} (on : s.k.cpu c = some p) (pc : s.pc p = .drowsy) :
      Move s (.sleep c) (s.goto p .awake)
  | sleep {c : CpuId} {p : Slot} (on : s.k.cpu c = some p) (pc : s.pc p = .drowsy)
      (prepared : (s.k.proc p).chan ≠ 0) :
      Move s (.sleep c) { s.goto p .awake with
        k := (s.k.modify p fun q => { q with state := .sleeping }).vacate c }

variable {pol} {c : CpuId} {s' s : State} {i p : Slot} {fails havekids : Bool} {l : Label}

lemma Move.of_scan (on : s.k.cpu c = some p) (pc : s.pc p = .scanning havekids i.val)
    (h : scanSlot pol c p i havekids fails s = some s') : Move pol s (.scan c fails) s' := by
  unfold scanSlot at h
  split at h
  next hchild =>
    split at h
    next hzombie =>
      cases fails with
      | true =>
        cases h
        exact .scanFail on pc hchild hzombie
      | false =>
        obtain ⟨k', hm, rfl⟩ := of_kernel h
        cases hm
        exact .collect on pc hchild hzombie
    next hzombie =>
      cases h
      exact .scanNext on pc fun _ => hzombie
  next hother =>
    cases h
    exact .scanNext on pc fun hchild => absurd hchild hother

lemma Move.of_reparent {status : Int}
    (on : s.k.cpu c = some p) (pc : s.pc p = .exiting status i.val)
    (h : ((reparentSlot pol c p i s.k).map fun k =>
      { s.goto p (.exiting status (i.val + 1)) with k := k }) = some s') :
    Move pol s (.reparent c) s' := by
  unfold reparentSlot at h
  split at h
  next hchild =>
    obtain ⟨k', hm, rfl⟩ := of_kernel h
    cases hm with
    | reparent hon _ =>
      cases hon.symm.trans on
      exact .reparentChild on pc hchild
  next hother =>
    cases h
    exact .reparentOther on pc hother

/-- What the process of a CPU does is a move. -/
lemma Move.of_act (hc : l.cpu = some c) (on : s.k.cpu c = some p)
    (h : s.act pol c p l (s.pc p) = some s') : Move pol s l s' := by
  generalize hpc : s.pc p = pc at h
  unfold State.act at h
  split at h
  all_goals try cases hc
  next i =>
    obtain ⟨k', hm, rfl⟩ := of_kernel h
    cases hm with
    | allocproc hfree => exact .fork on hpc hfree
  next i =>
    obtain ⟨k', hm, rfl⟩ := of_kernel h
    cases hm with
    | allocFail hfree => exact .forkFail on hpc hfree
  next i =>
    obtain ⟨hlock, h⟩ := ite_none_right_eq_some.mp h
    obtain ⟨k', hm, rfl⟩ := of_kernel h
    cases hm with
    | setParent hon hused =>
      cases hon.symm.trans on
      exact .adopt on hpc hlock hused
  next i =>
    obtain ⟨k', hm, rfl⟩ := of_kernel h
    cases hm with
    | ready hused => exact .forkReady on hpc hused
  next status =>
    obtain ⟨⟨hother, hlock⟩, rfl⟩ := of_guard h
    exact .exitBegin on hpc hother hlock
  next status next =>
    obtain ⟨hlt, h⟩ := dite_none_right_eq_some.mp h
    exact Move.of_reparent (i := ⟨next, hlt⟩) on hpc h
  next status next =>
    obtain ⟨rfl, h⟩ := ite_none_right_eq_some.mp h
    obtain ⟨k', hm, rfl⟩ := of_kernel h
    cases hm with
    | exit hon hother =>
      cases hon.symm.trans on
      exact .becomeZombie on hpc hother
  · obtain ⟨hlock, rfl⟩ := of_guard h
    exact .waitBegin on (.inl hpc) hlock (.inl rfl)
  next fails havekids next =>
    obtain ⟨hlt, h⟩ := dite_none_right_eq_some.mp h
    exact Move.of_scan (i := ⟨next, hlt⟩) on hpc h
  next havekids next =>
    obtain ⟨rfl, hend⟩ := ite_none_right_eq_some.mp h
    split at hend
    · cases hend
      exact .giveUp on hpc
    obtain ⟨k', hm, rfl⟩ := of_kernel hend
    cases hm with
    | sleepPrepare hon _ =>
      cases hon.symm.trans on
      exact .register on hpc
  · cases h
    exact .unlock on hpc
  · split at h
    · cases h
      exact .sleepSkip on hpc
    obtain ⟨k', hm, rfl⟩ := of_kernel h
    cases hm with
    | sleep hon hchan =>
      cases hon.symm.trans on
      exact .sleep on hpc hchan
  · obtain ⟨hlock, rfl⟩ := of_guard h
    exact .waitBegin on (.inr hpc) hlock (.inr rfl)
  · cases h

/-- Every step is a move. -/
lemma Move.of_step (h : step pol l s = some s') : Move pol s l s' := by
  cases l with
  | environment l =>
    obtain ⟨⟨henv, hcalm⟩, h⟩ := ite_none_right_eq_some.mp h
    obtain ⟨k', hm, rfl⟩ := of_kernel h
    exact .environment henv hcalm hm
  | _ =>
    obtain ⟨p, on, h⟩ := bind_eq_some_iff.mp h
    exact Move.of_act rfl on h

end CshellXv6.Kernel.Family
