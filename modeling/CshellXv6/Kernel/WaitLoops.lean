import CshellXv6.Kernel.Machine

/-! # Loops that sleep

The way the kernel waits: a process holds a condition lock, tests the
condition, and in many places also whether it has been killed; if it has to
wait it calls `sleep_prepare`, releases the lock, calls `sleep`, and takes the
lock again. Whoever makes the condition true does so with the lock held and
calls `wakeup` before releasing it. Wakers are processes or interrupt
handlers.

A step is one critical section. The steps of all agents are interleaved with
those of the rest of the kernel, which may preempt a process or kill it at any
point. Every process may run any of the loops and wake anybody, again and
again.
-/

namespace CshellXv6.Kernel.WaitLoops

open Lib Option

/-- What a loop tests before it sleeps. -/
inductive Check where
  | condition
  | killed
deriving DecidableEq, Repr

/-- A loop: its channel, its tests in order, and the channel it wakes before
it sleeps, if any. -/
structure WaitLoop where
  chan : Nat
  checks : List Check
  nudge : Option Nat
  tests : .condition ∈ checks
deriving DecidableEq, Repr

/-- The loop also looks at `killed`. -/
def WaitLoop.killable (w : WaitLoop) : Prop := .killed ∈ w.checks

instance (w : WaitLoop) : Decidable w.killable :=
  inferInstanceAs (Decidable (.killed ∈ w.checks))

section

variable (chan : Nat)

/-- `acquiresleep`, on the lock. -/
def acquiresleep : WaitLoop := ⟨chan, [.condition], none, by simp⟩

/-- `piperead`, on `&pi->nread`. -/
def piperead : WaitLoop := ⟨chan, [.condition, .killed], none, by simp⟩

/-- `pipewrite`, on `&pi->nwrite`: it looks at `killed` first, and wakes the
readers before it sleeps. -/
def pipewrite (nread : Nat) : WaitLoop := ⟨chan, [.killed, .condition], some nread, by simp⟩

/-- `consoleread`, on `&cons.r`. -/
def consoleread : WaitLoop := ⟨chan, [.condition, .killed], none, by simp⟩

/-- `kwait`, on the process itself: the condition is that a child is a zombie
or that there are no children. -/
def kwait : WaitLoop := ⟨chan, [.condition, .killed], none, by simp⟩

/-- `sys_pause`, on `&ticks`. -/
def sysPause : WaitLoop := ⟨ticksChan, [.condition, .killed], none, by simp⟩

end

/-- Who runs a critical section: a process or the interrupt handler of a CPU. -/
inductive Agent where
  | proc (p : Slot)
  | intr (c : CpuId)
deriving DecidableEq, Repr

/-- Where an agent stands. -/
inductive Pc where
  /-- Outside, without a lock. -/
  | idle
  /-- With the lock. -/
  | inside (lock : Nat)
  /-- With the lock: the condition of `chan` is set, and `wakeup(chan)` has
  come to slot `next`. -/
  | waking (chan next : Nat)
  /-- In a round of a loop, with the lock and the tests that are left. -/
  | checking (w : WaitLoop) (rest : List Check)
  /-- With the lock: the loop has to wait, and its own `wakeup` has come to
  slot `next`. -/
  | nudging (w : WaitLoop) (chan next : Nat)
  /-- With the lock, after `sleep_prepare`. -/
  | prepared (w : WaitLoop)
  /-- Without the lock, before `sleep`. -/
  | released (w : WaitLoop)
  /-- In `sleep`, or back from it and about to take the lock. -/
  | asleep (w : WaitLoop)
deriving DecidableEq, Repr

structure State where
  k : KernelState
  holder : Nat → Option Agent
  condition : Nat → Bool
  pc : Agent → Pc

def State.start (pol : Policy) : State where
  k := boot pol
  holder := fun _ => none
  condition := fun _ => false
  pc := fun _ => .idle

def State.goto (s : State) (a : Agent) (pc : Pc) : State :=
  { s with pc := Function.update s.pc a pc }

def State.giveBack (s : State) (lock : Nat) : State :=
  { s with holder := Function.update s.holder lock none }

def State.take (s : State) (lock : Nat) (a : Agent) : State :=
  { s with holder := Function.update s.holder lock (some a) }

/-- An agent that can take a step: a process has to be on a CPU. -/
def State.acts (s : State) : Agent → Prop
  | .proc p => ∃ c, s.k.cpu c = some p
  | .intr _ => True

instance (s : State) (a : Agent) : Decidable (s.acts a) := by
  unfold State.acts
  apply @Agent.casesOn _ a
  all_goals intros; infer_instance

/-- The CPU of a step that only a process outside all loops takes. -/
def outsideCpu : Kernel.Label → Option CpuId
  | .exit c _ | .setkilled c => some c
  | _ => none

/-- The steps of the kernel that are not part of a loop or of a waker. -/
def isEnvironment : Kernel.Label → Bool
  | .wakeup _ _ | .sleepPrepare _ _ | .sleep _ => false
  | _ => true

/-- A process exits, or is killed for a fault, outside all loops. -/
def State.calm (s : State) (l : Kernel.Label) : Prop :=
  ∀ c ∈ outsideCpu l, ∀ p ∈ s.k.cpu c, s.pc (.proc p) = .idle

instance (s : State) (l : Kernel.Label) : Decidable (s.calm l) :=
  inferInstanceAs (Decidable (∀ c ∈ outsideCpu l, ∀ p ∈ s.k.cpu c, s.pc (.proc p) = .idle))

inductive Label where
  | kernel (l : Kernel.Label)
  | acquire (a : Agent) (lock : Nat)
  | release (a : Agent)
  /-- Make the condition true; the wakeup follows. -/
  | set (a : Agent) (chan : Nat)
  /-- Use the condition up. -/
  | clear (a : Agent) (chan : Nat)
  /-- `wakeup`, at the next slot or at the end. -/
  | visit (a : Agent)
  | enter (c : CpuId) (w : WaitLoop)
  | check (c : CpuId)
  | prepare (c : CpuId)
  | unlock (c : CpuId)
  | sleep (c : CpuId)
  | relock (c : CpuId)
deriving DecidableEq, Repr

-- `lockOf` says which lock protects the condition of a channel
variable (lockOf : Nat → Nat) (pol : Policy)

/-- The steps of agents that hold a lock or take one. -/
def State.agentStep (s : State) (a : Agent) : Label → Pc → Option State
  | .acquire _ lock, .idle =>
    if s.holder lock = none then some ((s.take lock a).goto a (.inside lock)) else none
  | .release _, .inside lock => some ((s.giveBack lock).goto a .idle)
  | .set _ chan, .inside lock =>
    if lockOf chan = lock then
      some ({ s with condition := Function.update s.condition chan true }.goto a (.waking chan 0))
    else none
  | .clear _ chan, .inside lock =>
    if lockOf chan = lock then
      some { s with condition := Function.update s.condition chan false }
    else none
  | .visit _, .waking chan next =>
    if h : next < 64 then
      (Kernel.step pol (.wakeup chan ⟨next, h⟩) s.k).map fun k =>
        { s.goto a (.waking chan (next + 1)) with k := k }
    else some (s.goto a (.inside (lockOf chan)))
  | .visit _, .nudging w chan next =>
    if h : next < 64 then
      (Kernel.step pol (.wakeup chan ⟨next, h⟩) s.k).map fun k =>
        { s.goto a (.nudging w chan (next + 1)) with k := k }
    else none
  | _, _ => none

/-- What a loop does with the result of a test. -/
def State.checkStep (s : State) (p : Slot) (w : WaitLoop) (rest : List Check) : Check → State
  | .condition =>
    -- the loop is over, and the process goes on with the lock
    if s.condition w.chan then s.goto (.proc p) (.inside (lockOf w.chan))
    else s.goto (.proc p) (.checking w rest)
  | .killed =>
    if (s.k.proc p).killed then (s.giveBack (lockOf w.chan)).goto (.proc p) .idle
    else s.goto (.proc p) (.checking w rest)

/-- All tests have failed, and the channel to wake has been woken. -/
def Pc.mustSleep : Pc → Option WaitLoop
  | .checking w [] => if w.nudge = none then some w else none
  | .nudging w _ next => if 64 ≤ next then some w else none
  | _ => none

/-- The steps of a process in a loop. -/
def State.loopStep (s : State) (c : CpuId) (p : Slot) : Label → Pc → Option State
  | .enter _ w, .inside lock =>
    if lockOf w.chan = lock then some (s.goto (.proc p) (.checking w w.checks)) else none
  | .check _, .checking w [] => w.nudge.map fun chan => s.goto (.proc p) (.nudging w chan 0)
  | .check _, .checking w (check :: rest) => some (s.checkStep lockOf p w rest check)
  | .prepare _, pc =>
    pc.mustSleep.bind fun w =>
      (Kernel.step pol (.sleepPrepare c w.chan) s.k).map fun k =>
        { s.goto (.proc p) (.prepared w) with k := k }
  | .unlock _, .prepared w => some ((s.giveBack (lockOf w.chan)).goto (.proc p) (.released w))
  | .sleep _, .released w =>
    if (s.k.proc p).chan = 0 then some (s.goto (.proc p) (.asleep w))
    else
      (Kernel.step pol (.sleep c) s.k).map fun k =>
        { s.goto (.proc p) (.asleep w) with k := k }
  | .relock _, .asleep w =>
    if s.holder (lockOf w.chan) = none then
      some ((s.take (lockOf w.chan) (.proc p)).goto (.proc p) (.checking w w.checks))
    else none
  | _, _ => none

def step (l : Label) (s : State) : Option State :=
  match l with
  | .kernel l =>
    if isEnvironment l = true ∧ s.calm l then
      (Kernel.step pol l s.k).map fun k => { s with k := k }
    else none
  | .acquire a _ | .release a | .set a _ | .clear a _ | .visit a =>
    if s.acts a then s.agentStep lockOf pol a l (s.pc a) else none
  | .enter c _ | .check c | .prepare c | .unlock c | .sleep c | .relock c =>
    (s.k.cpu c).bind fun p => s.loopStep lockOf pol c p l (s.pc (.proc p))

/-- What a step does and when it is possible. -/
inductive Move (s : State) : Label → State → Prop where
  | kernel {l : Kernel.Label} {k' : KernelState} (env : isEnvironment l = true)
      (calm : s.calm l) (move : Kernel.Move pol s.k l k') : Move s (.kernel l) { s with k := k' }
  | acquire {a : Agent} {lock : Nat} (acts : s.acts a) (pc : s.pc a = .idle)
      (free : s.holder lock = none) :
      Move s (.acquire a lock) ((s.take lock a).goto a (.inside lock))
  | release {a : Agent} {lock : Nat} (pc : s.pc a = .inside lock) :
      Move s (.release a) ((s.giveBack lock).goto a .idle)
  | set {a : Agent} {chan : Nat} (pc : s.pc a = .inside (lockOf chan)) :
      Move s (.set a chan)
        ({ s with condition := Function.update s.condition chan true }.goto a (.waking chan 0))
  | clear {a : Agent} {chan : Nat} (pc : s.pc a = .inside (lockOf chan)) :
      Move s (.clear a chan) { s with condition := Function.update s.condition chan false }
  | wake {a : Agent} {chan : Nat} {i : Slot} (pc : s.pc a = .waking chan i.val) :
      Move s (.visit a)
        { s.goto a (.waking chan (i.val + 1)) with k := wakeupSlot pol chan i s.k }
  | wakeEnd {a : Agent} {chan next : Nat} (pc : s.pc a = .waking chan next) (all : 64 ≤ next) :
      Move s (.visit a) (s.goto a (.inside (lockOf chan)))
  | nudge {a : Agent} {w : WaitLoop} {chan : Nat} {i : Slot}
      (pc : s.pc a = .nudging w chan i.val) :
      Move s (.visit a)
        { s.goto a (.nudging w chan (i.val + 1)) with k := wakeupSlot pol chan i s.k }
  | enter {c : CpuId} {p : Slot} {w : WaitLoop} (on : s.k.cpu c = some p)
      (pc : s.pc (.proc p) = .inside (lockOf w.chan)) :
      Move s (.enter c w) (s.goto (.proc p) (.checking w w.checks))
  | nudgeBegin {c : CpuId} {p : Slot} {w : WaitLoop} {chan : Nat} (on : s.k.cpu c = some p)
      (pc : s.pc (.proc p) = .checking w []) :
      Move s (.check c) (s.goto (.proc p) (.nudging w chan 0))
  | pass {c : CpuId} {p : Slot} {w : WaitLoop} {check : Check} {rest : List Check}
      (on : s.k.cpu c = some p) (pc : s.pc (.proc p) = .checking w (check :: rest))
      (condition : check = .condition → s.condition w.chan = false)
      (killed : check = .killed → (s.k.proc p).killed = false) :
      Move s (.check c) (s.goto (.proc p) (.checking w rest))
  | leave {c : CpuId} {p : Slot} {w : WaitLoop} {rest : List Check} (on : s.k.cpu c = some p)
      (pc : s.pc (.proc p) = .checking w (.condition :: rest))
      (condition : s.condition w.chan = true) :
      Move s (.check c) (s.goto (.proc p) (.inside (lockOf w.chan)))
  | quit {c : CpuId} {p : Slot} {w : WaitLoop} {rest : List Check} (on : s.k.cpu c = some p)
      (pc : s.pc (.proc p) = .checking w (.killed :: rest))
      (killed : (s.k.proc p).killed = true) :
      Move s (.check c) ((s.giveBack (lockOf w.chan)).goto (.proc p) .idle)
  | prepare {c : CpuId} {p : Slot} {w : WaitLoop} (on : s.k.cpu c = some p)
      (pc : (s.pc (.proc p)).mustSleep = some w) (valid : w.chan ≠ 0) :
      Move s (.prepare c) { s.goto (.proc p) (.prepared w) with
        k := s.k.modify p fun q => { q with chan := w.chan } }
  | unlock {c : CpuId} {p : Slot} {w : WaitLoop} (on : s.k.cpu c = some p)
      (pc : s.pc (.proc p) = .prepared w) :
      Move s (.unlock c) ((s.giveBack (lockOf w.chan)).goto (.proc p) (.released w))
  | sleepSkip {c : CpuId} {p : Slot} {w : WaitLoop} (on : s.k.cpu c = some p)
      (pc : s.pc (.proc p) = .released w) (woken : (s.k.proc p).chan = 0) :
      Move s (.sleep c) (s.goto (.proc p) (.asleep w))
  | sleep {c : CpuId} {p : Slot} {w : WaitLoop} (on : s.k.cpu c = some p)
      (pc : s.pc (.proc p) = .released w) (prepared : (s.k.proc p).chan ≠ 0) :
      Move s (.sleep c) { s.goto (.proc p) (.asleep w) with
        k := (s.k.modify p fun q => { q with state := .sleeping }).vacate c }
  | relock {c : CpuId} {p : Slot} {w : WaitLoop} (on : s.k.cpu c = some p)
      (pc : s.pc (.proc p) = .asleep w) (free : s.holder (lockOf w.chan) = none) :
      Move s (.relock c) ((s.take (lockOf w.chan) (.proc p)).goto (.proc p) (.checking w w.checks))

variable {lockOf pol} {s s' : State} {l : Label} {a : Agent} {p : Slot} {c : CpuId}

lemma Move.of_visit (h : s.agentStep lockOf pol a (.visit a) (s.pc a) = some s') :
    Move lockOf pol s (.visit a) s' := by
  rcases hpc : s.pc a <;> rw [hpc] at h <;> try cases h
  next chan next =>
    simp only [State.agentStep] at h
    split at h
    next hlt =>
      obtain ⟨k', hm, rfl⟩ := of_kernel h
      cases hm
      exact .wake (i := ⟨next, hlt⟩) hpc
    next hge =>
      cases h
      exact .wakeEnd hpc (Nat.le_of_not_lt hge)
  next w chan next =>
    obtain ⟨hlt, h⟩ := dite_none_right_eq_some.mp h
    obtain ⟨k', hm, rfl⟩ := of_kernel h
    cases hm
    exact .nudge (i := ⟨next, hlt⟩) hpc

lemma Move.of_check (on : s.k.cpu c = some p)
    (h : s.loopStep lockOf pol c p (.check c) (s.pc (.proc p)) = some s') :
    Move lockOf pol s (.check c) s' := by
  rcases hpc : s.pc (.proc p) <;> rw [hpc] at h <;> try cases h
  next w rest =>
    cases rest with
    | nil =>
      obtain ⟨chan, -, rfl⟩ := map_eq_some_iff.mp h
      exact .nudgeBegin on hpc
    | cons check rest =>
      cases h
      cases check with
      | condition =>
        rw [State.checkStep]
        split
        next hc => exact .leave on hpc hc
        next hc => exact .pass on hpc (fun _ => by simpa using hc) (fun h => by cases h)
      | killed =>
        rw [State.checkStep]
        split
        next hk => exact .quit on hpc hk
        next hk => exact .pass on hpc (fun h => by cases h) (fun _ => by simpa using hk)

/-- Every step is a move. -/
lemma Move.of_step (h : step lockOf pol l s = some s') : Move lockOf pol s l s' := by
  cases l with
  | kernel l =>
    obtain ⟨⟨henv, hcalm⟩, h⟩ := ite_none_right_eq_some.mp h
    obtain ⟨k', hm, rfl⟩ := of_kernel h
    exact .kernel henv hcalm hm
  | acquire a lock =>
    obtain ⟨hacts, h⟩ := ite_none_right_eq_some.mp h
    rcases hpc : s.pc a <;> rw [hpc] at h <;> try cases h
    obtain ⟨hfree, rfl⟩ := of_guard h
    exact .acquire hacts hpc hfree
  | release a =>
    obtain ⟨-, h⟩ := ite_none_right_eq_some.mp h
    rcases hpc : s.pc a <;> rw [hpc] at h <;> cases h
    exact .release hpc
  | set a chan =>
    obtain ⟨-, h⟩ := ite_none_right_eq_some.mp h
    rcases hpc : s.pc a <;> rw [hpc] at h <;> try cases h
    obtain ⟨rfl, rfl⟩ := of_guard h
    exact .set hpc
  | clear a chan =>
    obtain ⟨-, h⟩ := ite_none_right_eq_some.mp h
    rcases hpc : s.pc a <;> rw [hpc] at h <;> try cases h
    obtain ⟨rfl, rfl⟩ := of_guard h
    exact .clear hpc
  | visit a => exact Move.of_visit (ite_none_right_eq_some.mp h).2
  | enter c w =>
    obtain ⟨p, on, h⟩ := bind_eq_some_iff.mp h
    rcases hpc : s.pc (.proc p) <;> rw [hpc] at h <;> try cases h
    obtain ⟨rfl, rfl⟩ := of_guard h
    exact .enter on hpc
  | check c =>
    obtain ⟨p, on, h⟩ := bind_eq_some_iff.mp h
    exact Move.of_check on h
  | prepare c =>
    obtain ⟨p, on, h⟩ := bind_eq_some_iff.mp h
    obtain ⟨w, hw, h⟩ := bind_eq_some_iff.mp h
    obtain ⟨k', hm, rfl⟩ := of_kernel h
    cases hm with
    | sleepPrepare hon hvalid =>
      cases hon.symm.trans on
      exact .prepare on hw hvalid
  | unlock c =>
    obtain ⟨p, on, h⟩ := bind_eq_some_iff.mp h
    rcases hpc : s.pc (.proc p) <;> rw [hpc] at h <;> cases h
    exact .unlock on hpc
  | sleep c =>
    obtain ⟨p, on, h⟩ := bind_eq_some_iff.mp h
    rcases hpc : s.pc (.proc p) <;> rw [hpc] at h <;> try cases h
    simp only [State.loopStep] at h
    split at h
    next hwoken =>
      cases h
      exact .sleepSkip on hpc hwoken
    · obtain ⟨k', hm, rfl⟩ := of_kernel h
      cases hm with
      | sleep hon hchan =>
        cases hon.symm.trans on
        exact .sleep on hpc hchan
  | relock c =>
    obtain ⟨p, on, h⟩ := bind_eq_some_iff.mp h
    rcases hpc : s.pc (.proc p) <;> rw [hpc] at h <;> try cases h
    obtain ⟨hfree, rfl⟩ := of_guard h
    exact .relock on hpc hfree

/-- What a step does to the kernel is a step of the kernel, or nothing. -/
lemma Move.kernel_or_same (hm : Move lockOf pol s l s') :
    s'.k = s.k ∨ ∃ kl, Kernel.Move pol s.k kl s'.k := by
  cases hm with
  | kernel _ _ hk => exact .inr ⟨_, hk⟩
  | wake | nudge => exact .inr ⟨_, .wakeup⟩
  | prepare on _ hvalid => exact .inr ⟨_, .sleepPrepare on hvalid⟩
  | sleep on _ hchan => exact .inr ⟨_, .sleep on hchan⟩
  | acquire | release | set | clear | wakeEnd | enter | nudgeBegin | pass | leave | quit
  | unlock | sleepSkip | relock => exact .inl rfl

/-- Each CPU keeps a process of its own. -/
lemma Move.seated (hm : Move lockOf pol s l s') (h : Seated s.k) : Seated s'.k := by
  rcases hm.kernel_or_same with hk | ⟨kl, hk⟩
  · rw [hk]
    exact h
  · exact h.step hk

end CshellXv6.Kernel.WaitLoops
