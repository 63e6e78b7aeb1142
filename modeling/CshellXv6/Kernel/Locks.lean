import CshellXv6.Lib.Locking
import CshellXv6.Kernel.Scheduler

/-! # The locks of the process table

What the CPUs do to the process table, instruction by instruction: every
`acquire` and `release` of a process lock, of `wait_lock`, `tickslock`,
`sequence_lock` and `pid_lock`, with the accesses to the table in between.

A CPU holds a spinlock with interrupts off, so it goes on until it has released
all of them; whenever it holds none, it may be interrupted, and a process may go
on later on another CPU. A `swtch` changes the stack and not the locks: what the
process has acquired before `sched` is released by the scheduler of the same
CPU, and what the scheduler has acquired before it switches is released by the
process.

The MLFQ and the FCFS scheduler hold the lock of the best candidate while they
acquire those of later slots, so that a CPU waits for a process lock while it
holds another one. The order of the slots keeps this from going round in a
circle.
-/

namespace CshellXv6.Kernel.Locks

open Lib Lib.Prog List Option

/-- The spinlocks around the process table. -/
inductive Lock where
  | wait
  | ticks
  | proc (i : Slot)
  | sequence
  | pid
deriving DecidableEq, Repr, Fintype

/-- What a CPU does, with the locks it takes. -/
abbrev Code := Prog Lock KernelState

/-! ## The code -/

variable (pol : Policy)

/-- `mlfq_enqueue_locked`. -/
def mlfqEnqueueLocked (i : Slot) : Code Unit :=
  withLock .sequence (store (enqueueLocked i))

/-- The call of `enqueue_locked`, where there is one. -/
def enqueueLockedIfOrdered (i : Slot) : Code Unit :=
  match pol with
  | .rr => pure ()
  | .fcfs => mlfqEnqueueLocked i
  | .mlfq => mlfqEnqueueLocked i

/-- Change one slot. -/
def update (i : Slot) (f : Proc → Proc) : Code Unit := store fun k => k.modify i f

/-- The body of the loop of `wakeup`. -/
def wakeupSlot (chan : Nat) (i : Slot) : Code Unit :=
  withLock (.proc i) do
    let k ← load
    if (k.proc i).chan = chan then
      update i fun p => { p with chan := 0 }
      let k ← load
      if (k.proc i).state = .sleeping then
        update i fun p => { p with state := .runnable }
        enqueueLockedIfOrdered pol i
      else pure ()
    else pure ()

def wakeup (chan : Nat) : Code Unit := each (wakeupSlot pol chan) (List.finRange 64)

/-- The body of the loop of `mlfq_boost`. -/
def boostSlot (i : Slot) : Code Unit :=
  withLock (.proc i) do
    let k ← load
    if (k.proc i).live then
      update i fun p => { p with queue := 0, sliceTicks := 0, lastboost := k.ticks }
      let k ← load
      if (k.proc i).state = .runnable then mlfqEnqueueLocked i else pure ()
    else pure ()

def mlfqBoost : Code Unit := each boostSlot (List.finRange 64)

/-- `clockintr` on the CPU `c`. -/
def clockintr (c : CpuId) : Code Unit :=
  if c = cpu0 then
    withLock .ticks do
      store (chargeTick pol)
      let k ← load
      if boostDue pol k then
        mlfqBoost
        wakeup pol ticksChan
      else wakeup pol ticksChan
  else pure ()

/-- `kkill`. -/
def kkill (pid : Int) : Code Int := do
  let found ← search (fun i => withLock (.proc i) do
    let k ← load
    if (k.proc i).pid = pid then
      update i killProc
      pure (some 0)
    else pure none) (List.finRange 64)
  pure (found.getD (-1))

/-- `killed`. -/
def killed (i : Slot) : Code Bool :=
  withLock (.proc i) do
    let k ← load
    pure (k.proc i).killed

/-- `setkilled`. -/
def setkilled (i : Slot) : Code Unit :=
  withLock (.proc i) (update i fun p => { p with killed := true })

/-- `sleep_prepare`, called by the process `i`. -/
def sleepPrepare (i : Slot) (chan : Nat) : Code Unit :=
  withLock (.proc i) (update i fun p => { p with chan := chan })

/-- The CPU of the process `i` is back in its scheduler: `c->proc = 0`. -/
def leave (i : Slot) : Code Unit :=
  store fun k => { k with cpu := fun c => if k.cpu c = some i then none else k.cpu c }

/-- `sleep`, called by the process `i`. If it goes to sleep, the scheduler releases
its lock. -/
def sleep (i : Slot) : Code Unit :=
  withLock (.proc i) do
    let k ← load
    if (k.proc i).chan ≠ 0 then
      update i fun p => { p with state := .sleeping }
      leave i
    else pure ()

/-- The part of `yield` between `#ifdef SCHEDULER_MLFQ` and `#endif`. -/
def requeue (i : Slot) : Code Unit :=
  match pol with
  | .mlfq => do
      update i expire
      mlfqEnqueueLocked i
  | .fcfs => pure ()
  | .rr => pure ()

/-- `yield`, called by the process `i`, up to the scheduler's release of its lock. -/
def yield (i : Slot) : Code Unit :=
  withLock (.proc i) do
    requeue pol i
    update i fun p => { p with state := .runnable }
    leave i

/-! ### The scheduler -/

/-- `if (selected != 0) release(&selected->lock)`. -/
def releaseSelected : Option Slot → Code Unit
  | some j => give (.proc j)
  | none => pure ()

/-- The body of the loop over the slots, with `selected` and `selected_seq`. -/
def scanSlot (test : Proc → Bool) (s : Option Slot × Nat) (i : Slot) :
    Code (Option Slot × Nat) := do
  take (.proc i)
  let k ← load
  if test (k.proc i) = true ∧ (k.proc i).sequence < s.2 then
    releaseSelected s.1
    pure (some i, (k.proc i).sequence)
  else
    give (.proc i)
    pure s

def scanTable (test : Proc → Bool) : Code (Option Slot × Nat) :=
  (List.finRange 64).foldlM (scanSlot test) (none, 2 ^ 64 - 1)

/-- The loop over the queues. -/
def scanQueues : List Int → Code (Option Slot)
  | [] => pure none
  | q :: qs => do
      let s ← scanTable (queueTest q)
      match s.1 with
      | some i => pure (some i)
      | none => scanQueues qs

/-- The body of a loop that looks for a process in a state, and keeps its lock. -/
def takeIf (st : ProcState) (i : Slot) : Code (Option Slot) := do
  take (.proc i)
  let k ← load
  if (k.proc i).state = st then pure (some i)
  else
    give (.proc i)
    pure none

/-- The process chosen, whose lock is then held. -/
def choose : Code (Option Slot) :=
  match pol with
  | .mlfq => scanQueues [0, 1, 2, 3]
  | .fcfs => do
      let s ← scanTable runnableTest
      pure s.1
  | .rr => search (takeIf .runnable) (List.finRange 64)

/-- One round of the loop of `scheduler` on the CPU `c`, up to the release of its lock
by the process it has switched to: the end of `yield` or of `sleep`, or the
beginning of `forkret`. -/
def scheduler (c : CpuId) : Code Unit := do
  match ← choose pol with
  | some i => do
      store (switchTo c i)
      give (.proc i)
  | none => pure ()

/-! ### Creating and collecting processes -/

/-- `allocpid`. -/
def allocpid : Code Int :=
  withLock .pid do
    let k ← load
    store fun k => { k with nextpid := toInt (k.nextpid + 1) }
    pure k.nextpid

/-- `allocproc`, which keeps the lock of the slot it has found; `noMemory` says
that it finds no memory for the process. -/
def allocproc (noMemory : Bool) : Code (Option Slot) := do
  match ← search (takeIf .unused) (List.finRange 64) with
  | none => pure none
  | some i => do
      let pid ← allocpid
      store fun k => { k with proc := (Kernel.allocproc i { k with nextpid := pid }).proc }
      if noMemory then
        update i freeproc
        give (.proc i)
        pure none
      else pure (some i)

/-- `kfork`, called by the process `p`; `noCopy` says that `uvmcopy` fails. -/
def kfork (p : Slot) (noMemory noCopy : Bool) : Code Int := do
  match ← allocproc noMemory with
  | none => pure (-1)
  | some np =>
    if noCopy then
      update np freeproc
      give (.proc np)
      pure (-1)
    else
      let k ← load
      give (.proc np)
      withLock .wait (update np fun q => { q with parent := some p })
      withLock (.proc np) do
        enqueueLockedIfOrdered pol np
        update np fun q => { q with state := .runnable }
      pure (k.proc np).pid

/-- The address of a process as a channel. -/
def procChan (i : Slot) : Nat := i.val + 2

/-- `reparent`. -/
def reparent (p : Slot) : Code Unit :=
  each (fun i => do
    let k ← load
    if (k.proc i).parent = some p then
      update i fun q => { q with parent := some initproc }
      wakeup pol (procChan initproc)
    else pure ()) (List.finRange 64)

/-- `kexit`, from the `acquire` of `wait_lock` on, up to the scheduler's release of the
lock of the process. -/
def kexit (p : Slot) (status : Int) : Code Unit := do
  take .wait
  reparent pol p
  let k ← load
  wakeup pol (((k.proc p).parent.map procChan).getD 0)
  take (.proc p)
  update p (exitProc status)
  give .wait
  leave p
  give (.proc p)

/-- The search of `kwait` for a child that has exited, which says whether there are
children and what to return; `badAddr` says that `copyout` fails. -/
def collectChild (p : Slot) (badAddr : Bool) (s : Bool × Option Int) (i : Slot) :
    Code (Bool × Option Int) :=
  match s.2 with
  | some _ => pure s
  | none => do
      let k ← load
      if (k.proc i).parent = some p then
        withLock (.proc i) do
          let k ← load
          if (k.proc i).state = .zombie then
            if badAddr then pure (true, some (-1))
            else
              update i collectProc
              pure (true, some (k.proc i).pid)
          else pure (true, none)
      else pure s

/-- What `kwait` does under `wait_lock`: the result to return, or none if it is to
sleep first. -/
def kwaitRound (p : Slot) (badAddr : Bool) : Code (Option Int) :=
  withLock .wait do
    let s ← (List.finRange 64).foldlM (collectChild p badAddr) (false, none)
    match s with
    | (_, some r) => pure (some r)
    | (false, none) => pure (some (-1))
    | (true, none) =>
      if ← killed p then pure (some (-1))
      else
        sleepPrepare p (procChan p)
        pure none

/-- `kwait`, called by the process `p`, for at most the given number of rounds. -/
def kwait (p : Slot) (badAddr : Bool) : Nat → Code (Option Int)
  | 0 => pure none
  | rounds + 1 => do
      match ← kwaitRound p badAddr with
      | some r => pure (some r)
      | none => do
          sleep p
          kwait p badAddr rounds

/-! ### The clock -/

/-- `sys_uptime`. -/
def uptime : Code Nat :=
  withLock .ticks do
    let k ← load
    pure k.ticks

/-- What `sys_pause` does under `tickslock`: the result to return, or the value of
`ticks0` if it is to sleep first. -/
def pauseRound (p : Slot) (n : Nat) (ticks0 : Option Nat) : Code (Int ⊕ Nat) :=
  withLock .ticks do
    let k ← load
    let ticks0 := ticks0.getD k.ticks
    if (k.ticks + 2 ^ 32 - ticks0) % 2 ^ 32 < n then
      if ← killed p then pure (.inl (-1))
      else
        sleepPrepare p ticksChan
        pure (.inr ticks0)
    else pure (.inl 0)

/-- `sys_pause`, called by the process `p` for `n` ticks, for at most the given number
of rounds. -/
def pause (p : Slot) (n : Nat) (ticks0 : Option Nat) : Nat → Code (Option Int)
  | 0 => pure none
  | rounds + 1 => do
      match ← pauseRound p n ticks0 with
      | .inl r => pure (some r)
      | .inr t => do
          sleep p
          pause p n (some t) rounds

/-! ### What a CPU may start -/

/-- The functions above that are called without locks. A number of rounds bounds
loops that may go on forever. -/
inductive Routine where
  | scheduler
  | clockintr
  | mlfqBoost
  | wakeup (chan : Nat)
  | kkill (pid : Int)
  | killed (i : Slot)
  | setkilled (i : Slot)
  | sleepPrepare (i : Slot) (chan : Nat)
  | sleep (i : Slot)
  | yield (i : Slot)
  | kfork (p : Slot) (noMemory noCopy : Bool)
  | kexit (p : Slot) (status : Int)
  | kwait (p : Slot) (badAddr : Bool) (rounds : Nat)
  | uptime
  | pause (p : Slot) (n : Nat) (rounds : Nat)
deriving DecidableEq, Repr

/-- Forget the result. -/
def ignore {α : Type} (p : Code α) : Code Unit := p >>= fun _ => pure ()

def Routine.code (c : CpuId) : Routine → Code Unit
  | .scheduler => Locks.scheduler pol c
  | .clockintr => Locks.clockintr pol c
  | .mlfqBoost => Locks.mlfqBoost
  | .wakeup chan => Locks.wakeup pol chan
  | .kkill pid => ignore (Locks.kkill pid)
  | .killed i => ignore (Locks.killed i)
  | .setkilled i => Locks.setkilled i
  | .sleepPrepare i chan => Locks.sleepPrepare i chan
  | .sleep i => Locks.sleep i
  | .yield i => Locks.yield pol i
  | .kfork p noMemory noCopy => ignore (Locks.kfork pol p noMemory noCopy)
  | .kexit p status => Locks.kexit pol p status
  | .kwait p badAddr rounds => ignore (Locks.kwait p badAddr rounds)
  | .uptime => ignore Locks.uptime
  | .pause p n rounds => ignore (Locks.pause p n none rounds)

/-! ## What the code does if it runs alone

Without other CPUs, the code does to the table what its critical sections do. -/

section

variable (k : KernelState) (i : Slot)

@[simp] lemma exec_update (f : Proc → Proc) : (update i f).exec k = ((), k.modify i f) := rfl

@[simp] lemma exec_enqueueLockedIfOrdered :
    (enqueueLockedIfOrdered pol i).exec k = ((), enqueueIfOrdered pol i k) := by
  cases pol with
  | rr | fcfs | mlfq => rfl

lemma exec_wakeupSlot (chan : Nat) :
    (wakeupSlot pol chan i).exec k = ((), Kernel.wakeupSlot pol chan i k) := by
  rw [wakeupSlot, Kernel.wakeupSlot, exec_withLock, exec_bind, exec_load]
  dsimp only
  split
  · rw [exec_bind, exec_update, exec_bind, exec_load]
    dsimp only
    split
    · rw [exec_bind, exec_update, exec_enqueueLockedIfOrdered]
    · rfl
  · rfl

lemma exec_wakeup (chan : Nat) : (wakeup pol chan).exec k = ((), Kernel.wakeup pol chan k) := by
  rw [wakeup, Kernel.wakeup, exec_each]
  simp only [exec_wakeupSlot]

lemma exec_boostSlot : (boostSlot i).exec k = ((), Kernel.boostSlot i k) := by
  rw [boostSlot, Kernel.boostSlot, exec_withLock, exec_bind, exec_load]
  dsimp only
  split
  · rw [exec_bind, exec_update, exec_bind, exec_load]
    dsimp only
    split
    all_goals rfl
  · rfl

lemma exec_mlfqBoost : mlfqBoost.exec k = ((), Kernel.mlfqBoost k) := by
  rw [mlfqBoost, Kernel.mlfqBoost, exec_each]
  simp only [exec_boostSlot]

/-- The lock-free reading of `clockintr`. -/
lemma exec_clockintr : (clockintr pol cpu0).exec k = ((), Kernel.clockintr pol k) := by
  rw [clockintr, if_pos rfl, exec_withLock, exec_bind, exec_store, exec_bind, exec_load]
  unfold Kernel.clockintr
  dsimp only
  split
  · rw [exec_bind, exec_mlfqBoost, exec_wakeup]
  · rw [exec_wakeup]

lemma exec_yield : (yield pol i).exec k = (leave i).exec (yieldProc pol i k) := by
  cases pol with
  | rr | fcfs | mlfq => rfl

variable {k i} {held held' : Finset Slot} {s s' : Scan} {test : Proc → Bool} {sel : Option Slot}
  {qs : List Int} {is : List Slot} {k' : KernelState} {c : CpuId}

/-- The body of the scan makes the same choice, and does not change the table. -/
lemma exec_scanSlot (h : Kernel.scanSlot test k s i = some s') :
    (scanSlot test (s.selected, s.selectedSeq) i).exec k = ((s'.selected, s'.selectedSeq), k) := by
  obtain ⟨held, -, hs⟩ := bind_eq_some_iff.mp h
  rw [scanSlot, exec_bind, exec_take, exec_bind, exec_load]
  dsimp only
  by_cases hc : test (k.proc i) = true ∧ (k.proc i).sequence < s.selectedSeq
  · rw [if_pos hc] at hs ⊢
    obtain ⟨held', -, rfl⟩ := map_eq_some_iff.mp hs
    cases s.selected with
    | none | some j => rfl
  · rw [if_neg hc] at hs ⊢
    obtain ⟨held', -, rfl⟩ := map_eq_some_iff.mp hs
    rfl

lemma exec_scanTable (h : Kernel.scanTable test k held = some s) :
    (scanTable test).exec k = ((s.selected, s.selectedSeq), k) := by
  -- for the rest of the slots, from any point of the scan on
  have hrest : ∀ (is : List Slot) (s0 : Scan), is.foldlM (Kernel.scanSlot test k) s0 = some s →
      (is.foldlM (scanSlot test) (s0.selected, s0.selectedSeq)).exec k =
        ((s.selected, s.selectedSeq), k) := by
    intro is
    induction is with
    | nil =>
      intro s0 h0
      cases h0
      rfl
    | cons i is ih =>
      intro s0 h0
      rw [foldlM_cons] at h0
      obtain ⟨s1, h1, h2⟩ := bind_eq_some_iff.mp h0
      rw [foldlM_cons, exec_bind, exec_scanSlot h1]
      exact ih s1 h2
  exact hrest _ _ h

lemma exec_scanQueues
    (h : Kernel.scanQueues k qs held = some (sel, held')) : (scanQueues qs).exec k = (sel, k) := by
  induction qs generalizing held with
  | nil =>
    cases h
    rfl
  | cons q qs ih =>
    obtain ⟨s, hs, hnext⟩ := bind_eq_some_iff.mp h
    rw [scanQueues, exec_bind, exec_scanTable hs]
    cases hsel : s.selected with
    | none =>
      rw [hsel] at hnext
      exact ih hnext
    | some i =>
      rw [hsel] at hnext
      cases hnext
      rfl

lemma exec_scanFirst (h : Kernel.scanFirst k is held = some (sel, held')) :
    (search (takeIf .runnable) is).exec k = (sel, k) := by
  induction is generalizing held with
  | nil =>
    cases h
    rfl
  | cons i is ih =>
    obtain ⟨held1, -, hnext⟩ := bind_eq_some_iff.mp h
    rw [search, exec_bind, takeIf, exec_bind, exec_take, exec_bind, exec_load]
    dsimp only
    by_cases hrun : (k.proc i).state = .runnable
    · rw [if_pos hrun] at hnext ⊢
      cases hnext
      rfl
    rw [if_neg hrun] at hnext ⊢
    obtain ⟨held2, -, hlast⟩ := bind_eq_some_iff.mp hnext
    exact ih hlast

/-- A scan that nobody interferes with chooses what the model of one CPU's scan
chooses. -/
lemma exec_scheduler
    (h : schedulerRound pol c k = some (k', held)) : (scheduler pol c).exec k = ((), k') := by
  obtain ⟨⟨sel, held'⟩, hsel, hround⟩ := map_eq_some_iff.mp h
  have hchoose : (choose pol).exec k = (sel, k) := by
    cases pol with
    | rr => exact exec_scanFirst hsel
    | fcfs =>
      obtain ⟨s, hs, hpair⟩ := map_eq_some_iff.mp hsel
      cases hpair
      rw [choose, exec_bind, exec_scanTable hs]
      rfl
    | mlfq => exact exec_scanQueues hsel
  rw [scheduler, exec_bind, hchoose]
  cases sel with
  | none | some i =>
    cases hround
    rfl

/-- **The code refines its critical sections.** In a reachable state of the MLFQ or the FCFS
kernel, if no other CPU interferes: the clock interrupt and `yield` do what their critical
sections do, and a round of `scheduler` switches to a process that no other RUNNABLE process
comes before, or finds that there is none. -/
theorem code_refines_sections (hpol : pol ≠ .rr) {ls : List Label}
    (hrun : Run (Kernel.step pol) anyStep (Kernel.boot pol) ls k)
    (hcount : k.enqueues < 2 ^ 64 - 1) (c : CpuId) :
    (clockintr pol cpu0).exec k = ((), Kernel.clockintr pol k) ∧
      (∀ i, k.cpu c = some i → Kernel.step pol (.yield c) k = some ((yield pol i).exec k).2) ∧
      ∃ sel, Choice k (fun j => (k.proc j).state = .runnable) (notAfter pol) sel sel.toFinset ∧
        (scheduler pol c).exec k = ((), sel.elim k fun i => switchTo c i k) := by
  have hvalid := (Ordered.of_run hpol hrun).valid (by omega)
  obtain ⟨sel, held, hsel, hchoice⟩ := select_choice hpol (Leveled.of_run hrun)
    fun j hj => (hvalid.below j (.inl hj)).trans hcount
  refine ⟨exec_clockintr pol k, fun i hi => ?_, sel, hchoice.held ▸ hchoice, ?_⟩
  · rw [exec_yield, Kernel.step, hi, map_some]
    refine congrArg (fun cpu => some { yieldProc pol i k with cpu := cpu }) (funext fun d => ?_)
    rw [yieldProc_cpu]
    by_cases hd : d = c
    · simp [hd, hi]
    · rw [Function.update_of_ne hd, if_neg fun h => hd ((Seated.of_run hrun).alone h hi)]
  · refine exec_scheduler pol (?_ : _ = some (_, held))
    rw [schedulerRound, hsel]
    cases sel with
    | none | some i => rfl

/-- Slot 0 runs on CPU 0, and slot 1 waits: the scheduler of CPU 1 switches to it. -/
theorem code_refines_forked :
    ∃ k, Run (Kernel.step .mlfq) anyStep (Kernel.boot .mlfq)
        [.dispatch 0 0, .allocproc 1, .setParent 0 1, .ready 1] k ∧ k.cpu 0 = some 0 ∧
      (clockintr .mlfq cpu0).exec k = ((), Kernel.clockintr .mlfq k) ∧
      Kernel.step .mlfq (.yield 0) k = some ((yield .mlfq 0).exec k).2 ∧
      (scheduler .mlfq 1).exec k = ((), switchTo 1 1 k) := by
  refine Run.exists_imp (P := fun k => k.cpu 0 = some 0 ∧ k.enqueues < 2 ^ 64 - 1 ∧
    ∀ j, (k.proc j).state = .runnable ↔ j = 1) (by decide +kernel) ?_
  rintro k hrun ⟨hcpu, hcount, hone⟩
  obtain ⟨hclock, hyield, -⟩ := code_refines_sections .mlfq (by decide) hrun hcount 0
  obtain ⟨-, -, sel, hchoice, hround⟩ := code_refines_sections .mlfq (by decide) hrun hcount 1
  have hsel : sel = some 1 := by
    cases sel with
    | none => exact absurd ((hone 1).mpr rfl) (hchoice.none rfl 1)
    | some i => rw [(hone i).mp (hchoice.some i rfl).1]
  subst hsel
  exact ⟨hcpu, hclock, hyield 0 hcpu, hround⟩

end

/-! ## The order of the locks -/

/-- `wait_lock` and `tickslock` come first ("must be acquired before any p->lock"),
then the process locks in the order of the slots, then the locks that are held
for a single access. -/
def Lock.rank : Lock → ℕ
  | .wait => 0
  | .ticks => 0
  | .proc i => i.val + 1
  | .sequence => 65
  | .pid => 65

/-- Only `wait_lock` or `tickslock` are held. -/
def Low (held : Set Lock) : Prop := ∀ m ∈ held, m.rank = 0

section

variable {held : Set Lock} {i j : Slot} {l : Lock}

lemma low_empty : Low ∅ := by
  intro m hm
  cases hm

lemma low_insert (hl : l.rank = 0) : Low (insert l ∅) := by
  rintro m (rfl | hm)
  · exact hl
  · cases hm

lemma Low.below_proc (h : Low held) (i : Slot) : ∀ m ∈ held, m.rank < (Lock.proc i).rank := by
  intro m hm
  rw [h m hm]
  exact Nat.succ_pos _

/-- Under the lock of a process, `sequence_lock` and `pid_lock` may be taken. -/
lemma Low.insert_proc (h : Low held) (i : Slot) : ∀ m ∈ insert (.proc i) held, m.rank < 65 := by
  rintro m (rfl | hm)
  · exact Nat.succ_lt_succ i.isLt
  · rw [h m hm]
    exact Nat.succ_pos _

/-! ### Functions that give back what they take -/

lemma restores_update (i : Slot) (f : Proc → Proc) : (update i f).Restores Lock.rank held :=
  restores_store _

lemma restores_leave (i : Slot) : (leave i).Restores Lock.rank held := restores_store _

lemma restores_mlfqEnqueueLocked (h : ∀ m ∈ held, m.rank < 65) (i : Slot) :
    (mlfqEnqueueLocked i).Restores Lock.rank held :=
  Restores.withLock h (restores_store _)

lemma restores_enqueueLockedIfOrdered (h : ∀ m ∈ held, m.rank < 65) (i : Slot) :
    (enqueueLockedIfOrdered pol i).Restores Lock.rank held := by
  cases pol with
  | rr => exact restores_pure ()
  | fcfs | mlfq => exact restores_mlfqEnqueueLocked h i

lemma restores_wakeupSlot (h : Low held) (chan : Nat) (i : Slot) :
    (wakeupSlot pol chan i).Restores Lock.rank held := by
  refine Restores.withLock (h.below_proc i) ?_
  refine Restores.bind restores_load fun k => ?_
  split
  · refine Restores.bind (restores_update i _) fun _ => ?_
    refine Restores.bind restores_load fun k => ?_
    split
    · refine Restores.bind (restores_update i _) fun _ => ?_
      exact restores_enqueueLockedIfOrdered pol (h.insert_proc i) i
    · exact restores_pure ()
  · exact restores_pure ()

lemma restores_wakeup (h : Low held) (chan : Nat) : (wakeup pol chan).Restores Lock.rank held :=
  Restores.each (restores_wakeupSlot pol h chan) _

lemma restores_boostSlot (h : Low held) (i : Slot) : (boostSlot i).Restores Lock.rank held := by
  refine Restores.withLock (h.below_proc i) ?_
  refine Restores.bind restores_load fun k => ?_
  split
  · refine Restores.bind (restores_update i _) fun _ => ?_
    refine Restores.bind restores_load fun k => ?_
    split
    · exact restores_mlfqEnqueueLocked (h.insert_proc i) i
    · exact restores_pure ()
  · exact restores_pure ()

lemma restores_mlfqBoost (h : Low held) : mlfqBoost.Restores Lock.rank held :=
  Restores.each (restores_boostSlot h) _

lemma restores_clockintr (c : CpuId) : (clockintr pol c).Restores Lock.rank ∅ := by
  unfold clockintr
  split
  · have hlow : Low (insert .ticks ∅) := low_insert rfl
    refine Restores.withLock (fun m hm => by cases hm) ?_
    refine Restores.bind (restores_store _) fun _ => ?_
    refine Restores.bind restores_load fun k => ?_
    split
    · exact Restores.bind (restores_mlfqBoost hlow) fun _ => restores_wakeup pol hlow _
    · exact restores_wakeup pol hlow _
  · exact restores_pure ()

lemma restores_kkill (pid : Int) : (kkill pid).Restores Lock.rank ∅ := by
  have hslot : ∀ i, (withLock (.proc i) do
      let k ← load
      if (k.proc i).pid = pid then
        update i killProc
        pure (some 0)
      else pure none : Code (Option Int)).Restores Lock.rank ∅ := by
    intro i
    refine Restores.withLock (low_empty.below_proc i) ?_
    refine Restores.bind restores_load fun k => ?_
    split
    · exact Restores.bind (restores_update i _) fun _ => restores_pure _
    · exact restores_pure _
  refine Restores.bind (Orderly.search (fun i => (hslot i).weaken ?_) rfl _)
    fun r => restores_pure _
  rintro r h rfl
  by_cases hr : r = none
  · exact .inl ⟨hr, rfl⟩
  · exact .inr ⟨hr, rfl⟩

lemma restores_killed (h : Low held) (i : Slot) : (killed i).Restores Lock.rank held := by
  refine Restores.withLock (h.below_proc i) ?_
  exact Restores.bind restores_load fun k => restores_pure _

lemma restores_setkilled (i : Slot) : (setkilled i).Restores Lock.rank ∅ :=
  Restores.withLock (low_empty.below_proc i) (restores_update i _)

lemma restores_sleepPrepare (h : Low held) (i : Slot) (chan : Nat) :
    (sleepPrepare i chan).Restores Lock.rank held :=
  Restores.withLock (h.below_proc i) (restores_update i _)

lemma restores_sleep (i : Slot) : (sleep i).Restores Lock.rank ∅ := by
  refine Restores.withLock (low_empty.below_proc i) ?_
  refine Restores.bind restores_load fun k => ?_
  split
  · exact Restores.bind (restores_update i _) fun _ => restores_leave i
  · exact restores_pure ()

lemma restores_requeue (h : ∀ m ∈ held, m.rank < 65) (i : Slot) :
    (requeue pol i).Restores Lock.rank held := by
  cases pol with
  | rr | fcfs => exact restores_pure ()
  | mlfq =>
    exact Restores.bind (restores_update i _) fun _ => restores_mlfqEnqueueLocked h i

lemma restores_yield (i : Slot) : (yield pol i).Restores Lock.rank ∅ := by
  refine Restores.withLock (low_empty.below_proc i) ?_
  refine Restores.bind (restores_requeue pol (low_empty.insert_proc i) i) fun _ => ?_
  exact Restores.bind (restores_update i _) fun _ => restores_leave i

/-! ### The scheduler -/

/-- The lock of the selected process. -/
def lockOf : Option Slot → Set Lock
  | some i => {.proc i}
  | none => ∅

/-- The loop invariant of the scan: exactly the lock of the selected process is held,
and all slots still to come are above it. -/
def Scanning (rest : List Slot) (s : Option Slot × Nat) (held : Set Lock) : Prop :=
  held = lockOf s.1 ∧ rest.Pairwise (· < ·) ∧ ∀ i, s.1 = some i → ∀ j ∈ rest, i < j

lemma orderly_scanSlot (test : Proc → Bool) (rest : List Slot) (s : Option Slot × Nat)
    (h : Scanning (i :: rest) s held) :
    (scanSlot test s i).Orderly Lock.rank (Scanning rest) held := by
  obtain ⟨rfl, hsorted, habove⟩ := h
  obtain ⟨hi, hrest⟩ := pairwise_cons.mp hsorted
  have hlow : ∀ m ∈ lockOf s.1, m.rank < (Lock.proc i).rank := by
    intro m hm
    cases hsel : s.1 with
    | none =>
      rw [hsel] at hm
      cases hm
    | some j =>
      rw [hsel] at hm
      cases hm
      exact Nat.succ_lt_succ (habove j hsel i (by simp))
  refine Orderly.bind (orderly_take hlow) ?_
  rintro - h rfl
  refine Restores.bind restores_load fun k => ?_
  split
  · -- the lock of the old candidate goes, that of the new one stays
    have hgone : (releaseSelected s.1).Orderly Lock.rank (fun _ h => h = {.proc i})
        (insert (.proc i) (lockOf s.1)) := by
      cases hsel : s.1 with
      | none =>
        show insert (Lock.proc i) ∅ = {Lock.proc i}
        simp
      | some j =>
        have hji : j ≠ i := (habove j hsel i (by simp)).ne
        have hmem : Lock.proc j ∈ insert (Lock.proc i) (lockOf (some j)) := Or.inr rfl
        refine (orderly_give hmem).weaken ?_
        rintro - h rfl
        ext m
        simp only [lockOf, Set.mem_sdiff, Set.mem_insert_iff, Set.mem_singleton_iff]
        constructor
        · rintro ⟨hm | hm, hne⟩
          · exact hm
          · exact absurd hm hne
        · rintro rfl
          exact ⟨Or.inl rfl, fun he => hji (Lock.proc.inj he).symm⟩
    refine Orderly.bind hgone ?_
    rintro - h rfl
    refine ⟨rfl, hrest, ?_⟩
    intro a ha b hb
    cases ha
    exact hi b hb
  · refine Orderly.bind (orderly_give (Set.mem_insert _ _)) ?_
    rintro - h rfl
    have hnot : Lock.proc i ∉ lockOf s.1 := fun hm => lt_irrefl _ (hlow _ hm)
    refine ⟨Set.insert_sdiff_self_of_notMem hnot, hrest, ?_⟩
    intro a ha b hb
    exact habove a ha b (mem_cons_of_mem _ hb)

lemma orderly_scanTable (test : Proc → Bool) :
    (scanTable test).Orderly Lock.rank (fun s h => h = lockOf s.1) ∅ := by
  have hstart : Scanning (List.finRange 64) (none, 2 ^ 64 - 1) ∅ := by
    refine ⟨rfl, pairwise_lt_finRange 64, ?_⟩
    intro i hi
    cases hi
  refine (Orderly.foldlM (fun i rest s h => orderly_scanSlot test rest s) hstart).weaken ?_
  intro s h hs
  exact hs.1

lemma orderly_scanQueues (qs : List Int) :
    (scanQueues qs).Orderly Lock.rank (fun r h => h = lockOf r) ∅ := by
  induction qs with
  | nil => rfl
  | cons q qs ih =>
    refine Orderly.bind (orderly_scanTable _) ?_
    rintro ⟨sel, seq⟩ h rfl
    cases sel with
    | none => exact ih
    | some i => rfl

/-- A search that keeps the lock of what it has found. -/
lemma orderly_takeIf (st : ProcState) :
    (search (takeIf st) (List.finRange 64)).Orderly Lock.rank (fun r h => h = lockOf r) ∅ := by
  refine Orderly.search ?_ rfl _
  intro i
  refine Orderly.bind (orderly_take (low_empty.below_proc i)) ?_
  rintro - h rfl
  refine Restores.bind restores_load fun k => ?_
  split
  · refine Or.inr ⟨by simp, ?_⟩
    show insert (Lock.proc i) ∅ = {Lock.proc i}
    simp
  refine Orderly.bind (orderly_give (Set.mem_insert _ _)) ?_
  rintro - h rfl
  refine Or.inl ⟨rfl, ?_⟩
  exact Set.insert_sdiff_self_of_notMem (by simp)

lemma orderly_choose : (choose pol).Orderly Lock.rank (fun r h => h = lockOf r) ∅ := by
  cases pol with
  | rr => exact orderly_takeIf .runnable
  | fcfs =>
    refine Orderly.bind (orderly_scanTable _) ?_
    rintro s h rfl
    rfl
  | mlfq => exact orderly_scanQueues _

/-- The last lock is given back. -/
lemma restores_give (i : Slot) :
    (give (.proc i) : Code Unit).Orderly Lock.rank (fun _ h => h = ∅) {.proc i} := by
  have hmem : .proc i ∈ ({.proc i} : Set Lock) := rfl
  refine (orderly_give hmem).weaken ?_
  rintro - h rfl
  simp

lemma restores_scheduler (c : CpuId) : (scheduler pol c).Restores Lock.rank ∅ := by
  refine Orderly.bind (orderly_choose pol) ?_
  rintro r h rfl
  cases r with
  | none => exact restores_pure ()
  | some i => exact Restores.bind (restores_store _) fun _ => restores_give i

/-! ### Creating and collecting processes -/

lemma orderly_allocproc (noMemory : Bool) :
    (allocproc noMemory).Orderly Lock.rank (fun r h => h = lockOf r) ∅ := by
  refine Orderly.bind (orderly_takeIf .unused) ?_
  rintro r h rfl
  cases r with
  | none => rfl
  | some i =>
    have hpid : allocpid.Restores Lock.rank {.proc i} := by
      refine Restores.withLock ?_ ?_
      · rintro m rfl
        exact Nat.succ_lt_succ i.isLt
      · refine Restores.bind restores_load fun k => ?_
        exact Restores.bind (restores_store _) fun _ => restores_pure _
    refine Restores.bind hpid fun pid => ?_
    refine Restores.bind (restores_store _) fun _ => ?_
    split
    · refine Restores.bind (restores_update i _) fun _ => ?_
      refine Orderly.bind (restores_give i) ?_
      rintro - h rfl
      rfl
    · rfl

lemma restores_kfork (p : Slot) (noMemory noCopy : Bool) :
    (kfork pol p noMemory noCopy).Restores Lock.rank ∅ := by
  refine Orderly.bind (orderly_allocproc noMemory) ?_
  rintro r h rfl
  cases r with
  | none => exact restores_pure _
  | some np =>
    dsimp only
    split
    · refine Restores.bind (restores_update np _) fun _ => ?_
      refine Orderly.bind (restores_give np) ?_
      rintro - h rfl
      exact restores_pure _
    refine Restores.bind restores_load fun k => ?_
    refine Orderly.bind (restores_give np) ?_
    rintro - h rfl
    refine Restores.bind (Restores.withLock (fun m hm => by cases hm)
      (restores_update np _)) fun _ => ?_
    refine Restores.bind (Restores.withLock (low_empty.below_proc np) ?_) fun _ => restores_pure _
    refine Restores.bind
      (restores_enqueueLockedIfOrdered pol (low_empty.insert_proc np) np) fun _ => ?_
    exact restores_update np _

lemma restores_reparent (h : Low held) (p : Slot) : (reparent pol p).Restores Lock.rank held := by
  refine Restores.each (fun i => ?_) _
  refine Restores.bind restores_load fun k => ?_
  split
  · exact Restores.bind (restores_update i _) fun _ => restores_wakeup pol h _
  · exact restores_pure ()

lemma restores_kexit (p : Slot) (status : Int) : (kexit pol p status).Restores Lock.rank ∅ := by
  have hlow : Low (insert .wait ∅) := low_insert rfl
  refine Orderly.bind (orderly_take (fun m hm => by cases hm)) ?_
  rintro - h rfl
  refine Restores.bind (restores_reparent pol hlow p) fun _ => ?_
  refine Restores.bind restores_load fun k => ?_
  refine Restores.bind (restores_wakeup pol hlow _) fun _ => ?_
  refine Orderly.bind (orderly_take (hlow.below_proc p)) ?_
  rintro - h rfl
  refine Restores.bind (restores_update p _) fun _ => ?_
  refine Orderly.bind (orderly_give (by simp)) ?_
  rintro - h rfl
  -- the lock of the process is left, for the scheduler
  have hleft : (insert (.proc p) (insert .wait ∅) \ {.wait} : Set Lock) = {.proc p} := by
    ext m
    simp only [Set.mem_sdiff, Set.mem_insert_iff, Set.mem_singleton_iff, Set.mem_empty_iff_false]
    constructor
    · rintro ⟨hm | hm | hm, hne⟩
      · exact hm
      · exact absurd hm hne
      · cases hm
    · rintro rfl
      exact ⟨.inl rfl, by simp⟩
  rw [hleft]
  exact Restores.bind (restores_leave p) fun _ => restores_give p

lemma restores_collectChild (h : Low held) (p : Slot) (badAddr : Bool) (s : Bool × Option Int)
    (i : Slot) : (collectChild p badAddr s i).Restores Lock.rank held := by
  unfold collectChild
  split
  · exact restores_pure s
  refine Restores.bind restores_load fun k => ?_
  split
  · refine Restores.withLock (h.below_proc i) ?_
    refine Restores.bind restores_load fun k => ?_
    split
    · split
      · exact restores_pure _
      · exact Restores.bind (restores_update i _) fun _ => restores_pure _
    · exact restores_pure _
  · exact restores_pure s

lemma restores_kwaitRound (p : Slot) (badAddr : Bool) :
    (kwaitRound p badAddr).Restores Lock.rank ∅ := by
  have hlow : Low (insert .wait ∅) := low_insert rfl
  refine Restores.withLock (fun m hm => by cases hm) ?_
  refine Restores.bind (Restores.foldlM (restores_collectChild hlow p badAddr) _ _) fun s => ?_
  split
  · exact restores_pure _
  · exact restores_pure _
  refine Restores.bind (restores_killed hlow p) fun gone => ?_
  split
  · exact restores_pure _
  · exact Restores.bind (restores_sleepPrepare hlow p _) fun _ => restores_pure _

lemma restores_kwait (p : Slot) (badAddr : Bool) (rounds : Nat) :
    (kwait p badAddr rounds).Restores Lock.rank ∅ := by
  induction rounds with
  | zero => exact restores_pure _
  | succ rounds ih =>
    refine Restores.bind (restores_kwaitRound p badAddr) fun r => ?_
    cases r with
    | none => exact Restores.bind (restores_sleep p) fun _ => ih
    | some r => exact restores_pure _

lemma restores_pauseRound (p : Slot) (n : Nat) (ticks0 : Option Nat) :
    (pauseRound p n ticks0).Restores Lock.rank ∅ := by
  have hlow : Low (insert .ticks ∅) := low_insert rfl
  refine Restores.withLock (fun m hm => by cases hm) ?_
  refine Restores.bind restores_load fun k => ?_
  dsimp only
  split
  · refine Restores.bind (restores_killed hlow p) fun gone => ?_
    split
    · exact restores_pure _
    · exact Restores.bind (restores_sleepPrepare hlow p _) fun _ => restores_pure _
  · exact restores_pure _

lemma restores_pause (p : Slot) (n : Nat) (ticks0 : Option Nat) (rounds : Nat) :
    (pause p n ticks0 rounds).Restores Lock.rank ∅ := by
  induction rounds generalizing ticks0 with
  | zero => exact restores_pure _
  | succ rounds ih =>
    refine Restores.bind (restores_pauseRound p n ticks0) fun r => ?_
    cases r with
    | inl r => exact restores_pure _
    | inr t => exact Restores.bind (restores_sleep p) fun _ => ih _

lemma restores_ignore {α : Type} {p : Code α} (h : p.Restores Lock.rank ∅) :
    (ignore p).Restores Lock.rank ∅ :=
  Restores.bind h fun _ => restores_pure ()

/-- Everything a CPU may start takes its locks in order. -/
lemma Routine.restores (c : CpuId) (r : Routine) : (r.code pol c).Restores Lock.rank ∅ := by
  cases r with
  | scheduler => exact restores_scheduler pol c
  | clockintr => exact restores_clockintr pol c
  | mlfqBoost => exact restores_mlfqBoost low_empty
  | wakeup chan => exact restores_wakeup pol low_empty chan
  | kkill pid => exact restores_ignore (restores_kkill pid)
  | killed i => exact restores_ignore (restores_killed low_empty i)
  | setkilled i => exact restores_setkilled i
  | sleepPrepare i chan => exact restores_sleepPrepare low_empty i chan
  | sleep i => exact restores_sleep i
  | yield i => exact restores_yield pol i
  | kfork p noMemory noCopy => exact restores_ignore (restores_kfork pol p noMemory noCopy)
  | kexit p status => exact restores_kexit pol p status
  | kwait p badAddr rounds => exact restores_ignore (restores_kwait p badAddr rounds)
  | uptime =>
    refine restores_ignore (Restores.withLock (fun m hm => by cases hm) ?_)
    exact Restores.bind restores_load fun k => restores_pure _
  | pause p n rounds => exact restores_ignore (restores_pause p n none rounds)

end

/-- **The scan cannot deadlock.** Any number of CPUs run rounds of the scheduler, the
clock interrupt and the functions that processes call on the process table, in
any interleaving of their instructions and from any contents of the table: no
CPU ever waits for a lock held by a CPU that waits, through whatever chain, for
one that it holds itself. -/
theorem no_circular_lock_wait {C : Type} [DecidableEq C] (cpuid : C → CpuId) (k : KernelState)
    {es : List (ThreadEvent C Routine)} {s : Threads C Lock KernelState}
    (hrun : Run (Threads.step fun c r => r.code pol (cpuid c)) anyStep (Threads.init k) es s) :
    ¬ ∃ c, Relation.TransGen s.WaitsFor c c := by
  rintro ⟨c, hcycle⟩
  exact Threads.not_circular_of_run (fun c r => r.restores pol (cpuid c)) hrun c hcycle

/-- Two CPUs scan at the same time: the first one has found the first process and
keeps its lock, and the second one waits for it. -/
theorem no_circular_lock_wait_two_scans :
    ∃ es s, Run (Threads.step fun (_ : Bool) (r : Routine) => r.code .mlfq cpu0) anyStep
        (Threads.init (Kernel.boot .mlfq)) es s ∧
      s.WaitsFor true false ∧ ¬ ∃ c, Relation.TransGen s.WaitsFor c c := by
  refine ⟨[.start false .scheduler, .start true .scheduler, .next false, .next false],
    Run.exists_imp (P := fun s => s.WaitsFor true false) (by decide +kernel) ?_⟩
  exact fun s hrun hwaits => ⟨hwaits, no_circular_lock_wait .mlfq (fun _ => cpu0) _ hrun⟩

end CshellXv6.Kernel.Locks
