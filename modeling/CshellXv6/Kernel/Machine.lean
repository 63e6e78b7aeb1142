import CshellXv6.Kernel.Proc

/-! # Steps of the kernel

The kernel on any of its CPUs, one critical section at a time: a step is what
one CPU does under one process lock. Loops that take a lock for each slot
(`wakeup`, `mlfq_boost`, the searches of `kkill`, `allocproc` and `kwait`)
therefore contribute a step for each slot at which they do something, and
steps of other CPUs may come between them.

The machine allows more than the kernel does: any RUNNABLE process may be
dispatched, a boost may visit any slot at any time, a running process may
yield at any time. What holds in all its runs holds in those of the kernel.
-/

namespace CshellXv6.Kernel

open Option

/-- A critical section, with the CPU that runs it where that matters. -/
inductive Label where
  | dispatch (c : CpuId) (i : Slot)
  | charge
  | boost (i : Slot)
  | wakeup (chan : Nat) (i : Slot)
  | yield (c : CpuId)
  | sleepPrepare (c : CpuId) (chan : Nat)
  | sleep (c : CpuId)
  | kkill (pid : Int) (i : Slot)
  | setkilled (c : CpuId)
  /-- `allocproc` succeeds, and so does the rest of that critical section. -/
  | allocproc (i : Slot)
  /-- Memory runs out in `allocproc` or in `uvmcopy`. -/
  | allocFail (i : Slot)
  | setParent (c : CpuId) (i : Slot)
  | ready (i : Slot)
  | reparent (c : CpuId) (i : Slot)
  | exit (c : CpuId) (status : Int)
  | collect (c : CpuId) (i : Slot)
deriving DecidableEq, Repr

variable (pol : Policy)

/-- One critical section. There is no step where the code does nothing at the
slot, and none where it panics. -/
def step : Label → KernelState → Option KernelState
  | .dispatch c i, k =>
    if k.cpu c = none ∧ (k.proc i).state = .runnable then some (switchTo c i k) else none
  | .charge, k => some (chargeTick pol k)
  | .boost i, k => if pol = .mlfq then some (boostSlot i k) else none
  | .wakeup chan i, k => some (wakeupSlot pol chan i k)
  | .yield c, k => (k.cpu c).map fun i => (yieldProc pol i k).vacate c
  | .sleepPrepare c chan, k =>
    (k.cpu c).bind fun i =>
      -- `panic("sleep_prepare: zero chan")`
      if chan = 0 then none else some (k.modify i fun p => { p with chan := chan })
  | .sleep c, k =>
    (k.cpu c).bind fun i =>
      -- if the wakeup came first, `sleep` returns at once
      if (k.proc i).chan ≠ 0 then
        some ((k.modify i fun p => { p with state := .sleeping }).vacate c)
      else none
  -- the pid of a free slot is 0, which `kill(0)` finds
  | .kkill pid i, k => if (k.proc i).pid = pid then some (k.modify i killProc) else none
  | .setkilled c, k => (k.cpu c).map fun i => k.modify i fun p => { p with killed := true }
  | .allocproc i, k =>
    if (k.proc i).state = .unused then some (allocproc i k) else none
  | .allocFail i, k =>
    if (k.proc i).state = .unused then some ((allocproc i k).modify i freeproc) else none
  | .setParent c i, k =>
    (k.cpu c).bind fun p =>
      if (k.proc i).state = .used then
        some (k.modify i fun q => { q with parent := some p })
      else none
  | .ready i, k => if (k.proc i).state = .used then some (makeRunnable pol i k) else none
  | .reparent c i, k =>
    (k.cpu c).bind fun p =>
      if (k.proc i).parent = some p then
        some (k.modify i fun q => { q with parent := some initproc })
      else none
  | .exit c status, k =>
    (k.cpu c).bind fun p =>
      -- `panic("init exiting")`
      if p = initproc then none else some ((k.modify p (exitProc status)).vacate c)
  | .collect c i, k =>
    (k.cpu c).bind fun p =>
      if (k.proc i).parent = some p ∧ (k.proc i).state = .zombie then
        some (k.modify i collectProc)
      else none

/-- What a step does and when it is possible, by its label. -/
inductive Move (k : KernelState) : Label → KernelState → Prop where
  | dispatch {c : CpuId} {i : Slot} (idle : k.cpu c = none)
      (runnable : (k.proc i).state = .runnable) : Move k (.dispatch c i) (switchTo c i k)
  | charge : Move k .charge (chargeTick pol k)
  | boost {i : Slot} (mlfq : pol = .mlfq) : Move k (.boost i) (boostSlot i k)
  | wakeup {chan : Nat} {i : Slot} : Move k (.wakeup chan i) (wakeupSlot pol chan i k)
  | yield {c : CpuId} {i : Slot} (on : k.cpu c = some i) :
      Move k (.yield c) ((yieldProc pol i k).vacate c)
  | sleepPrepare {c : CpuId} {chan : Nat} {i : Slot} (on : k.cpu c = some i) (valid : chan ≠ 0) :
      Move k (.sleepPrepare c chan) (k.modify i fun p => { p with chan := chan })
  | sleep {c : CpuId} {i : Slot} (on : k.cpu c = some i) (prepared : (k.proc i).chan ≠ 0) :
      Move k (.sleep c) ((k.modify i fun p => { p with state := .sleeping }).vacate c)
  | kkill {pid : Int} {i : Slot} (found : (k.proc i).pid = pid) :
      Move k (.kkill pid i) (k.modify i killProc)
  | setkilled {c : CpuId} {i : Slot} (on : k.cpu c = some i) :
      Move k (.setkilled c) (k.modify i fun p => { p with killed := true })
  | allocproc {i : Slot} (free : (k.proc i).state = .unused) :
      Move k (.allocproc i) (allocproc i k)
  | allocFail {i : Slot} (free : (k.proc i).state = .unused) :
      Move k (.allocFail i) ((Kernel.allocproc i k).modify i freeproc)
  | setParent {c : CpuId} {i p : Slot} (on : k.cpu c = some p)
      (used : (k.proc i).state = .used) :
      Move k (.setParent c i) (k.modify i fun q => { q with parent := some p })
  | ready {i : Slot} (used : (k.proc i).state = .used) :
      Move k (.ready i) (makeRunnable pol i k)
  | reparent {c : CpuId} {i p : Slot} (on : k.cpu c = some p)
      (child : (k.proc i).parent = some p) :
      Move k (.reparent c i) (k.modify i fun q => { q with parent := some initproc })
  | exit {c : CpuId} {status : Int} {p : Slot} (on : k.cpu c = some p) (other : p ≠ initproc) :
      Move k (.exit c status) ((k.modify p (exitProc status)).vacate c)
  | collect {c : CpuId} {i p : Slot} (on : k.cpu c = some p)
      (child : (k.proc i).parent = some p) (ended : (k.proc i).state = .zombie) :
      Move k (.collect c i) (k.modify i collectProc)

variable {pol} {l : Label} {k k' : KernelState}

/-- Every step is a move. -/
lemma Move.of_step (h : step pol l k = some k') : Move pol k l k' := by
  cases l with
  | dispatch c i =>
    obtain ⟨⟨hidle, hrun⟩, rfl⟩ := Lib.of_guard h
    exact .dispatch hidle hrun
  | charge =>
    cases h
    exact .charge
  | boost i =>
    obtain ⟨hpol, rfl⟩ := Lib.of_guard h
    exact .boost hpol
  | wakeup chan i =>
    cases h
    exact .wakeup
  | yield c =>
    obtain ⟨i, hi, rfl⟩ := map_eq_some_iff.mp h
    exact .yield hi
  | sleepPrepare c chan =>
    obtain ⟨i, hi, h⟩ := bind_eq_some_iff.mp h
    obtain ⟨hc, rfl⟩ := Lib.of_guard_not h
    exact .sleepPrepare hi hc
  | sleep c =>
    obtain ⟨i, hi, h⟩ := bind_eq_some_iff.mp h
    obtain ⟨hc, rfl⟩ := Lib.of_guard h
    exact .sleep hi hc
  | kkill pid i =>
    obtain ⟨hp, rfl⟩ := Lib.of_guard h
    exact .kkill hp
  | setkilled c =>
    obtain ⟨i, hi, rfl⟩ := map_eq_some_iff.mp h
    exact .setkilled hi
  | allocproc i =>
    obtain ⟨hf, rfl⟩ := Lib.of_guard h
    exact .allocproc hf
  | allocFail i =>
    obtain ⟨hf, rfl⟩ := Lib.of_guard h
    exact .allocFail hf
  | setParent c i =>
    obtain ⟨p, hp, h⟩ := bind_eq_some_iff.mp h
    obtain ⟨hu, rfl⟩ := Lib.of_guard h
    exact .setParent hp hu
  | ready i =>
    obtain ⟨hu, rfl⟩ := Lib.of_guard h
    exact .ready hu
  | reparent c i =>
    obtain ⟨p, hp, h⟩ := bind_eq_some_iff.mp h
    obtain ⟨hc, rfl⟩ := Lib.of_guard h
    exact .reparent hp hc
  | exit c status =>
    obtain ⟨p, hp, h⟩ := bind_eq_some_iff.mp h
    obtain ⟨hne, rfl⟩ := Lib.of_guard_not h
    exact .exit hp hne
  | collect c i =>
    obtain ⟨p, hp, h⟩ := bind_eq_some_iff.mp h
    obtain ⟨⟨hc, hz⟩, rfl⟩ := Lib.of_guard h
    exact .collect hp hc hz

/-- What a step of the kernel has done, inside a step of a larger machine. -/
lemma of_kernel {α : Type} {f : KernelState → α} {s' : α}
    (h : (step pol l k).map f = some s') : ∃ k', Move pol k l k' ∧ f k' = s' := by
  obtain ⟨k', hk, rfl⟩ := Option.map_eq_some_iff.mp h
  exact ⟨k', Move.of_step hk, rfl⟩

/-! ## What a step does to one slot -/

/-- What a step can make of the slot `j`, by its label. -/
inductive Effect (k : KernelState) (j : Slot) : Label → Proc → Prop where
  | same {l : Label} : Effect k j l (k.proc j)
  | dispatch {c : CpuId} {n : Nat} (runnable : (k.proc j).state = .runnable) :
      Effect k j (.dispatch c j) { k.proc j with state := .running, started := true, firstRun := n }
  | charge {ran waited : Nat} {used : Int} :
      Effect k j .charge { k.proc j with ticks := ran, waiting := waited, sliceTicks := used }
  | boost {n : Nat} (live : (k.proc j).live) : Effect k j (.boost j)
      { k.proc j with queue := 0, sliceTicks := 0, lastboost := k.ticks, sequence := n }
  | clear {chan : Nat} (awake : (k.proc j).state ≠ .sleeping) :
      Effect k j (.wakeup chan j) { k.proc j with chan := 0 }
  | wake {chan n : Nat} (asleep : (k.proc j).state = .sleeping) : Effect k j (.wakeup chan j)
      { k.proc j with chan := 0, state := .runnable, sequence := n }
  | yield {c : CpuId} {n : Nat} {queue used : Int} (on : k.cpu c = some j)
      (level : queue = (k.proc j).queue ∨ queue = (expire (k.proc j)).queue) : Effect k j (.yield c)
      { k.proc j with state := .runnable, sequence := n, queue := queue, sliceTicks := used }
  | sleepPrepare {c : CpuId} {chan : Nat} (on : k.cpu c = some j) (valid : chan ≠ 0) :
      Effect k j (.sleepPrepare c chan) { k.proc j with chan := chan }
  | sleep {c : CpuId} (on : k.cpu c = some j) (prepared : (k.proc j).chan ≠ 0) :
      Effect k j (.sleep c) { k.proc j with state := .sleeping }
  | kkill {pid : Int} (found : (k.proc j).pid = pid) :
      Effect k j (.kkill pid j) (killProc (k.proc j))
  | setkilled {c : CpuId} (on : k.cpu c = some j) :
      Effect k j (.setkilled c) { k.proc j with killed := true }
  | allocproc (free : (k.proc j).state = .unused) :
      Effect k j (.allocproc j) ((Kernel.allocproc j k).proc j)
  | allocFail (free : (k.proc j).state = .unused) :
      Effect k j (.allocFail j) (freeproc ((Kernel.allocproc j k).proc j))
  | setParent {c : CpuId} {p : Slot} (used : (k.proc j).state = .used) :
      Effect k j (.setParent c j) { k.proc j with parent := some p }
  | ready {n : Nat} (used : (k.proc j).state = .used) :
      Effect k j (.ready j) { k.proc j with state := .runnable, sequence := n }
  | reparent {c : CpuId} : Effect k j (.reparent c j) { k.proc j with parent := some initproc }
  | exit {c : CpuId} {status : Int} (on : k.cpu c = some j) :
      Effect k j (.exit c status) (exitProc status (k.proc j))
  | collect {c : CpuId} (ended : (k.proc j).state = .zombie) :
      Effect k j (.collect c j) (collectProc (k.proc j))

section

variable {k k' : KernelState} {l : Label} {i : Slot} {f : Proc → Proc}

lemma Effect.of_slot (hother : ∀ j, j ≠ i → k'.proc j = k.proc j) (h : Effect k i l (k'.proc i))
    (j : Slot) : Effect k j l (k'.proc j) :=
  forall_of_slot (P := fun j => Effect k j l) hother (fun _ => .same) h j

lemma Effect.modify (h : Effect k i l (f (k.proc i))) (j : Slot) :
    Effect k j l ((k.modify i f).proc j) := by
  refine Effect.of_slot (fun j hji => modify_proc_of_ne k f hji) ?_ j
  rw [modify_proc_self]
  exact h

/-- A step does this to every slot. -/
lemma Move.effect (hm : Move pol k l k') (j : Slot) : Effect k j l (k'.proc j) := by
  cases hm with
  | @dispatch c i _ hrun =>
    refine Effect.of_slot (fun j hji => switchTo_of_ne c i k hji) ?_ j
    rw [switchTo_self]
    exact .dispatch hrun
  | charge =>
    simp only [chargeTick]
    split
    · exact .charge
    split
    · exact .charge
    · exact .same
  | @boost i _ =>
    refine Effect.of_slot (fun j hji => boostSlot_of_ne i k hji) ?_ j
    by_cases hl : (k.proc i).live
    · obtain ⟨n, hn⟩ := boostSlot_self_of_live i k hl
      rw [hn]
      exact .boost hl
    · rw [boostSlot_of_not_live i k hl]
      exact .same
  | @wakeup chan i =>
    refine Effect.of_slot (fun j hji => wakeupSlot_of_ne pol chan i k hji) ?_ j
    rcases wakeupSlot_self pol chan i k with hn | ⟨hs, hn⟩ | ⟨hs, n, hn⟩
    · rw [hn]
      exact .same
    · rw [hn]
      exact .clear hs
    · rw [hn]
      exact .wake hs
  | @yield c i hon =>
    refine Effect.of_slot (fun j hji => yieldProc_of_ne pol i k hji) ?_ j
    obtain ⟨n, queue, used, hlevel, hn⟩ := yieldProc_self pol i k
    rw [hn]
    exact .yield hon hlevel
  | sleepPrepare hon hvalid => exact Effect.modify (.sleepPrepare hon hvalid) j
  | sleep hon hprepared =>
    rw [vacate_proc]
    exact Effect.modify (.sleep hon hprepared) j
  | kkill hfound => exact Effect.modify (.kkill hfound) j
  | setkilled hon => exact Effect.modify (.setkilled hon) j
  | @allocproc i hfree =>
    exact Effect.of_slot (fun j hji => allocproc_of_ne i k hji) (.allocproc hfree) j
  | @allocFail i hfree =>
    refine Effect.of_slot (fun j hji => allocFail_of_ne i k hji) ?_ j
    rw [modify_proc_self]
    exact .allocFail hfree
  | setParent _ hused => exact Effect.modify (.setParent hused) j
  | @ready i hused =>
    refine Effect.of_slot (fun j hji => makeRunnable_of_ne pol i k hji) ?_ j
    obtain ⟨n, hn⟩ := makeRunnable_self pol i k
    rw [hn]
    exact .ready hused
  | reparent _ _ => exact Effect.modify .reparent j
  | exit hon _ =>
    rw [vacate_proc]
    exact Effect.modify (.exit hon) j
  | collect _ _ hended => exact Effect.modify (.collect hended) j

end

/-! ## Who runs where -/

/-- The process of a CPU is RUNNING, and it is the process of no other CPU. -/
structure Seated (k : KernelState) : Prop where
  running : ∀ {c : CpuId} {i : Slot}, k.cpu c = some i → (k.proc i).state = .running
  alone : ∀ {c d : CpuId} {i : Slot}, k.cpu c = some i → k.cpu d = some i → c = d

lemma Seated.boot : Seated (boot pol) := by
  have hcpu : ∀ c, (Kernel.boot pol).cpu c = none := by
    intro c
    simp [Kernel.boot, makeRunnable, procinit]
  constructor
  · intro c i h
    rw [hcpu] at h
    cases h
  intro c d i h
  rw [hcpu] at h
  cases h

variable {k k' : KernelState} {l : Label} {i j : Slot} {c : CpuId} {p : Proc} {ls : List Label}

/-- No CPU gets or loses a process, and what runs goes on. -/
lemma Seated.of_cpu_eq (h : Seated k) (hcpu : k'.cpu = k.cpu)
    (hrun : ∀ j, (k.proc j).state = .running → (k'.proc j).state = .running) : Seated k' := by
  constructor
  · intro c i hc
    rw [hcpu] at hc
    exact hrun i (h.running hc)
  intro c d i hc hd
  rw [hcpu] at hc hd
  exact h.alone hc hd

/-- A process leaves its CPU. -/
lemma Seated.vacate (h : Seated k) (hon : k.cpu c = some i) (hcpu : k'.cpu = k.cpu)
    (hother : ∀ j, j ≠ i → k'.proc j = k.proc j) : Seated (k'.vacate c) := by
  have hback : ∀ {d j}, (k'.vacate c).cpu d = some j → d ≠ c ∧ k.cpu d = some j := by
    intro d j hd
    by_cases hdc : d = c
    · subst hdc
      rw [vacate_cpu_self] at hd
      cases hd
    · rw [vacate_cpu_of_ne _ hdc, hcpu] at hd
      exact ⟨hdc, hd⟩
  constructor
  · intro d j hd
    rcases hback hd with ⟨hdc, hd'⟩
    -- the process that leaves ran on `c` only
    have hji : j ≠ i := by
      rintro rfl
      exact hdc (h.alone hd' hon)
    rw [vacate_proc, hother j hji]
    exact h.running hd'
  · intro d e j hd he
    exact h.alone (hback hd).2 (hback he).2

/-- A CPU takes a process that no CPU has. -/
lemma Seated.dispatch (h : Seated k) (hrun : (k.proc i).state = .runnable) :
    Seated (switchTo c i k) := by
  -- a RUNNABLE process is on no CPU
  have hfree : ∀ d, k.cpu d ≠ some i := by
    intro d hd
    rw [h.running hd] at hrun
    cases hrun
  have hback : ∀ {d j}, (switchTo c i k).cpu d = some j →
      (d = c ∧ j = i) ∨ (d ≠ c ∧ j ≠ i ∧ k.cpu d = some j) := by
    intro d j hd
    by_cases hdc : d = c
    · subst hdc
      left
      have hj : i = j := by simpa [switchTo] using hd
      exact ⟨rfl, hj.symm⟩
    right
    have hd' : k.cpu d = some j := by simpa [switchTo, hdc] using hd
    refine ⟨hdc, ?_, hd'⟩
    rintro rfl
    exact hfree d hd'
  constructor
  · intro d j hd
    rcases hback hd with ⟨-, rfl⟩ | ⟨-, hji, hd'⟩
    · simp
    · rw [switchTo_of_ne c i k hji]
      exact h.running hd'
  intro d e j hd he
  rcases hback hd with ⟨rfl, rfl⟩ | ⟨-, hji, hd'⟩ <;>
    rcases hback he with ⟨rfl, hj⟩ | ⟨-, hji', he'⟩
  · rfl
  · exact absurd rfl hji'
  · exact absurd hj hji
  · exact h.alone hd' he'

/-- A process goes on running unless it gives up its CPU. -/
lemma Effect.running (h : Effect k j l p) (hj : (k.proc j).state = .running)
    (hyield : ∀ c, l ≠ .yield c) (hsleep : ∀ c, l ≠ .sleep c)
    (hexit : ∀ c status, l ≠ .exit c status) : p.state = .running := by
  cases h with
  | same | charge | boost _ | clear _ | sleepPrepare _ _ | setkilled _ | setParent _
  | reparent => exact hj
  | dispatch _ => rfl
  | kkill _ => simp [killProc, hj]
  | @yield c _ _ _ _ _ => exact absurd rfl (hyield c)
  | @sleep c _ _ => exact absurd rfl (hsleep c)
  | @exit c status _ => exact absurd rfl (hexit c status)
  | wake hs | allocproc hs | allocFail hs | ready hs | collect hs =>
    rw [hj] at hs
    cases hs

lemma Seated.step (h : Seated k) (hm : Move pol k l k') : Seated k' := by
  have hstay : (∀ c, l ≠ .yield c) → (∀ c, l ≠ .sleep c) → (∀ c status, l ≠ .exit c status) →
      ∀ j, (k.proc j).state = .running → (k'.proc j).state = .running :=
    fun hyield hsleep hexit j hj => (hm.effect j).running hj hyield hsleep hexit
  cases hm with
  | dispatch _ hrun => exact h.dispatch hrun
  | @yield c i hon =>
    exact h.vacate hon (yieldProc_cpu pol i k) (fun j hji => yieldProc_of_ne pol i k hji)
  | sleep hon _ | exit hon _ => exact h.vacate hon rfl (fun j hji => modify_proc_of_ne k _ hji)
  | @boost i _ => exact h.of_cpu_eq (boostSlot_cpu i k) (hstay (by simp) (by simp) (by simp))
  | @wakeup chan i =>
    exact h.of_cpu_eq (wakeupSlot_cpu pol chan i k) (hstay (by simp) (by simp) (by simp))
  | ready _ => exact h.of_cpu_eq (by simp [makeRunnable]) (hstay (by simp) (by simp) (by simp))
  | _ => exact h.of_cpu_eq rfl (hstay (by simp) (by simp) (by simp))

/-- In every reachable state, each CPU has its own RUNNING process. -/
lemma Seated.of_run (h : Lib.Run (Kernel.step pol) Lib.anyStep (Kernel.boot pol) ls k) : Seated k :=
  h.invariant Seated Seated.boot (fun _ _ _ _ hs hk => hk.step (Move.of_step hs))

end CshellXv6.Kernel
