import CshellXv6.Kernel.Machine

/-! # The kernel on one CPU

With `CPUS := 1` only CPU 0 runs, and what it does with interrupts off cannot
be interrupted: the whole of `clockintr` is one step, and nothing comes
between it and the `yield` that `usertrap` or `kerneltrap` calls next. The flag
`timer` says that this `yield` is still to come.

`usertrap` does not call it for a process that has been killed: that process
goes on in `kexit` (`killedTrap`).
-/

namespace CshellXv6.Kernel

open Lib Option

/-- The kernel, and whether the running process is in a timer trap between
`clockintr` and `yield`. -/
structure Uni where
  kernel : KernelState
  timer : Bool

/-- The process of the only CPU. -/
def Uni.current (u : Uni) : Option Slot := u.kernel.cpu cpu0

/-- The process `i` has been interrupted by the clock and is about to yield. -/
def Uni.due (u : Uni) (i : Slot) : Prop := u.timer = true ∧ u.current = some i

instance (u : Uni) (i : Slot) : Decidable (u.due i) := inferInstanceAs (Decidable (_ ∧ _))

inductive UniLabel where
  | clockintr
  | yield
  | killedTrap
  | critical (l : Label)
deriving DecidableEq, Repr

/-- The critical section belongs to CPU 0, and is not part of the timer trap. -/
def Label.uni : Label → Bool
  | .charge => false
  | .boost _ => false
  | .yield _ => false
  | .wakeup _ _ => true
  | .kkill _ _ => true
  | .allocproc _ => true
  | .allocFail _ => true
  | .ready _ => true
  | .dispatch c _ => c = cpu0
  | .sleepPrepare c _ => c = cpu0
  | .sleep c => c = cpu0
  | .setkilled c => c = cpu0
  | .setParent c _ => c = cpu0
  | .reparent c _ => c = cpu0
  | .exit c _ => c = cpu0
  | .collect c _ => c = cpu0

variable (pol : Policy)

def Uni.step : UniLabel → Uni → Option Uni
  | .clockintr, u =>
    if u.timer then none else some ⟨Kernel.clockintr pol u.kernel, u.current.isSome⟩
  | .yield, u =>
    if u.timer then (Kernel.step pol (.yield cpu0) u.kernel).map fun k => ⟨k, false⟩ else none
  | .killedTrap, u =>
    -- `if (killed(p)) kexit(-1)` comes before the `yield` of `usertrap`
    if u.timer ∧ u.current.any fun i => (u.kernel.proc i).killed then
      some { u with timer := false }
    else none
  | .critical l, u =>
    if u.timer = false ∧ l.uni then (Kernel.step pol l u.kernel).map fun k => ⟨k, false⟩
    else none

/-- The kernel when `scheduler` is first called. -/
def Uni.boot : Uni := ⟨Kernel.boot pol, false⟩

/-- What a step does and when it is possible, by its label. -/
inductive UniMove (u : Uni) : UniLabel → Uni → Prop where
  | clockintr (ready : u.timer = false) :
      UniMove u .clockintr ⟨Kernel.clockintr pol u.kernel, u.current.isSome⟩
  | yield {i : Slot} (due : u.due i) :
      UniMove u .yield ⟨(yieldProc pol i u.kernel).vacate cpu0, false⟩
  | killedTrap {i : Slot} (due : u.due i) (killed : (u.kernel.proc i).killed = true) :
      UniMove u .killedTrap { u with timer := false }
  | critical {l : Label} {k : KernelState} (ready : u.timer = false) (own : l.uni = true)
      (taken : Kernel.step pol l u.kernel = some k) : UniMove u (.critical l) ⟨k, false⟩

variable {pol} {l : UniLabel} {u u' : Uni} {ok : UniLabel → Uni → Prop} {ls : List UniLabel}

lemma UniMove.of_step (h : Uni.step pol l u = some u') : UniMove pol u l u' := by
  cases l with
  | clockintr =>
    obtain ⟨ht, rfl⟩ := Lib.of_guard_not h
    exact .clockintr (by simpa using ht)
  | yield =>
    obtain ⟨ht, hmap⟩ := ite_none_right_eq_some.mp h
    obtain ⟨k, hk, rfl⟩ := map_eq_some_iff.mp hmap
    obtain ⟨i, hi, rfl⟩ := map_eq_some_iff.mp hk
    exact .yield ⟨ht, hi⟩
  | killedTrap =>
    obtain ⟨⟨ht, hk⟩, rfl⟩ := Lib.of_guard h
    obtain ⟨i, hi, hkilled⟩ := (any_eq_true _ _).mp hk
    exact .killedTrap ⟨ht, hi⟩ hkilled
  | critical l =>
    obtain ⟨⟨ht, hown⟩, hmap⟩ := ite_none_right_eq_some.mp h
    obtain ⟨k, hk, rfl⟩ := map_eq_some_iff.mp hmap
    exact .critical ht hown hk

/-- After its first lines, a clock interrupt does what its visits to the slots do. -/
lemma clockintr_relates {R : KernelState → KernelState → Prop} (hrefl : ∀ k, R k k)
    (htrans : ∀ k k' k'', R k k' → R k' k'' → R k k'')
    (hwake : ∀ i k, R k (wakeupSlot pol ticksChan i k)) (hboost : ∀ i k, R k (boostSlot i k))
    (k : KernelState) : R (chargeTick pol k) (clockintr pol k) := by
  unfold clockintr
  dsimp only
  split
  · exact htrans _ _ _ (sweep_relates hrefl htrans hboost) (sweep_relates hrefl htrans hwake)
  · exact sweep_relates hrefl htrans hwake

lemma clockintr_cpu (pol : Policy) (k : KernelState) : (clockintr pol k).cpu = k.cpu :=
  clockintr_relates (R := fun k k' : KernelState => k'.cpu = k.cpu) (fun _ => rfl)
    (fun _ _ _ h h' => h'.trans h) (wakeupSlot_cpu pol ticksChan) boostSlot_cpu k

/-! ## One CPU is a special case of many

A step on one CPU is a sequence of critical sections, so what holds in all runs
of the kernel on many CPUs holds here too. -/

lemma wakeup_run (chan : Nat) (k : KernelState) :
    ∃ ls, Run (Kernel.step pol) anyStep k ls (wakeup pol chan k) :=
  ⟨_, sweep_run (.wakeup chan) (fun _ _ => rfl)⟩

lemma mlfqBoost_run (k : KernelState) : ∃ ls, Run (Kernel.step .mlfq) anyStep k ls (mlfqBoost k) :=
  ⟨_, sweep_run .boost (fun _ _ => rfl)⟩

lemma clockintr_run (k : KernelState) :
    ∃ ls, Run (Kernel.step pol) anyStep k ls (Kernel.clockintr pol k) := by
  have hcharge : Run (Kernel.step pol) anyStep k [.charge] (chargeTick pol k) :=
    .snoc .nil trivial rfl
  unfold Kernel.clockintr
  dsimp only
  split
  next hdue =>
    -- only the MLFQ kernel boosts
    obtain ⟨rfl, -⟩ := hdue
    rcases mlfqBoost_run (chargeTick .mlfq k) with ⟨ls, hboost⟩
    rcases wakeup_run ticksChan (mlfqBoost (chargeTick .mlfq k)) with ⟨ls', hwake⟩
    exact ⟨_, (hcharge.append hboost).append hwake⟩
  · rcases wakeup_run ticksChan (chargeTick pol k) with ⟨ls, hwake⟩
    exact ⟨_, hcharge.append hwake⟩

lemma UniMove.run (h : UniMove pol u l u') :
    ∃ ls, Run (Kernel.step pol) anyStep u.kernel ls u'.kernel := by
  cases h with
  | clockintr _ => exact clockintr_run u.kernel
  | @yield i hdue =>
    have hstep : Kernel.step pol (.yield cpu0) u.kernel =
        some ((yieldProc pol i u.kernel).vacate cpu0) := by
      have hon : u.kernel.cpu cpu0 = some i := hdue.2
      simp [Kernel.step, hon]
    exact ⟨_, .snoc .nil trivial hstep⟩
  | killedTrap _ _ => exact ⟨_, .nil⟩
  | critical _ _ htaken => exact ⟨_, .snoc .nil trivial htaken⟩

lemma Seated.uniStep (h : Seated u.kernel) (hm : UniMove pol u l u') : Seated u'.kernel := by
  rcases hm.run with ⟨ls, hrun⟩
  exact hrun.invariant Seated h (fun _ _ _ _ hs hk => hk.step (Move.of_step hs))

/-- **One CPU refines many.** A state reached on one CPU is reached by critical
sections. -/
lemma Uni.run_refines (h : Run (Uni.step pol) ok (Uni.boot pol) ls u) :
    ∃ ls', Run (Kernel.step pol) anyStep (Kernel.boot pol) ls' u.kernel := by
  refine h.invariant (fun u => ∃ ls', Run (Kernel.step pol) anyStep (Kernel.boot pol) ls' u.kernel)
    ⟨[], .nil⟩ ?_
  intro l u u' _ hs ⟨ls1, h1⟩
  rcases (UniMove.of_step hs).run with ⟨ls2, h2⟩
  exact ⟨_, h1.append h2⟩

end CshellXv6.Kernel
