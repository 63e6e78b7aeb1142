import CshellXv6.Kernel.Uniprocessor
import CshellXv6.Kernel.Fifo

/-! # One CPU with its scheduler

On one CPU the scan of the scheduler runs without interrupts, so a process is
dispatched exactly if the scan chooses it. Here the machine of one CPU is
restricted to these dispatches.
-/

namespace CshellXv6.Kernel

open Lib

/-! ## What the scheduler chooses -/

/-- The process that the scan chooses, if it does not panic. -/
def chosen (pol : Policy) (k : KernelState) : Option (Option Slot) :=
  (select pol k).map Prod.fst

/-- What holds in every reachable state of the MLFQ and the FCFS kernel. -/
structure Regular (k : KernelState) : Prop where
  seated : Seated k
  ordered : Ordered k
  leveled : Leveled k

section

variable {pol : Policy} {k k' : KernelState} {l : Label} {i j : Slot} {ls : List Label}

lemma Regular.of_run (hpol : pol ≠ .rr)
    (h : Run (Kernel.step pol) anyStep (Kernel.boot pol) ls k) : Regular k := by
  constructor
  · exact Seated.of_run h
  · exact Ordered.of_run hpol h
  · exact Leveled.of_run h

lemma Regular.step (hpol : pol ≠ .rr) (h : Regular k) (hm : Move pol k l k') : Regular k' := by
  constructor
  · exact h.seated.step hm
  · exact h.ordered.step (hm.shift hpol h.seated)
  · exact h.leveled.step hm

/-- The number of a process in the queues is below the next one. -/
lemma Regular.below (h : Regular k) (hcount : k.enqueues < 2 ^ 64 - 1)
    (hi : (k.proc i).queued) : (k.proc i).sequence < k.next := by
  rw [h.ordered.next_eq_enqueues hcount]
  exact (h.ordered.valid (by omega)).below i hi

lemma Regular.distinct (h : Regular k) (hcount : k.enqueues < 2 ^ 64 - 1) (hi : (k.proc i).queued)
    (hj : (k.proc j).queued) (hij : i ≠ j) : (k.proc i).sequence ≠ (k.proc j).sequence := by
  intro heq
  exact hij ((h.ordered.valid (by omega)).distinct i j hi hj heq)

/-- The scan ends with a choice. -/
lemma Regular.choice (hpol : pol ≠ .rr) (h : Regular k) (hcount : k.enqueues < 2 ^ 64 - 1) :
    ∃ sel held, select pol k = some (sel, held) ∧
      Choice k (fun j => (k.proc j).state = .runnable) (notAfter pol) sel held := by
  refine select_choice hpol h.leveled ?_
  intro j hj
  have hbelow := h.below hcount (.inl hj)
  have hnext := h.ordered.next_eq_enqueues hcount
  omega

/-- The process that the scan chooses is ahead of all other RUNNABLE ones. -/
lemma Regular.ahead_of_chosen (hpol : pol ≠ .rr) (h : Regular k)
    (hcount : k.enqueues < 2 ^ 64 - 1) (hsel : chosen pol k = some (some i)) (hij : j ≠ i)
    (hj : (k.proc j).state = .runnable) : ahead pol (k.proc i) (k.proc j) := by
  rcases h.choice hpol hcount with ⟨sel, held, hs, hchoice⟩
  have hi : sel = some i := by
    rw [chosen, hs] at hsel
    exact Option.some.inj hsel
  obtain ⟨hrun, hle⟩ := hchoice.some i hi
  exact ahead_of_notAfter (hle j hj) (h.distinct hcount (.inl hrun) (.inl hj) hij.symm)

/-- A RUNNABLE process that is ahead of all others is chosen. -/
lemma Regular.select_of_ahead (hpol : pol ≠ .rr) (h : Regular k)
    (hcount : k.enqueues < 2 ^ 64 - 1) (hi : (k.proc i).state = .runnable)
    (hahead : ∀ j, j ≠ i → (k.proc j).state = .runnable → ahead pol (k.proc i) (k.proc j)) :
    select pol k = some (some i, {i}) := by
  rcases h.choice hpol hcount with ⟨sel, held, hs, hchoice⟩
  rw [hs, hchoice.held]
  cases hsel : sel with
  | none => exact absurd hi (hchoice.none hsel i)
  | some j =>
    obtain ⟨hj, hle⟩ := hchoice.some j hsel
    by_cases hji : j = i
    · rw [hji]
      rfl
    · exact absurd (hle i hi) (not_notAfter_of_ahead hpol (hahead j hji hj))

end

/-! ## The machine -/

/-- The steps on one CPU, with the dispatches that the scheduler makes. -/
def Uni.schedStep (pol : Policy) (l : UniLabel) (u : Uni) : Option Uni :=
  match l with
  | .critical (.dispatch c i) =>
    if chosen pol u.kernel = some (some i) then Uni.step pol (.critical (.dispatch c i)) u
    else none
  | l => Uni.step pol l u

variable {c : CpuId}

section

variable {pol : Policy} {l : UniLabel} {u u' : Uni} {ok : UniLabel → Uni → Prop}
  {ls : List UniLabel} {i : Slot}

lemma Uni.step_of_schedStep (h : Uni.schedStep pol l u = some u') : Uni.step pol l u = some u' := by
  unfold Uni.schedStep at h
  split at h
  · exact (Option.ite_none_right_eq_some.mp h).2
  · exact h

lemma UniMove.of_schedStep (h : Uni.schedStep pol l u = some u') : UniMove pol u l u' :=
  .of_step (Uni.step_of_schedStep h)

lemma Uni.chosen_of_schedStep (h : Uni.schedStep pol (.critical (.dispatch c i)) u = some u') :
    chosen pol u.kernel = some (some i) :=
  (Option.ite_none_right_eq_some.mp h).1

lemma Uni.sched_refines (h : Run (Uni.schedStep pol) ok (Uni.boot pol) ls u) :
    ∃ ls', Run (Kernel.step pol) anyStep (Kernel.boot pol) ls' u.kernel :=
  Uni.run_refines (h.of_steps fun _ _ _ => Uni.step_of_schedStep)

lemma Regular.of_sched (hpol : pol ≠ .rr) (h : Run (Uni.schedStep pol) ok (Uni.boot pol) ls u) :
    Regular u.kernel := by
  rcases Uni.sched_refines h with ⟨ls', h'⟩
  exact Regular.of_run hpol h'

lemma Regular.uniStep (hpol : pol ≠ .rr) (h : Regular u.kernel) (hm : UniMove pol u l u') :
    Regular u'.kernel := by
  rcases hm.run with ⟨ls, hrun⟩
  exact hrun.invariant Regular h (fun _ _ _ _ hs hk => hk.step hpol (Move.of_step hs))

/-- Sequence numbers are only ever drawn. -/
lemma UniMove.enqueues_le (hpol : pol ≠ .rr) (h : Regular u.kernel) (hm : UniMove pol u l u') :
    u.kernel.enqueues ≤ u'.kernel.enqueues := by
  rcases hm.run with ⟨ls, hrun⟩
  have hinv : Regular u'.kernel ∧ u.kernel.enqueues ≤ u'.kernel.enqueues := by
    refine hrun.invariant (fun k => Regular k ∧ u.kernel.enqueues ≤ k.enqueues) ⟨h, le_rfl⟩ ?_
    rintro l k k' - hs ⟨hk, hle⟩
    have hmove := Move.of_step hs
    exact ⟨hk.step hpol hmove, hle.trans (hmove.shift hpol hk.seated).enqueues_le⟩
  exact hinv.2

lemma enqueues_le_of_run (hpol : pol ≠ .rr) (hr : Regular u.kernel)
    (h : Run (Uni.schedStep pol) ok u ls u') : u.kernel.enqueues ≤ u'.kernel.enqueues := by
  have hinv : Regular u'.kernel ∧ u.kernel.enqueues ≤ u'.kernel.enqueues := by
    refine h.invariant (fun v => Regular v.kernel ∧ u.kernel.enqueues ≤ v.kernel.enqueues)
      ⟨hr, le_rfl⟩ ?_
    rintro l v v' - hs ⟨hv, hle⟩
    have hm := UniMove.of_schedStep hs
    exact ⟨hv.uniStep hpol hm, hle.trans (hm.enqueues_le hpol hv)⟩
  exact hinv.2

end

/-! ## Conditions on the steps -/

/-- The step does not kill a sleeping process. -/
def UniLabel.sparesSleepers (l : UniLabel) (u : Uni) : Prop :=
  match l with
  | .critical l => Kernel.sparesSleepers l u.kernel
  | _ => True

/-- In the step the running process blocks: it sleeps or exits. -/
def UniLabel.blocks : UniLabel → Bool
  | .critical (.sleep _) => true
  | .critical (.exit _ _) => true
  | _ => false

/-- The process neither sleeps nor exits in the step. -/
def UniLabel.leavesAwake (i : Slot) (l : UniLabel) (u : Uni) : Prop :=
  u.current = some i → l.blocks = false

instance (i : Slot) (l : UniLabel) (u : Uni) : Decidable (l.leavesAwake i u) :=
  inferInstanceAs (Decidable (_ → _))

instance : (l : UniLabel) → (u : Uni) → Decidable (l.sparesSleepers u)
  | .critical l, u => inferInstanceAs (Decidable (Kernel.sparesSleepers l u.kernel))
  | .clockintr, _ | .yield, _ | .killedTrap, _ => inferInstanceAs (Decidable True)

/-! ## A process that does not block -/

/-- The process is RUNNING or RUNNABLE. -/
def Proc.awake (p : Proc) : Prop := p.state = .running ∨ p.state = .runnable

section

variable {pol : Policy} {k k' : KernelState} {l : Label} {i : Slot}

lemma Proc.awake.ne_unused {p : Proc} (h : p.awake) : p.state ≠ .unused := by
  intro hfree
  rcases h with h | h
  all_goals exact absurd (hfree.symm.trans h) (by simp)

lemma wakeupSlot_awake (chan : Nat) (j : Slot) (hi : (k.proc i).awake) :
    ((wakeupSlot pol chan j k).proc i).state = (k.proc i).state := by
  by_cases hij : i = j
  · subst hij
    rcases wakeupSlot_self pol chan i k with hn | ⟨-, hn⟩ | ⟨hs, -⟩
    · rw [hn]
    · rw [hn]
    rcases hi with hi | hi
    all_goals
      rw [hi] at hs
      cases hs
  · rw [wakeupSlot_of_ne pol chan j k hij]

/-- A clock interrupt does not put anybody to sleep. -/
lemma clockintr_awake (pol : Policy) (hi : (k.proc i).awake) :
    ((clockintr pol k).proc i).state = (k.proc i).state := by
  have hcharge := chargeTick_state pol k i
  have hcharged : ((chargeTick pol k).proc i).awake := by
    rw [Proc.awake, hcharge]
    exact hi
  refine (clockintr_relates (R := fun k k' : KernelState =>
    (k.proc i).awake → (k'.proc i).state = (k.proc i).state) (fun _ _ => rfl) ?_
    (fun j _ => wakeupSlot_awake ticksChan j) (fun j k _ => boostSlot_state j i k) k
    hcharged).trans hcharge
  intro k k' k'' h h' hawake
  refine (h' ?_).trans (h hawake)
  rw [Proc.awake, h hawake]
  exact hawake

/-- Outside the timer trap, a process that is awake stays as it is unless it is
dispatched or blocks. -/
lemma Move.awake (hm : Move pol k l k') (hown : l.uni = true)
    (hblock : (UniLabel.critical l).blocks = true → k.cpu cpu0 ≠ some i)
    (hdispatch : ∀ c, l ≠ .dispatch c i) (hi : (k.proc i).awake) :
    (k'.proc i).state = (k.proc i).state := by
  have he := hm.effect i
  generalize k'.proc i = p at he ⊢
  cases he with
  | same | clear _ | sleepPrepare _ _ | setkilled _ | setParent _ | reparent => rfl
  | @dispatch c _ _ => exact absurd rfl (hdispatch c)
  | kkill _ =>
    rcases hi with hi | hi
    all_goals simp [killProc, hi]
  | @sleep c hon _ | @exit c _ hon =>
    have hc : c = cpu0 := by simpa [Label.uni] using hown
    exact absurd (hc ▸ hon) (hblock rfl)
  -- a slot that is free, sleeps, or holds an unfinished child or a zombie, is another one
  | wake hs | allocproc hs | allocFail hs | ready hs | collect hs =>
    rcases hi with hi | hi
    all_goals
      rw [hi] at hs
      cases hs
  | charge | boost _ | yield _ _ => cases hown

/-- Outside the timer trap, a CPU keeps its process unless that blocks. -/
lemma Move.cpu_same (hm : Move pol k l k') (hown : l.uni = true)
    (hblock : (UniLabel.critical l).blocks = false) (hdispatch : ∀ c j, l ≠ .dispatch c j) :
    k'.cpu = k.cpu := by
  cases hm with
  | @dispatch c j _ _ => exact absurd rfl (hdispatch c j)
  | boost _ | yield _ => cases hown
  | @wakeup chan j => exact wakeupSlot_cpu pol chan j k
  | sleep _ _ | exit _ _ => cases hblock
  | ready _ => simp [makeRunnable]
  | _ => rfl

/-- A CPU gets a process by a dispatch only. -/
lemma Move.cpu_eq (hm : Move pol k l k') (hc : k'.cpu c = some i) :
    k.cpu c = some i ∨ l = .dispatch c i := by
  -- a CPU that loses its process has none
  have hvacate : ∀ {d : CpuId} {k1 : KernelState}, k1.cpu = k.cpu →
      (k1.vacate d).cpu c = some i → k.cpu c = some i := by
    intro d k1 hk1 h
    by_cases hcd : c = d
    · subst hcd
      rw [vacate_cpu_self] at h
      cases h
    · rw [vacate_cpu_of_ne _ hcd, hk1] at h
      exact h
  cases hm with
  | @dispatch d j _ _ =>
    by_cases hcd : c = d
    · subst hcd
      have hij : j = i := by simpa [switchTo] using hc
      rw [hij]
      exact .inr rfl
    · left
      simpa [switchTo, hcd] using hc
  | @boost j _ => exact .inl (by rwa [boostSlot_cpu] at hc)
  | @wakeup chan j => exact .inl (by rwa [wakeupSlot_cpu] at hc)
  | @yield d j _ => exact .inl (hvacate (yieldProc_cpu pol j k) hc)
  | sleep _ _ | exit _ _ => exact .inl (hvacate rfl hc)
  | ready _ => exact .inl (by simpa [makeRunnable] using hc)
  | _ => exact .inl hc

end

end CshellXv6.Kernel
