import CshellXv6.Kernel.Scheduler

/-! # The queues of the MLFQ kernel are first in, first out

A process joins the tail of its queue by drawing a new sequence number, and the
scheduler takes the process with the smallest. So a queue is first in, first
out if every change to RUNNABLE draws a number. `kfork`, `yield` and `wakeup`
do; `kkill` makes a sleeping process RUNNABLE and leaves its number as it is.

The kernel is observed from some reachable state on, over steps none of which
is part of a boost: `readyAt` remembers for each process when it last became
RUNNABLE.
-/

namespace CshellXv6.Kernel

open Lib Option

/-! ## When a process became RUNNABLE -/

/-- The kernel, the number of steps so far, and the step at which each process
last became RUNNABLE, if it did. -/
structure Timed where
  kernel : KernelState
  now : Nat
  readyAt : Slot → Option Nat

def Timed.proc (s : Timed) (i : Slot) : Proc := s.kernel.proc i

def Timed.start (k : KernelState) : Timed := ⟨k, 0, fun _ => none⟩

/-- Note the processes that become RUNNABLE in the step from `s` to `k`. -/
def Timed.observe (s : Timed) (k : KernelState) : Timed where
  kernel := k
  now := s.now + 1
  readyAt := fun i =>
    if (s.proc i).state ≠ .runnable ∧ (k.proc i).state = .runnable then some s.now
    else s.readyAt i

def Timed.step (l : Label) (s : Timed) : Option Timed :=
  (Kernel.step .mlfq l s.kernel).map s.observe

/-- `j` became RUNNABLE in one of the steps observed, and after `i` last did. -/
def Timed.earlier (s : Timed) (i j : Slot) : Prop :=
  ∃ t ∈ s.readyAt j, ∀ t' ∈ s.readyAt i, t' < t

instance (s : Timed) (i j : Slot) : Decidable (s.earlier i j) :=
  inferInstanceAs (Decidable (∃ t ∈ s.readyAt j, ∀ t' ∈ s.readyAt i, t' < t))

def Label.isBoost : Label → Bool
  | .boost _ => true
  | _ => false

def killsSleeper : Label → KernelState → Bool
  | .kkill _ i, k => (k.proc i).state = .sleeping
  | _, _ => false

/-- The step is not part of a boost. -/
def notBoost (l : Label) : Prop := l.isBoost = false

/-- The step does not kill a sleeping process. -/
def sparesSleepers (l : Label) (k : KernelState) : Prop := killsSleeper l k = false

instance : DecidablePred notBoost := fun l => inferInstanceAs (Decidable (l.isBoost = false))

instance (l : Label) (k : KernelState) : Decidable (sparesSleepers l k) :=
  inferInstanceAs (Decidable (killsSleeper l k = false))

section

variable {s : Timed} {k' k k0 : KernelState} {l : Label} {i j : Slot} {ls ls0 : List Label}
  {ok : Label → Timed → Prop}

lemma observe_readyAt_of_runnable (h : (s.proc i).state = .runnable) :
    (s.observe k').readyAt i = s.readyAt i := by
  simp [Timed.observe, h]

lemma observe_readyAt_of_same (h : k'.proc i = s.kernel.proc i) :
    (s.observe k').readyAt i = s.readyAt i := by
  simp [Timed.observe, Timed.proc, h]

lemma observe_readyAt_of_new (h : (s.proc i).state ≠ .runnable)
    (h' : (k'.proc i).state = .runnable) : (s.observe k').readyAt i = some s.now := by
  simp [Timed.observe, h, h']

lemma earlier_congr {s' : Timed} (hi : s'.readyAt i = s.readyAt i)
    (hj : s'.readyAt j = s.readyAt j) (h : s'.earlier i j) : s.earlier i j := by
  unfold Timed.earlier at h ⊢
  rw [hi, hj] at h
  exact h

/-! ## The invariant -/

/-- The line of the RUNNABLE processes: who came earlier has the smaller
number, until `next` wraps around. -/
structure InLine (s : Timed) : Prop where
  seated : Seated s.kernel
  ordered : Ordered s.kernel
  past : ∀ i t, s.readyAt i = some t → t < s.now
  order : s.kernel.enqueues < 2 ^ 64 → ∀ i j, i ≠ j → (s.proc i).state = .runnable →
    (s.proc j).state = .runnable → s.earlier i j → (s.proc i).sequence < (s.proc j).sequence

lemma InLine.start
    (h : Run (Kernel.step .mlfq) anyStep (Kernel.boot .mlfq) ls k) : InLine (Timed.start k) := by
  constructor
  · exact Seated.of_run h
  · exact Ordered.of_run (by decide) h
  · intro i t ht
    cases ht
  · rintro _ i j _ _ _ ⟨t, ht, -⟩
    cases ht

lemma InLine.past_observe (h : InLine s) (k' : KernelState) (i : Slot) (t : Nat)
    (ht : (s.observe k').readyAt i = some t) : t < (s.observe k').now := by
  have hnow : (s.observe k').now = s.now + 1 := rfl
  simp only [Timed.observe] at ht
  split at ht
  · cases ht
    omega
  · have := h.past i t ht
    omega

/-- Without a kill in the sleep or a boost, who becomes RUNNABLE draws. -/
lemma Shift.runnable_of_keep (hmlfq : Shift .mlfq l s.kernel k') (hboost : notBoost l)
    (hspare : sparesSleepers l s.kernel) :
    (k'.enqueues = s.kernel.enqueues ∧
      ∀ j, (k'.proc j).state = .runnable → (s.proc j).state = .runnable ∧
        (k'.proc j).sequence = (s.proc j).sequence) ∨
    ∃ i, (s.proc i).state ≠ .runnable ∧ (k'.proc i).state = .runnable ∧
      k'.enqueues = s.kernel.enqueues + 1 ∧ (k'.proc i).sequence = s.kernel.next ∧
      ∀ j, j ≠ i → k'.proc j = s.kernel.proc j := by
  cases hmlfq with
  | keep _ count stays =>
    left
    refine ⟨count, fun j hj => ⟨?_, ((stays j).same (.inl hj)).2⟩⟩
    rcases (stays j).ready hj with hrun | ⟨hsleep, pid, rfl⟩ | ⟨hpol, -⟩
    · exact hrun
    · rw [sparesSleepers, killsSleeper, decide_eq_false_iff_not] at hspare
      exact absurd hsleep hspare
    · exact absurd rfl hpol
  | draw i _ count own ready others cause =>
    right
    refine ⟨i, ?_, ready, count, own, others⟩
    rcases cause with hnot | rfl
    · exact hnot
    · cases hboost

/-- A number just drawn is larger than all others. -/
lemma InLine.drawn_largest (h : InLine s) (hlt : s.kernel.enqueues < 2 ^ 64)
    (own : (k'.proc i).sequence = s.kernel.next)
    (others : ∀ j, j ≠ i → k'.proc j = s.kernel.proc j) (hji : j ≠ i)
    (hj : (k'.proc j).state = .runnable) : (k'.proc j).sequence < (k'.proc i).sequence := by
  rw [others j hji] at hj ⊢
  rw [own, h.ordered.next_eq, Nat.mod_eq_of_lt hlt]
  exact (h.ordered.valid hlt).below j (.inl hj)

lemma InLine.step (h : InLine s) (hs : Kernel.step .mlfq l s.kernel = some k')
    (hboost : notBoost l) (hspare : sparesSleepers l s.kernel) : InLine (s.observe k') := by
  have hmove := Move.of_step hs
  have hshift := hmove.shift (by decide) h.seated
  refine ⟨h.seated.step hmove, h.ordered.step hshift, h.past_observe k', ?_⟩
  intro hlt i j hij hi hj hearlier
  have hlt' : s.kernel.enqueues < 2 ^ 64 := lt_of_le_of_lt hshift.enqueues_le hlt
  rcases hshift.runnable_of_keep hboost hspare with ⟨-, hkeep⟩ | ⟨a, hnot, hnew, -, own, others⟩
  · -- nobody joins the line
    obtain ⟨hi', hsi⟩ := hkeep i hi
    obtain ⟨hj', hsj⟩ := hkeep j hj
    have hearlier' := earlier_congr (observe_readyAt_of_runnable hi')
      (observe_readyAt_of_runnable hj') hearlier
    show (k'.proc i).sequence < (k'.proc j).sequence
    rw [hsi, hsj]
    exact h.order hlt' i j hij hi' hj' hearlier'
  by_cases hja : j = a
  · -- `j` joins the line at its end
    subst hja
    exact h.drawn_largest hlt' own others hij hi
  have hsj := others j hja
  by_cases hia : i = a
  · -- `i` has just joined, so nobody came later
    subst hia
    rcases hearlier with ⟨t, htj, hlater⟩
    rw [observe_readyAt_of_same hsj] at htj
    rw [observe_readyAt_of_new hnot hnew] at hlater
    have hnow := hlater s.now rfl
    have hpast := h.past j t htj
    omega
  have hsi := others i hia
  have hearlier' := earlier_congr (observe_readyAt_of_same hsi)
    (observe_readyAt_of_same hsj) hearlier
  show (k'.proc i).sequence < (k'.proc j).sequence
  have hi' : (k'.proc i).state = .runnable := hi
  have hj' : (k'.proc j).state = .runnable := hj
  rw [hsi] at hi' ⊢
  rw [hsj] at hj' ⊢
  exact h.order hlt' i j hij hi' hj' hearlier'

/-- The line keeps its order over all steps that spare sleepers. -/
lemma InLine.of_run (hreach : Run (Kernel.step .mlfq) anyStep (Kernel.boot .mlfq) ls0 k0)
    (hrun : Run Timed.step (fun l s => notBoost l ∧ sparesSleepers l s.kernel)
      (Timed.start k0) ls s) : InLine s := by
  refine hrun.invariant InLine (InLine.start hreach) ?_
  intro l s s' hok hs h
  obtain ⟨k', hk', rfl⟩ := map_eq_some_iff.mp hs
  exact h.step hk' hok.1 hok.2

/-- A state reached under observation is reached by the kernel. -/
lemma Timed.reachable (hreach : Run (Kernel.step .mlfq) anyStep (Kernel.boot .mlfq) ls0 k0)
    (hrun : Run Timed.step ok (Timed.start k0) ls s) :
    ∃ ls', Run (Kernel.step .mlfq) anyStep (Kernel.boot .mlfq) ls' s.kernel := by
  refine hrun.invariant
    (fun s => ∃ ls', Run (Kernel.step .mlfq) anyStep (Kernel.boot .mlfq) ls' s.kernel)
    ⟨ls0, hreach⟩ ?_
  rintro l s s' - hs ⟨ls', h⟩
  obtain ⟨k', hk', rfl⟩ := map_eq_some_iff.mp hs
  exact ⟨_, h.snoc trivial hk'⟩

/-- The scheduler does not take a process while a RUNNABLE process of the same
queue has a smaller number. -/
lemma not_selected_of_smaller (h : Run (Kernel.step .mlfq) anyStep (Kernel.boot .mlfq) ls k)
    (hcount : k.enqueues < 2 ^ 64 - 1) (hi : (k.proc i).state = .runnable)
    (hqueue : (k.proc i).queue = (k.proc j).queue) (hlt : (k.proc i).sequence < (k.proc j).sequence)
    (held : Finset Slot) : select .mlfq k ≠ some (some j, held) := by
  intro hsel
  have hord := Ordered.of_run (by decide) h
  have hvalid := hord.valid (by omega)
  have hbound : ∀ a, (k.proc a).state = .runnable → (k.proc a).sequence < 2 ^ 64 - 1 := by
    intro a ha
    have hbelow : (k.proc a).sequence < k.enqueues := hvalid.below a (Or.inl ha)
    omega
  have hmlfq : Policy.mlfq ≠ .rr := by decide
  rcases select_choice hmlfq (Leveled.of_run h) hbound with ⟨sel, held', hsel', hchoice⟩
  rw [hsel] at hsel'
  cases hsel'
  rcases (hchoice.some j rfl).2 i hi with hq | ⟨-, hle⟩
  all_goals omega

/-- **When the MLFQ queues are first in, first out.** From any reachable state,
over steps that are not part of a boost and do not kill a sleeping process, and
before `next` wraps around: of two RUNNABLE processes in the same queue, the
one that became RUNNABLE earlier has the smaller number and the scheduler does
not choose the other; and a sleeping process that becomes RUNNABLE in such a
step has a larger number than all other RUNNABLE processes. -/
theorem mlfq_fifo {k0 : KernelState} {ls0 ls : List Label}
    (hreach : Run (Kernel.step .mlfq) anyStep (Kernel.boot .mlfq) ls0 k0)
    (hrun : Run Timed.step (fun l s => notBoost l ∧ sparesSleepers l s.kernel)
      (Timed.start k0) ls s)
    (hcount : s.kernel.enqueues < 2 ^ 64 - 1) :
    (∀ i j, i ≠ j → (s.proc i).state = .runnable → (s.proc j).state = .runnable →
      (s.proc i).queue = (s.proc j).queue → s.earlier i j →
      (s.proc i).sequence < (s.proc j).sequence ∧
        ∀ held, select .mlfq s.kernel ≠ some (some j, held)) ∧
    (∀ l s', Timed.step l s = some s' → notBoost l → sparesSleepers l s.kernel →
      ∀ j, (s.proc j).state = .sleeping → (s'.proc j).state = .runnable →
        ∀ i, i ≠ j → (s'.proc i).state = .runnable →
          (s'.proc i).sequence < (s'.proc j).sequence) := by
  have hline := InLine.of_run hreach hrun
  have hlt : s.kernel.enqueues < 2 ^ 64 := by omega
  obtain ⟨ls', hreached⟩ := Timed.reachable hreach hrun
  constructor
  · intro i j hij hi hj hqueue hearlier
    have hseq := hline.order hlt i j hij hi hj hearlier
    exact ⟨hseq, not_selected_of_smaller hreached hcount hi hqueue hseq⟩
  intro l s' hs hboost hspare j hsleep hready i hij hi
  obtain ⟨k', hk', rfl⟩ := map_eq_some_iff.mp hs
  have hshift := (Move.of_step hk').shift (by decide) hline.seated
  rcases hshift.runnable_of_keep hboost hspare with ⟨-, hkeep⟩ | ⟨a, -, -, -, own, others⟩
  · have hrun' := (hkeep j hready).1
    rw [hsleep] at hrun'
    cases hrun'
  -- the slot that draws is `j`: no other slot changes
  have hja : j = a := by
    by_contra hne
    have hready' : (k'.proc j).state = .runnable := hready
    rw [others j hne] at hready'
    have hsleep' : (s.kernel.proc j).state = .sleeping := hsleep
    rw [hsleep'] at hready'
    cases hready'
  subst hja
  exact hline.drawn_largest hlt own others hij hi

/-- Two children of the first process, forked one after the other. -/
theorem mlfq_fifo_forked :
    ∃ ls s, Run Timed.step (fun l s => notBoost l ∧ sparesSleepers l s.kernel)
        (Timed.start (Kernel.boot .mlfq)) ls s ∧
      (s.proc 1).sequence < (s.proc 2).sequence ∧
        ∀ held, select .mlfq s.kernel ≠ some (some 2, held) := by
  refine ⟨[.dispatch 0 0, .allocproc 1, .setParent 0 1, .ready 1, .allocproc 2, .setParent 0 2,
    .ready 2], Run.exists_imp (P := fun s => s.kernel.enqueues < 2 ^ 64 - 1 ∧
      (s.proc 1).state = .runnable ∧ (s.proc 2).state = .runnable ∧
      (s.proc 1).queue = (s.proc 2).queue ∧ s.earlier 1 2) (by decide +kernel) ?_⟩
  rintro s hrun ⟨hcount, h1, h2, hqueue, hearlier⟩
  have hfifo := mlfq_fifo .nil hrun hcount
  exact hfifo.1 1 2 (by decide) h1 h2 hqueue hearlier

/-- The first process forks three children and waits; the first child sleeps;
the second child kills the first. The killed process now became RUNNABLE after
the third child, in the same queue, and is chosen before it. -/
theorem killed_sleeper_jumps_queue :
    ∃ ls s, Run Timed.step (fun l _ => notBoost l) (Timed.start (Kernel.boot .mlfq)) ls s ∧
      (s.proc 3).state = .runnable ∧ (s.proc 1).state = .runnable ∧
      (s.proc 3).queue = (s.proc 1).queue ∧ s.earlier 3 1 ∧
      (s.proc 1).sequence < (s.proc 3).sequence ∧
      select .mlfq s.kernel = some (some 1, {1}) := by
  refine ⟨[.dispatch 0 0, .allocproc 1, .setParent 0 1, .ready 1,
    .allocproc 2, .setParent 0 2, .ready 2, .allocproc 3, .setParent 0 3, .ready 3,
    .sleepPrepare 0 8, .sleep 0, .dispatch 0 1, .sleepPrepare 0 9, .sleep 0,
    .dispatch 0 2, .kkill 2 1], ?_⟩
  decide +kernel

end

end CshellXv6.Kernel
