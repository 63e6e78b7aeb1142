import CshellXv6.Kernel.Accounting
import CshellXv6.Kernel.Scheduler

/-! # The priority boost and the order of the queues

`mlfq_boost` takes every live process to the first queue. It walks the table in
the order of the slots and gives each RUNNABLE process a new sequence number,
so after it the RUNNABLE processes stand in the order of their slots, whatever
their order was.
-/

namespace CshellXv6.Kernel

open Lib

section

variable {k : KernelState} {i j : Slot}

/-- A boost that visits a RUNNABLE process lets it draw a number. -/
lemma boostSlot_self_of_runnable (h : (k.proc i).state = .runnable) :
    ((boostSlot i k).proc i).sequence = k.next ∧ (boostSlot i k).enqueues = k.enqueues + 1 := by
  have hl : (k.proc i).live := by simp [Proc.live, h]
  rw [boostSlot, if_pos hl]
  dsimp only
  rw [if_pos (by simpa using h)]
  exact ⟨by rw [enqueueLocked_self, modify_next], rfl⟩

/-- A free slot and a zombie are left as they are. -/
lemma mlfqBoost_of_not_live (h : ¬ (k.proc j).live) : (mlfqBoost k).proc j = k.proc j := by
  refine sweep_preserves (P := fun k' : KernelState => k'.proc j = k.proc j) ?_ rfl
  intro i k' hk'
  by_cases hji : j = i
  · subst hji
    rw [boostSlot_of_not_live j k' (by rw [hk']; exact h)]
    exact hk'
  · rw [boostSlot_of_ne i k' hji]
    exact hk'

/-! ## The order after a boost -/

/-- After a boost the RUNNABLE processes stand in the order of their slots. -/
lemma mlfqBoost_order (hord : Ordered k) (hi : (k.proc i).state = .runnable)
    (hj : (k.proc j).state = .runnable) (hij : i < j) (hcount : (mlfqBoost k).enqueues < 2 ^ 64) :
    ((mlfqBoost k).proc i).sequence < ((mlfqBoost k).proc j).sequence := by
  -- `j` draws after `i`, and nobody else changes the number of either
  refine sweep_establishes_last
    (I := fun s : KernelState => Ordered s ∧ (s.proc i).state = .runnable ∧
      (s.proc j).state = .runnable)
    (P := fun s : KernelState => s.enqueues < 2 ^ 64 → (s.proc i).sequence < (s.proc j).sequence)
    j ⟨hord, hi, hj⟩ ?_ ?_ ?_ hcount
  · rintro a s ⟨ho, hsi, hsj⟩
    have hshift : Shift .mlfq (.boost a) s (boostSlot a s) := Shift.boost a
    exact ⟨ho.step hshift, by rw [boostSlot_state]; exact hsi, by rw [boostSlot_state]; exact hsj⟩
  · rintro s ⟨ho, hsi, hsj⟩ hlt
    obtain ⟨hseq, henq⟩ := boostSlot_self_of_runnable hsj
    have hlt' : s.enqueues < 2 ^ 64 := by omega
    have hbelow : (s.proc i).sequence < s.enqueues := (ho.valid hlt').below i (.inl hsi)
    rw [hseq, boostSlot_of_ne j s hij.ne, ho.next_eq, Nat.mod_eq_of_lt hlt']
    exact hbelow
  · rintro a s hja - hlt hbound
    have hshift : Shift .mlfq (.boost a) s (boostSlot a s) := Shift.boost a
    have hmono := hshift.enqueues_le
    rw [boostSlot_of_ne a s (hij.trans hja).ne, boostSlot_of_ne a s hja.ne]
    exact hlt (by omega)

/-- The RUNNABLE processes of a queue stand in the order of their slots. -/
def SlotOrdered (k : KernelState) : Prop :=
  ∀ i j, (k.proc i).state = .runnable → (k.proc j).state = .runnable →
    (k.proc i).queue = (k.proc j).queue → (k.proc i).sequence < (k.proc j).sequence → i < j

instance (k : KernelState) : Decidable (SlotOrdered k) :=
  inferInstanceAs (Decidable (∀ i j, (k.proc i).state = .runnable → (k.proc j).state = .runnable →
    (k.proc i).queue = (k.proc j).queue → (k.proc i).sequence < (k.proc j).sequence → i < j))

/-- **When a boost keeps the order of the queues.** In every reachable state of
the MLFQ kernel, a boost takes every live process to the beginning of the first
queue and changes no other process; and it keeps the order of all RUNNABLE
processes that shared a queue exactly if the processes of each queue stood in
the order of their slots (as long as `next` does not wrap around). -/
theorem boost_keeps_fifo_iff {ls : List Label}
    (hrun : Run (Kernel.step .mlfq) anyStep (Kernel.boot .mlfq) ls k)
    (hcount : (mlfqBoost k).enqueues < 2 ^ 64 - 1) :
    (∀ i, (k.proc i).live →
      ((mlfqBoost k).proc i).queue = 0 ∧ ((mlfqBoost k).proc i).sliceTicks = 0) ∧
    (∀ i, ¬ (k.proc i).live → (mlfqBoost k).proc i = k.proc i) ∧
    ((∀ i j, (k.proc i).state = .runnable → (k.proc j).state = .runnable →
        (k.proc i).queue = (k.proc j).queue → ahead .mlfq (k.proc i) (k.proc j) →
        ahead .mlfq ((mlfqBoost k).proc i) ((mlfqBoost k).proc j)) ↔
      SlotOrdered k) := by
  have hord := Ordered.of_run (by decide) hrun
  have hlt : (mlfqBoost k).enqueues < 2 ^ 64 := by omega
  have htop : ∀ i, (k.proc i).live →
      ((mlfqBoost k).proc i).queue = 0 ∧ ((mlfqBoost k).proc i).sliceTicks = 0 :=
    fun i hl => mlfqBoost_atTop k i ((mlfqBoost_persists k i).live.mpr hl)
  have htop' : ∀ i, (k.proc i).state = .runnable → ((mlfqBoost k).proc i).queue = 0 :=
    fun i hi => (htop i (by simp [Proc.live, hi])).1
  refine ⟨htop, fun i hl => mlfqBoost_of_not_live hl, ?_⟩
  constructor
  · intro hkeep i j hi hj hqueue hseq
    by_contra hnot
    have hji : j < i := by
      rcases lt_trichotomy i j with h | h | h
      · exact absurd h hnot
      · subst h
        exact absurd hseq (lt_irrefl _)
      · exact h
    -- the boost has put `j` in front
    have hafter := mlfqBoost_order hord hj hi hji hlt
    rcases hkeep i j hi hj hqueue (.inr ⟨hqueue, hseq⟩) with hq | ⟨-, hs⟩
    · rw [htop' i hi, htop' j hj] at hq
      exact absurd hq (lt_irrefl _)
    · omega
  · intro hslots i j hi hj hqueue hahead
    have hseq : (k.proc i).sequence < (k.proc j).sequence := by
      rcases hahead with hq | ⟨-, hs⟩
      · omega
      · exact hs
    refine .inr ⟨?_, mlfqBoost_order hord hi hj (hslots i j hi hj hqueue hseq) hlt⟩
    rw [htop' i hi, htop' j hj]

/-- Two children in the first queue, the one in the lower slot forked first. -/
theorem boost_keeps_fifo_iff_forked :
    ∃ ls k, Run (Kernel.step .mlfq) anyStep (Kernel.boot .mlfq) ls k ∧ SlotOrdered k ∧
      ahead .mlfq (k.proc 1) (k.proc 2) ∧
      ahead .mlfq ((mlfqBoost k).proc 1) ((mlfqBoost k).proc 2) := by
  refine ⟨[.dispatch 0 0, .allocproc 1, .setParent 0 1, .ready 1, .allocproc 2, .setParent 0 2,
    .ready 2], Run.exists_imp (P := fun k => (mlfqBoost k).enqueues < 2 ^ 64 - 1 ∧
      SlotOrdered k ∧ (k.proc 1).state = .runnable ∧ (k.proc 2).state = .runnable ∧
      (k.proc 1).queue = (k.proc 2).queue ∧ ahead .mlfq (k.proc 1) (k.proc 2))
    (by decide +kernel) ?_⟩
  rintro k hrun ⟨hcount, hslots, h1, h2, hqueue, hahead⟩
  have hkeep := (boost_keeps_fifo_iff hrun hcount).2.2.mpr hslots
  exact ⟨hslots, hahead, hkeep 1 2 h1 h2 hqueue hahead⟩

/-- The first process sleeps while its child forks another one, and is woken up
after that: it stands behind the new process, and in front of it after a boost. -/
theorem boost_reorders_queue :
    ∃ ls k, Run (Kernel.step .mlfq) anyStep (Kernel.boot .mlfq) ls k ∧
      (k.proc 2).state = .runnable ∧ (k.proc 0).state = .runnable ∧
      (k.proc 2).queue = (k.proc 0).queue ∧ ahead .mlfq (k.proc 2) (k.proc 0) ∧
      ¬ ahead .mlfq ((mlfqBoost k).proc 2) ((mlfqBoost k).proc 0) ∧
      select .mlfq k = some (some 2, {2}) ∧
      select .mlfq (mlfqBoost k) = some (some 0, {0}) := by
  refine ⟨[.dispatch 0 0, .allocproc 1, .setParent 0 1, .ready 1, .sleepPrepare 0 9, .sleep 0,
    .dispatch 0 1, .allocproc 2, .setParent 0 2, .ready 2, .wakeup 9 0], ?_⟩
  decide +kernel

end

end CshellXv6.Kernel
