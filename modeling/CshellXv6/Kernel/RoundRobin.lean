import CshellXv6.Kernel.Uniprocessor

/-! # Round robin

The default `scheduler` walks over the process table for ever: it runs every process that it
finds RUNNABLE, and goes on with the next slot when that process has given up the CPU. Here
the machine of one CPU gets the pointer `p` of this walk. Everything else that can happen to
the table may come between two of its steps.
-/

namespace CshellXv6.Kernel

open Lib Option

/-- The kernel on one CPU, and the slot that the scheduler looks at next. -/
structure RoundRobin where
  uni : Uni
  p : Slot

inductive RoundLabel where
  /-- The scheduler finds the process in slot `i` RUNNABLE and switches to it. -/
  | dispatch (i : Slot)
  /-- It finds no RUNNABLE process in the slot. -/
  | skip
  | other (l : UniLabel)
deriving DecidableEq

/-- The process in slot `i` is RUNNABLE. -/
def RoundRobin.runnable (s : RoundRobin) (i : Slot) : Prop :=
  (s.uni.kernel.proc i).state = .runnable

instance (s : RoundRobin) (i : Slot) : Decidable (s.runnable i) :=
  inferInstanceAs (Decidable (_ = _))

/-- Only the walk dispatches. -/
def UniLabel.dispatches : UniLabel → Bool
  | .critical (.dispatch _ _) => true
  | _ => false

/-- After the last slot the walk starts again. -/
def RoundRobin.step : RoundLabel → RoundRobin → Option RoundRobin
  | .dispatch i, s =>
    if s.p = i ∧ s.runnable i then
      (Uni.step .rr (.critical (.dispatch cpu0 i)) s.uni).map fun u => ⟨u, s.p + 1⟩
    else none
  | .skip, s =>
    if s.uni.current = none ∧ ¬ s.runnable s.p then some { s with p := s.p + 1 } else none
  | .other l, s =>
    if l.dispatches then none else (Uni.step .rr l s.uni).map fun u => { s with uni := u }

section

variable {s s1 s2 s' : RoundRobin} {l : RoundLabel} {i j : Slot}

/-- The pointer stays or moves on by one slot, and not past a process that is RUNNABLE
without running it. -/
lemma RoundRobin.pointer (h : RoundRobin.step l s = some s') :
    s'.p = s.p ∨ (s'.p = s.p + 1 ∧ (s.runnable s.p → l = .dispatch s.p)) := by
  cases l with
  | dispatch i =>
    obtain ⟨⟨rfl, -⟩, hmap⟩ := ite_none_right_eq_some.mp h
    obtain ⟨u, -, rfl⟩ := map_eq_some_iff.mp hmap
    exact .inr ⟨rfl, fun _ => rfl⟩
  | skip =>
    obtain ⟨⟨-, hnot⟩, rfl⟩ := of_guard h
    exact .inr ⟨rfl, fun hrun => absurd hrun hnot⟩
  | other l =>
    obtain ⟨-, hmap⟩ := ite_none_left_eq_some.mp h
    obtain ⟨u, -, rfl⟩ := map_eq_some_iff.mp hmap
    exact .inl rfl

/-- On its way from behind slot `i` the pointer has not gone past slot `j`. -/
def RoundRobin.Before (i j : Slot) (s : RoundRobin) : Prop :=
  (s.p.val + 63 - i.val) % 64 ≤ (j.val + 63 - i.val) % 64

lemma RoundRobin.Before.step (hb : s.Before i j) (h : RoundRobin.step l s = some s')
    (hready : s.runnable j) (hl : l ≠ .dispatch j) : s'.Before i j := by
  unfold RoundRobin.Before at *
  rcases RoundRobin.pointer h with hp | ⟨hp, hdispatch⟩
  · rwa [hp]
  have hne : s.p.val ≠ j.val := by
    intro heq
    cases Fin.ext heq
    exact hl (hdispatch hready)
  have hval : s'.p.val = (s.p.val + 1) % 64 := by
    rw [hp]
    rfl
  omega

/-- **Round robin is fair.** Between two dispatches of slot `i`, every other slot `j` is
dispatched, or there is a moment at which its process is not RUNNABLE. -/
theorem rr_fair {s3 : RoundRobin} {ls : List RoundLabel} (hij : j ≠ i)
    (hfirst : RoundRobin.step (.dispatch i) s = some s1)
    (hrun : Run RoundRobin.step anyStep s1 ls s2)
    (hagain : RoundRobin.step (.dispatch i) s2 = some s3) :
    .dispatch j ∈ ls ∨
      ∃ pre post t, ls = pre ++ post ∧ Run RoundRobin.step anyStep s1 pre t ∧ ¬ t.runnable j := by
  by_contra hcon
  push Not at hcon
  obtain ⟨hnot, hready⟩ := hcon
  have hstart : s1.Before i j := by
    obtain ⟨⟨rfl, -⟩, hmap⟩ := ite_none_right_eq_some.mp hfirst
    obtain ⟨u, -, rfl⟩ := map_eq_some_iff.mp hmap
    have hval : (s.p + 1).val = (s.p.val + 1) % 64 := rfl
    unfold RoundRobin.Before
    simp only
    omega
  -- as long as `j` waits, the pointer does not pass it
  have hbefore : s2.Before i j := by
    clear hagain
    induction hrun with
    | nil => exact hstart
    | @snoc ls t t' l hr hok hs ih =>
      have hl : l ≠ .dispatch j := by
        rintro rfl
        exact hnot (by simp)
      refine (ih (fun h => hnot (by simp [h])) fun pre post u hls => ?_).step hs ?_ hl
      · exact hready pre (post ++ [l]) u (by rw [hls, List.append_assoc])
      · exact hready ls [l] t rfl hr
  -- but to come back to `i` it has to
  have hp : s2.p = i := (ite_none_right_eq_some.mp hagain).1.1
  have hne : j.val ≠ i.val := fun heq => hij (Fin.ext heq)
  unfold RoundRobin.Before at hbefore
  rw [hp] at hbefore
  omega

/-- Slot 0 is preempted, slot 1 runs until it is preempted, and nobody else is there. -/
def round : List RoundLabel :=
  [.other .clockintr, .other .yield, .dispatch 1, .other .clockintr, .other .yield] ++
    List.replicate 62 .skip

/-- Slot 0 has forked slot 1, which waits when slot 0 is dispatched. -/
theorem rr_fair_forked :
    ∃ ls s s1 s2 s3, Run RoundRobin.step anyStep ⟨Uni.boot .rr, 0⟩ ls s ∧
      RoundRobin.step (.dispatch 0) s = some s1 ∧ s1.runnable 1 ∧
      Run RoundRobin.step anyStep s1 round s2 ∧ RoundRobin.step (.dispatch 0) s2 = some s3 ∧
      (.dispatch 1 ∈ round ∨ ∃ pre post t, round = pre ++ post ∧
        Run RoundRobin.step anyStep s1 pre t ∧ ¬ t.runnable 1) := by
  have hreplay : ∃ s, Run RoundRobin.step anyStep ⟨Uni.boot .rr, 0⟩
      ([.dispatch 0, .other (.critical (.allocproc 1)), .other (.critical (.setParent 0 1)),
        .other (.critical (.ready 1))] ++ round) s ∧
      ∃ s1, RoundRobin.step (.dispatch 0) s = some s1 ∧ s1.runnable 1 ∧
        ∃ s2, Run RoundRobin.step anyStep s1 round s2 ∧
          ∃ s3, RoundRobin.step (.dispatch 0) s2 = some s3 ∧ True := by decide +kernel
  obtain ⟨s, hrun, s1, hfirst, hwaits, s2, hrun', s3, hagain, -⟩ := hreplay
  exact ⟨_, s, s1, s2, s3, hrun, hfirst, hwaits, hrun', hagain,
    rr_fair (by decide) hfirst hrun' hagain⟩

/-! ## How long a process waits -/

/-- The step is one of the walk. -/
def RoundLabel.walks : RoundLabel → Bool
  | .other _ => false
  | _ => true

lemma RoundRobin.p_eq (h : RoundRobin.step l s = some s') :
    s'.p = if l.walks then s.p + 1 else s.p := by
  cases l with
  | dispatch i =>
    obtain ⟨u, -, rfl⟩ := map_eq_some_iff.mp (ite_none_right_eq_some.mp h).2
    rfl
  | skip =>
    obtain ⟨-, rfl⟩ := of_guard h
    rfl
  | other l =>
    obtain ⟨u, -, rfl⟩ := map_eq_some_iff.mp (ite_none_left_eq_some.mp h).2
    rfl

/-- **The walk comes closer to a process that waits.** As long as `j` is RUNNABLE and is not
dispatched, every slot that the walk visits is one of those between its pointer and `j`. There
are at most 63 of them, whatever the other processes do in the meantime. -/
theorem rr_waiting_bounded {ls : List RoundLabel}
    (hrun : Run RoundRobin.step (fun l s => s.runnable j ∧ l ≠ .dispatch j) s ls s') :
    ls.countP RoundLabel.walks + (j.val + 64 - s'.p.val) % 64 = (j.val + 64 - s.p.val) % 64 := by
  induction hrun with
  | nil => exact Nat.zero_add _
  | @snoc ls t t' l _ hok hs ih =>
    have hp := RoundRobin.p_eq hs
    rw [List.countP_append, List.countP_singleton, ← ih]
    cases hwalks : l.walks with
    | false =>
      rw [hwalks] at hp
      simp [hp]
    | true =>
      rw [hwalks] at hp
      have hne : t.p.val ≠ j.val := by
        intro heq
        cases Fin.ext heq
        rcases RoundRobin.pointer hs with hstay | ⟨-, hdispatch⟩
        · simp [hp] at hstay
        · exact hok.2 (hdispatch hok.1)
      have hval : t'.p.val = (t.p.val + 1) % 64 := congrArg Fin.val hp
      simp only [if_true]
      omega

/-- Slot 0 waits for a whole round. -/
theorem rr_waiting_alone :
    ∃ s', Run RoundRobin.step (fun l s => s.runnable 0 ∧ l ≠ .dispatch 0) ⟨Uni.boot .rr, 1⟩
        (List.replicate 63 .skip) s' ∧ s'.p = 0 ∧
      (List.replicate 63 .skip).countP RoundLabel.walks + (0 + 64 - s'.p.val) % 64 =
        (0 + 64 - 1) % 64 :=
  Run.exists_imp (P := fun s' => s'.p = 0) (by decide +kernel)
    fun _ hrun hp => ⟨hp, rr_waiting_bounded hrun⟩

end

end CshellXv6.Kernel
