import CshellXv6.Kernel.Dispatch

/-! # The FCFS kernel runs a process until it blocks

Nothing in the FCFS kernel says that a process is not preempted: the timer
makes it yield like under the other schedulers. It is chosen again because
`yield` lets it keep its sequence number, while every process that becomes
RUNNABLE meanwhile draws a larger one. The exception is a process that `kkill`
finds asleep: it becomes RUNNABLE with the number it had.
-/

namespace CshellXv6.Kernel

open Lib

/-! ## The process in front -/

/-- The process is in the queue, and every RUNNABLE process stands behind it, as
long as `next` has not wrapped around. -/
structure Front (i : Slot) (k : KernelState) : Prop where
  queued : (k.proc i).queued
  least : k.enqueues < 2 ^ 64 - 1 → ∀ j, j ≠ i → (k.proc j).state = .runnable →
    (k.proc i).sequence < (k.proc j).sequence

section

variable {k k' : KernelState} {l : Label} {i : Slot}

/-- Nobody passes a process that stays as it is. -/
lemma Front.shift (h : Front i k) (hr : Ordered k) (hs : Shift .fcfs l k k')
    (hboost : notBoost l) (hyield : ∀ c, l ≠ .yield c) (hspare : sparesSleepers l k)
    (hstate : (k'.proc i).state = (k.proc i).state) : Front i k' := by
  have hqueued : (k'.proc i).queued := by
    rw [Proc.queued, hstate]
    exact h.queued
  refine ⟨hqueued, ?_⟩
  intro hcount j hji hj
  have hmono := hs.enqueues_le
  have hcount' : k.enqueues < 2 ^ 64 - 1 := by omega
  cases hs with
  | keep _ _ stays =>
    have hj' : (k.proc j).state = .runnable := by
      rcases (stays j).ready hj with hrun | ⟨hsleep, pid, rfl⟩ | ⟨-, c, hc⟩
      · exact hrun
      · rw [sparesSleepers, killsSleeper, decide_eq_false_iff_not] at hspare
        exact absurd hsleep hspare
      · exact absurd hc (hyield c)
    rw [((stays i).same hqueued).2, ((stays j).same (.inl hj)).2]
    exact h.least hcount' j hji hj'
  | draw a _ _ own ready others cause =>
    have hia : i ≠ a := by
      rintro rfl
      rcases cause with hnot | rfl
      · exact hnot (hstate.symm.trans ready)
      · cases hboost
    rw [others i hia]
    by_cases hja : j = a
    · -- the new number is larger than all that are in the queue
      subst hja
      rw [own, hr.next_eq_enqueues hcount']
      exact (hr.valid (by omega)).below i h.queued
    · rw [others j hja] at hj ⊢
      exact h.least hcount' j hji hj

lemma Front.wakeup (h : Front i k) (hr : Ordered k) (chan : Nat) (hi : (k.proc i).awake) :
    Front i (wakeup .fcfs chan k) := by
  have hinv : Ordered (Kernel.wakeup .fcfs chan k) ∧
      ((Kernel.wakeup .fcfs chan k).proc i).awake ∧ Front i (Kernel.wakeup .fcfs chan k) := by
    refine sweep_preserves
      (P := fun k : KernelState => Ordered k ∧ (k.proc i).awake ∧ Front i k) ?_ ⟨hr, hi, h⟩
    rintro j k ⟨hr, hi, h⟩
    have hs : Shift .fcfs (.wakeup chan j) k (wakeupSlot .fcfs chan j k) :=
      Shift.wakeup (by decide) chan j
    have hstate : ((wakeupSlot .fcfs chan j k).proc i).state = (k.proc i).state :=
      wakeupSlot_awake chan j hi
    refine ⟨hr.step hs, ?_, h.shift hr hs rfl (fun _ => by simp) rfl hstate⟩
    rw [Proc.awake, hstate]
    exact hi
  exact hinv.2.2

lemma Front.clockintr (h : Front i k) (hr : Regular k) (hi : (k.proc i).awake) :
    Front i (clockintr .fcfs k) := by
  have hs : Shift .fcfs .charge k (chargeTick .fcfs k) :=
    (.charge : Move .fcfs k .charge _).shift (by decide) hr.seated
  have hcharged : Front i (chargeTick .fcfs k) :=
    h.shift hr.ordered hs rfl (fun _ => by simp) rfl (chargeTick_state .fcfs k i)
  have hawake : ((chargeTick .fcfs k).proc i).awake := by
    rw [Proc.awake, chargeTick_state]
    exact hi
  unfold Kernel.clockintr
  dsimp only
  rw [if_neg (by simp [boostDue])]
  exact hcharged.wakeup (hr.ordered.step hs) ticksChan hawake

/-- The scheduler has chosen the process. -/
lemma Front.dispatch (hr : Regular k) (hsel : chosen .fcfs k = some (some i)) (c : CpuId) :
    Front i (switchTo c i k) := by
  constructor
  · rw [switchTo_self]
    exact .inr (.inl rfl)
  intro hcount j hji hj
  rw [switchTo_of_ne c i k hji] at hj ⊢
  rw [switchTo_self]
  exact hr.ahead_of_chosen (by decide) hcount hsel hji hj

/-- A process that yields keeps its place. -/
lemma Front.yield (h : Front i k) : Front i ((yieldProc .fcfs i k).vacate cpu0) := by
  have hself : (yieldProc .fcfs i k).proc i = { k.proc i with state := .runnable } := by
    simp [yieldProc]
  constructor
  · rw [vacate_proc, hself]
    exact .inl rfl
  intro hcount j hji hj
  rw [vacate_proc, yieldProc_of_ne .fcfs i k hji] at hj ⊢
  rw [hself]
  exact h.least hcount j hji hj

end

/-! ## Runs -/

section

variable {u u' : Uni} {l : UniLabel} {i : Slot} {ls : List UniLabel}

/-- The running process is in front. -/
structure Led (u : Uni) : Prop where
  regular : Regular u.kernel
  front : ∀ i, u.current = some i → Front i u.kernel

lemma Led.boot : Led (Uni.boot .fcfs) := by
  constructor
  · exact Regular.of_run (by decide) (.nil : Run (Kernel.step .fcfs) anyStep _ [] _)
  intro i hi
  have hnone : (Uni.boot .fcfs).current = none := rfl
  rw [hnone] at hi
  cases hi

lemma Led.step (h : Led u) (hs : Uni.schedStep .fcfs l u = some u')
    (hspare : l.sparesSleepers u) : Led u' := by
  have hm := UniMove.of_schedStep hs
  refine ⟨h.regular.uniStep (by decide) hm, ?_⟩
  intro i hi
  cases hm with
  | clockintr _ =>
    have hcur : u.current = some i := by
      rw [Uni.current, clockintr_cpu] at hi
      exact hi
    exact (h.front i hcur).clockintr h.regular (.inl (h.regular.seated.running hcur))
  | yield _ =>
    rw [Uni.current, vacate_cpu_self] at hi
    cases hi
  | killedTrap _ _ => exact h.front i hi
  | @critical l k _ hown htaken =>
    have hmove := Move.of_step htaken
    rcases hmove.cpu_eq hi with hcur | rfl
    · -- the process was running before, and it still is
      have hseated := h.regular.seated.step hmove
      refine (h.front i hcur).shift h.regular.ordered
        (hmove.shift (by decide) h.regular.seated) ?_ ?_ hspare ?_
      · cases l <;> first | rfl | cases hown
      · rintro c rfl
        cases hown
      · rw [hseated.running hi, h.regular.seated.running hcur]
    · cases hmove with
      | dispatch _ _ => exact Front.dispatch h.regular (Uni.chosen_of_schedStep hs) cpu0

/-- The process is running, or it is RUNNABLE and the scheduler is at work; and
it is in front. -/
structure Holds (i : Slot) (u : Uni) : Prop where
  regular : Regular u.kernel
  front : Front i u.kernel
  turn : u.current = some i ∨ u.current = none ∧ (u.kernel.proc i).state = .runnable

lemma Holds.awake (h : Holds i u) : (u.kernel.proc i).awake := by
  rcases h.turn with hcur | ⟨-, hrun⟩
  · exact .inl (h.regular.seated.running hcur)
  · exact .inr hrun

lemma Holds.select (h : Holds i u) (hcount : u.kernel.enqueues < 2 ^ 64 - 1)
    (hrun : (u.kernel.proc i).state = .runnable) : select .fcfs u.kernel = some (some i, {i}) :=
  h.regular.select_of_ahead (by decide) hcount hrun (h.front.least hcount)

lemma Holds.step (h : Holds i u) (hcount : u.kernel.enqueues < 2 ^ 64 - 1)
    (hs : Uni.schedStep .fcfs l u = some u') (hspare : l.sparesSleepers u)
    (hblock : l.blocks = false) : Holds i u' := by
  have hm := UniMove.of_schedStep hs
  have hregular := h.regular.uniStep (by decide) hm
  cases hm with
  | clockintr _ =>
    have hcpu := clockintr_cpu .fcfs u.kernel
    refine ⟨hregular, h.front.clockintr h.regular h.awake, ?_⟩
    rcases h.turn with hcur | ⟨hnone, hrun⟩
    · left
      rw [Uni.current, hcpu]
      exact hcur
    right
    refine ⟨?_, ?_⟩
    · rw [Uni.current, hcpu]
      exact hnone
    · exact (clockintr_awake .fcfs h.awake).trans hrun
  | @yield j hdue =>
    have hji : j = i := by
      rcases h.turn with hcur | ⟨hnone, -⟩
      · exact Option.some.inj (hdue.2.symm.trans hcur)
      · rw [hdue.2] at hnone
        cases hnone
    subst hji
    refine ⟨hregular, h.front.yield, .inr ⟨vacate_cpu_self _ cpu0, ?_⟩⟩
    rw [vacate_proc]
    simp [yieldProc]
  | killedTrap _ _ => exact ⟨hregular, h.front, h.turn⟩
  | @critical l k _ hown htaken =>
    have hmove := Move.of_step htaken
    by_cases hdispatch : ∃ c j, l = .dispatch c j
    · rcases hdispatch with ⟨c, j, rfl⟩
      have hc : c = cpu0 := by simpa [Label.uni] using hown
      subst hc
      cases hmove with
      | dispatch hidle _ =>
        rcases h.turn with hcur | ⟨-, hrun⟩
        · rw [Uni.current, hidle] at hcur
          cases hcur
        -- the scheduler has no other choice
        have hchosen := Uni.chosen_of_schedStep hs
        rw [chosen, h.select hcount hrun] at hchosen
        have hij : i = j := by simpa using hchosen
        subst hij
        refine ⟨hregular, ?_, .inl ?_⟩
        · exact Front.dispatch h.regular (Uni.chosen_of_schedStep hs) cpu0
        · simp [Uni.current, switchTo]
    have hnot : ∀ c j, l ≠ .dispatch c j := fun c j hl => hdispatch ⟨c, j, hl⟩
    have hstate := hmove.awake hown (fun hb => absurd hblock (by simp [hb]))
      (fun c => hnot c i) h.awake
    have hcpu := hmove.cpu_same hown hblock hnot
    refine ⟨hregular, ?_, ?_⟩
    · refine h.front.shift h.regular.ordered (hmove.shift (by decide) h.regular.seated)
        ?_ ?_ hspare hstate
      · cases l <;> first | rfl | cases hown
      · rintro c rfl
        cases hown
    rcases h.turn with hcur | ⟨hnone, hrun⟩
    · left
      rw [Uni.current, hcpu]
      exact hcur
    · right
      exact ⟨by rw [Uni.current, hcpu]; exact hnone, hstate.trans hrun⟩

/-- Until it blocks, the process runs or is the next to run. -/
lemma Holds.of_run (h : Holds i u)
    (hrun : Run (Uni.schedStep .fcfs) (fun l u => l.sparesSleepers u ∧ l.blocks = false) u ls u')
    (hcount : u'.kernel.enqueues < 2 ^ 64 - 1) : Holds i u' := by
  have hinv : Regular u'.kernel ∧ (u'.kernel.enqueues < 2 ^ 64 - 1 → Holds i u') := by
    refine hrun.invariant (fun u => Regular u.kernel ∧ (u.kernel.enqueues < 2 ^ 64 - 1 → Holds i u))
      ⟨h.regular, fun _ => h⟩ ?_
    rintro l v v' ⟨hspare, hblock⟩ hs ⟨hreg, hv⟩
    have hm := UniMove.of_schedStep hs
    refine ⟨hreg.uniStep (by decide) hm, ?_⟩
    intro hcount'
    -- numbers are only ever drawn, so the bound held before the step
    have hle := hm.enqueues_le (by decide) hreg
    have hcount0 : v.kernel.enqueues < 2 ^ 64 - 1 := by omega
    exact (hv hcount0).step hcount0 hs hspare hblock
  exact hinv.2 hcount

/-- **When FCFS runs a process until it blocks.** In every state that the FCFS
kernel reaches on one CPU by steps that do not kill a sleeping process, and
before `next` wraps around: the number of the running process is smaller than
those of all RUNNABLE processes; and from there on, until it sleeps or exits,
it is running or the scheduler chooses it next, with all other RUNNABLE
processes behind it. -/
theorem fcfs_runs_to_block {ls : List UniLabel}
    (hrun : Run (Uni.schedStep .fcfs) (fun l u => l.sparesSleepers u) (Uni.boot .fcfs) ls u)
    (hcount : u.kernel.enqueues < 2 ^ 64 - 1) (hcur : u.current = some i) :
    (∀ j, (u.kernel.proc j).state = .runnable →
      (u.kernel.proc i).sequence < (u.kernel.proc j).sequence) ∧
    ∀ ls' u', Run (Uni.schedStep .fcfs) (fun l u => l.sparesSleepers u ∧ l.blocks = false)
        u ls' u' → u'.kernel.enqueues < 2 ^ 64 - 1 →
      (u'.current = some i ∨ u'.current = none ∧ select .fcfs u'.kernel = some (some i, {i})) ∧
      ∀ j, j ≠ i → (u'.kernel.proc j).state = .runnable →
        (u'.kernel.proc i).sequence < (u'.kernel.proc j).sequence := by
  have hled : Led u :=
    hrun.invariant Led Led.boot (fun _ _ _ hspare hs h => h.step hs hspare)
  have hfront := hled.front i hcur
  constructor
  · intro j hj
    have hji : j ≠ i := by
      rintro rfl
      rw [hled.regular.seated.running hcur] at hj
      cases hj
    exact hfront.least hcount j hji hj
  intro ls' u' hrun' hcount'
  have hholds : Holds i u := ⟨hled.regular, hfront, .inl hcur⟩
  have hholds' := hholds.of_run hrun' hcount'
  refine ⟨?_, hholds'.front.least hcount'⟩
  rcases hholds'.turn with hcur' | ⟨hnone, hready⟩
  · exact .inl hcur'
  · exact .inr ⟨hnone, hholds'.select hcount' hready⟩

/-- The first process forks a child and is interrupted by the clock: it comes
back, not the child. -/
theorem fcfs_runs_to_block_interrupted :
    ∃ ls u, Run (Uni.schedStep .fcfs) (fun l u => l.sparesSleepers u) (Uni.boot .fcfs) ls u ∧
      u.current = some 0 ∧ (u.kernel.proc 1).state = .runnable ∧
      (u.kernel.proc 0).sequence < (u.kernel.proc 1).sequence ∧
      ∃ u', Run (Uni.schedStep .fcfs) (fun l u => l.sparesSleepers u ∧ l.blocks = false)
          u [.clockintr, .yield] u' ∧
        (u'.current = some 0 ∨
          u'.current = none ∧ select .fcfs u'.kernel = some (some 0, {0})) := by
  refine ⟨[.critical (.dispatch 0 0), .critical (.allocproc 1), .critical (.setParent 0 1),
    .critical (.ready 1)], Run.exists_imp (P := fun u => u.kernel.enqueues < 2 ^ 64 - 1 ∧
      u.current = some 0 ∧ (u.kernel.proc 1).state = .runnable ∧
      ∃ u', Run (Uni.schedStep .fcfs) (fun l u => l.sparesSleepers u ∧ l.blocks = false)
        u [.clockintr, .yield] u' ∧ u'.kernel.enqueues < 2 ^ 64 - 1) (by decide +kernel) ?_⟩
  rintro u hrun ⟨hcount, hcur, hready, u', hrun', hcount'⟩
  have hblock := fcfs_runs_to_block hrun hcount hcur
  exact ⟨hcur, hready, hblock.1 1 hready, u', hrun', (hblock.2 _ u' hrun' hcount').1⟩

/-- The first process forks two children and waits; the first child sleeps; the
second child kills it. The killed process is RUNNABLE with a smaller number
than the running one, and is chosen at the next timer interrupt. -/
theorem killed_sleeper_preempts :
    ∃ ls u, Run (Uni.schedStep .fcfs) anyStep (Uni.boot .fcfs) ls u ∧
      u.current = some 2 ∧ (u.kernel.proc 1).state = .runnable ∧
      (u.kernel.proc 1).sequence < (u.kernel.proc 2).sequence ∧
      ∃ u', Run (Uni.schedStep .fcfs) (fun l _ => l.blocks = false) u [.clockintr, .yield] u' ∧
        u'.current = none ∧ select .fcfs u'.kernel = some (some 1, {1}) := by
  refine ⟨[.critical (.dispatch 0 0), .critical (.allocproc 1), .critical (.setParent 0 1),
    .critical (.ready 1), .critical (.allocproc 2), .critical (.setParent 0 2),
    .critical (.ready 2), .critical (.sleepPrepare 0 8), .critical (.sleep 0),
    .critical (.dispatch 0 1), .critical (.sleepPrepare 0 9), .critical (.sleep 0),
    .critical (.dispatch 0 2), .critical (.kkill 2 1)], ?_⟩
  decide +kernel

end

end CshellXv6.Kernel
