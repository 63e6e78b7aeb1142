import CshellXv6.Kernel.Dispatch

/-! # The statistics of a process

`arrival`, `first_run`, `ticks` and `waiting` are written when a slot is
allocated, when the process is first dispatched, and at every clock interrupt.
Here the clock ticks of each process are sorted from outside, by what the
process was doing when the interrupt came, and compared with these fields; and
`print_metrics` of `schedulertest` is compared with both.
-/

namespace CshellXv6.Kernel

open Lib Function Option

/-! ## What the statistics are -/

/-- The clock ticks since the slot was allocated, by the state of the process,
and the ticks it had waited when it was first dispatched. -/
structure History where
  ran : Nat
  waited : Nat
  rested : Nat
  firstWait : Option Nat
deriving DecidableEq, Repr

def History.new : History := ⟨0, 0, 0, none⟩

/-- USED, SLEEPING or ZOMBIE. -/
def Proc.resting (p : Proc) : Prop :=
  p.state = .used ∨ p.state = .sleeping ∨ p.state = .zombie

instance (p : Proc) : Decidable p.resting := inferInstanceAs (Decidable (_ ∨ _))

/-- One clock tick of a process; `current` says that it is the running one. -/
def History.tick (current : Bool) (p : Proc) (h : History) : History :=
  if current then { h with ran := h.ran + 1 }
  else if p.state = .runnable then { h with waited := h.waited + 1 }
  else if p.resting then { h with rested := h.rested + 1 }
  else h

/-- The process is dispatched. -/
def History.dispatched (p : Proc) (h : History) : History :=
  if p.started then h else { h with firstWait := some h.waited }

/-- The kernel on one CPU, the clock ticks since it was started, and the history
of each slot. -/
structure Watched where
  uni : Uni
  elapsed : Nat
  history : Slot → History

def Watched.proc (s : Watched) (i : Slot) : Proc := s.uni.kernel.proc i

/-- What a step adds to the histories. -/
def Watched.note (s : Watched) (u : Uni) : UniLabel → Watched
  | .clockintr =>
    ⟨u, s.elapsed + 1, fun i => (s.history i).tick (s.uni.current = some i) (s.proc i)⟩
  | .critical (.allocproc i) => ⟨u, s.elapsed, update s.history i History.new⟩
  | .critical (.dispatch _ i) =>
    ⟨u, s.elapsed, update s.history i ((s.history i).dispatched (s.proc i))⟩
  | _ => ⟨u, s.elapsed, s.history⟩

def Watched.step (pol : Policy) (l : UniLabel) (s : Watched) : Option Watched :=
  (Uni.step pol l s.uni).map fun u => s.note u l

/-- `userinit` has allocated the first slot. -/
def Watched.boot (pol : Policy) : Watched := ⟨Uni.boot pol, 0, fun _ => History.new⟩

/-! ## What leaves the statistics alone -/

/-- The fields that only an allocation and the clock write. -/
structure SameCounts (p p' : Proc) : Prop where
  arrival : p'.arrival = p.arrival
  ticks : p'.ticks = p.ticks
  waiting : p'.waiting = p.waiting

/-- All statistics are the same, and the slot is in use if it was before. -/
structure SameStats (p p' : Proc) : Prop extends SameCounts p p' where
  firstRun : p'.firstRun = p.firstRun
  started : p'.started = p.started
  used : p'.state = .unused ↔ p.state = .unused

section

variable {p p' p'' : Proc} {pol : Policy} {k k' : KernelState} {l : Label} {i j : Slot} {chan : Nat}

lemma SameStats.refl (p : Proc) : SameStats p p := by
  refine ⟨⟨?_, ?_, ?_⟩, ?_, ?_, Iff.rfl⟩ <;> rfl

lemma SameStats.trans (h : SameStats p p') (h' : SameStats p' p'') : SameStats p p'' := by
  refine ⟨⟨?_, ?_, ?_⟩, ?_, ?_, h'.used.trans h.used⟩
  · exact h'.arrival.trans h.arrival
  · exact h'.ticks.trans h.ticks
  · exact h'.waiting.trans h.waiting
  · exact h'.firstRun.trans h.firstRun
  · exact h'.started.trans h.started

/-- Only one slot changes, and not its statistics. -/
lemma sameStats_of_slot (hother : ∀ j, j ≠ i → k'.proc j = k.proc j)
    (h : SameStats (k.proc i) (k'.proc i)) (j : Slot) : SameStats (k.proc j) (k'.proc j) :=
  forall_of_slot (P := fun j => SameStats (k.proc j)) hother (fun _ => SameStats.refl _) h j

lemma wakeupSlot_sameStats (chan : Nat) (i j : Slot) (k : KernelState) :
    SameStats (k.proc j) ((wakeupSlot pol chan i k).proc j) := by
  refine sameStats_of_slot (fun j hji => wakeupSlot_of_ne pol chan i k hji) ?_ j
  rcases wakeupSlot_self pol chan i k with hn | ⟨-, hn⟩ | ⟨hs, n, hn⟩
  · rw [hn]
    exact SameStats.refl _
  · rw [hn]
    exact ⟨⟨rfl, rfl, rfl⟩, rfl, rfl, Iff.rfl⟩
  · rw [hn]
    exact ⟨⟨rfl, rfl, rfl⟩, rfl, rfl, by simp [hs]⟩

lemma boostSlot_sameStats (i j : Slot) (k : KernelState) :
    SameStats (k.proc j) ((boostSlot i k).proc j) := by
  refine sameStats_of_slot (fun j hji => boostSlot_of_ne i k hji) ?_ j
  by_cases hl : (k.proc i).live
  · rcases boostSlot_self_of_live i k hl with ⟨n, hn⟩
    rw [hn]
    exact ⟨⟨rfl, rfl, rfl⟩, rfl, rfl, Iff.rfl⟩
  · rw [boostSlot_of_not_live i k hl]
    exact SameStats.refl _

/-- After its first lines, a clock interrupt leaves the statistics alone. -/
lemma clockintr_sameStats (pol : Policy) (k : KernelState) (j : Slot) :
    SameStats ((chargeTick pol k).proc j) ((clockintr pol k).proc j) :=
  clockintr_relates (R := fun k k' : KernelState => SameStats (k.proc j) (k'.proc j))
    (fun _ => SameStats.refl _) (fun _ _ _ => SameStats.trans)
    (fun i k => wakeupSlot_sameStats ticksChan i j k) (fun i k => boostSlot_sameStats i j k) k

lemma yieldProc_sameStats (hi : (k.proc i).state = .running) (j : Slot) :
    SameStats (k.proc j) ((yieldProc pol i k).proc j) := by
  refine sameStats_of_slot (fun j hji => yieldProc_of_ne pol i k hji) ?_ j
  obtain ⟨n, queue, used, -, hn⟩ := yieldProc_self pol i k
  rw [hn]
  exact ⟨⟨rfl, rfl, rfl⟩, rfl, rfl, by simp [hi]⟩

/-- Outside the timer trap, the statistics of a slot stay the same until it is
freed, if it is neither allocated nor dispatched. -/
lemma Move.stats (hm : Move pol k l k') (hk : Seated k) (hown : l.uni = true)
    (hnew : l ≠ .allocproc j) (hdispatch : ∀ c, l ≠ .dispatch c j) :
    (k'.proc j).state = .unused ∨ SameStats (k.proc j) (k'.proc j) := by
  have he := hm.effect j
  generalize k'.proc j = p at he ⊢
  have hfields : ∀ {st}, (k.proc j).state = st → st ≠ .unused → p.state ≠ .unused →
      (p.state = .unused ↔ (k.proc j).state = .unused) := by
    rintro st rfl h h'
    exact iff_of_false h' h
  cases he with
  | same | clear _ | sleepPrepare _ _ | setkilled _ | setParent _ | reparent =>
    exact .inr ⟨⟨rfl, rfl, rfl⟩, rfl, rfl, Iff.rfl⟩
  | wake hs | ready hs =>
    exact .inr ⟨⟨rfl, rfl, rfl⟩, rfl, rfl, hfields hs (by decide) (by simp)⟩
  | sleep hon _ | exit hon =>
    exact .inr ⟨⟨rfl, rfl, rfl⟩, rfl, rfl,
      hfields (hk.running hon) (by decide) (by simp [exitProc])⟩
  | kkill _ =>
    refine .inr ⟨⟨rfl, rfl, rfl⟩, rfl, rfl, ?_⟩
    by_cases hs : (k.proc j).state = .sleeping
    all_goals simp [killProc, hs]
  | allocFail _ | collect _ => exact .inl rfl
  | @dispatch c _ _ => exact absurd rfl (hdispatch c)
  | allocproc _ => exact absurd rfl hnew
  | charge | boost _ | yield _ _ => cases hown

/-! ## Only the current process is RUNNING -/

/-- On one CPU, a RUNNING process is the one on the CPU. -/
def Sole (k : KernelState) : Prop := ∀ i, (k.proc i).state = .running → k.cpu cpu0 = some i

/-- Nobody starts to run, and the CPU keeps its process. -/
lemma Sole.of_cpu_eq (h : Sole k) (hcpu : k'.cpu = k.cpu)
    (hrun : ∀ j, (k'.proc j).state = .running → (k.proc j).state = .running) : Sole k' := by
  intro i hi
  rw [hcpu]
  exact h i (hrun i hi)

/-- The process leaves the CPU, and stops running. -/
lemma Sole.vacate (h : Sole k) (hon : k.cpu cpu0 = some i)
    (hother : ∀ j, j ≠ i → k'.proc j = k.proc j) (hi : (k'.proc i).state ≠ .running) :
    Sole (k'.vacate cpu0) := by
  intro j hj
  rw [vacate_proc] at hj
  have hji : j ≠ i := by
    rintro rfl
    exact hi hj
  rw [hother j hji] at hj
  exact absurd (Option.some.inj ((h j hj).symm.trans hon)) hji

lemma wakeupSlot_running (h : ((wakeupSlot pol chan i k).proc j).state = .running) :
    (k.proc j).state = .running := by
  by_cases hji : j = i
  · subst hji
    rcases wakeupSlot_self pol chan j k with hn | ⟨-, hn⟩ | ⟨-, n, hn⟩
    · rw [hn] at h
      exact h
    · rw [hn] at h
      exact h
    · rw [hn] at h
      cases h
  · rw [wakeupSlot_of_ne pol chan i k hji] at h
    exact h

lemma Sole.step (h : Sole k) (hm : Move pol k l k') (hown : l.uni = true) : Sole k' := by
  -- nobody starts to run but who is dispatched
  have hrun : (∀ c i, l ≠ .dispatch c i) →
      ∀ j, (k'.proc j).state = .running → (k.proc j).state = .running := by
    intro hl j hj
    have he := hm.effect j
    generalize k'.proc j = p at he hj
    cases he with
    | same | charge | boost _ | clear _ | sleepPrepare _ _ | setkilled _ | setParent _
    | reparent => exact hj
    | @dispatch c _ _ => exact absurd rfl (hl c j)
    | kkill _ =>
      by_contra hno
      by_cases hs : (k.proc j).state = .sleeping
      all_goals simp [killProc, hs, hno] at hj
    | allocproc _ => simp [Kernel.allocproc] at hj
    | wake _ | yield _ _ | sleep _ _ | allocFail _ | ready _ | exit _ | collect _ => cases hj
  cases hm with
  | @dispatch c i hidle _ =>
    have hc : c = cpu0 := by simpa [Label.uni] using hown
    subst hc
    intro j hj
    by_cases hji : j = i
    · subst hji
      simp [switchTo]
    rw [switchTo_of_ne _ i k hji] at hj
    rw [h j hj] at hidle
    cases hidle
  | charge | boost _ | yield _ => cases hown
  | @wakeup chan i => exact h.of_cpu_eq (wakeupSlot_cpu pol chan i k) (hrun (by simp))
  | @sleep c i hon _ =>
    have hc : c = cpu0 := by simpa [Label.uni] using hown
    subst hc
    exact h.vacate hon (fun j hji => modify_proc_of_ne k _ hji) (by simp)
  | ready _ => exact h.of_cpu_eq (by simp [makeRunnable]) (hrun (by simp))
  | @exit c _ p hon _ =>
    have hc : c = cpu0 := by simpa [Label.uni] using hown
    subst hc
    exact h.vacate hon (fun j hji => modify_proc_of_ne k _ hji) (by simp [exitProc])
  | _ => exact h.of_cpu_eq rfl (hrun (by simp))

lemma Sole.clockintr (h : Sole k) : Sole (clockintr pol k) := by
  refine h.of_cpu_eq (clockintr_cpu pol k) ?_
  intro j hj
  rw [← chargeTick_state pol k j]
  exact clockintr_relates
    (R := fun k k' : KernelState => (k'.proc j).state = .running → (k.proc j).state = .running)
    (fun _ => id) (fun _ _ _ h1 h2 h3 => h1 (h2 h3)) (fun _ _ => wakeupSlot_running)
    (fun i k => (boostSlot_state i j k).symm.trans) k hj

/-! ## The clock -/

lemma enqueueIfOrdered_ticks (i : Slot) (k : KernelState) :
    (enqueueIfOrdered pol i k).ticks = k.ticks := by
  cases pol <;> rfl

lemma wakeupSlot_ticks (chan : Nat) (i : Slot) (k : KernelState) :
    (wakeupSlot pol chan i k).ticks = k.ticks := by
  unfold wakeupSlot
  split
  · dsimp only
    split
    · rw [enqueueIfOrdered_ticks]
      rfl
    · rfl
  · rfl

lemma boostSlot_ticks (i : Slot) (k : KernelState) : (boostSlot i k).ticks = k.ticks := by
  unfold boostSlot
  split
  · dsimp only
    split
    all_goals rfl
  · rfl

lemma yieldProc_ticks (i : Slot) (k : KernelState) : (yieldProc pol i k).ticks = k.ticks := by
  cases pol <;> rfl

lemma clockintr_ticks (pol : Policy) (k : KernelState) :
    (clockintr pol k).ticks = (k.ticks + 1) % 2 ^ 32 :=
  clockintr_relates (R := fun k k' : KernelState => k'.ticks = k.ticks) (fun _ => rfl)
    (fun _ _ _ h h' => h'.trans h) (wakeupSlot_ticks ticksChan) boostSlot_ticks k

/-- Only the clock counts ticks. -/
lemma Move.ticks_eq (hm : Move pol k l k') (hl : l ≠ .charge) : k'.ticks = k.ticks := by
  cases hm with
  | charge => exact absurd rfl hl
  | @boost i _ => exact boostSlot_ticks i k
  | @yield c i _ => exact yieldProc_ticks i k
  | @wakeup chan i => exact wakeupSlot_ticks chan i k
  | @ready i _ => exact enqueueIfOrdered_ticks i k
  | _ => rfl

/-! ## The books of a process -/

/-- The statistics of a process agree with its history, which accounts for every
tick since its arrival. -/
structure Balanced (now : Nat) (p : Proc) (h : History) : Prop where
  ran : p.ticks = h.ran
  waited : p.waiting = h.waited
  total : p.arrival + h.ran + h.waited + h.rested = now
  first : p.started = true → p.arrival ≤ p.firstRun ∧ p.firstRun ≤ now ∧
    ∃ w, h.firstWait = some w ∧ p.arrival + w ≤ p.firstRun

variable {now : Nat} {h : History}

lemma Balanced.congr (hb : Balanced now p h) (hs : SameStats p p') : Balanced now p' h := by
  constructor
  · exact hs.ticks.trans hb.ran
  · exact hs.waiting.trans hb.waited
  · rw [hs.arrival]
    exact hb.total
  · rw [hs.started, hs.arrival, hs.firstRun]
    exact hb.first

/-- A slot that has just been allocated. -/
lemma Balanced.fresh (ha : p.arrival = now) (ht : p.ticks = 0) (hw : p.waiting = 0)
    (hs : p.started = false) : Balanced now p History.new := by
  constructor
  · exact ht
  · exact hw
  · simp [History.new, ha]
  intro hstarted
  rw [hs] at hstarted
  cases hstarted

/-- The first dispatch is when the wait so far is noted. -/
lemma Balanced.dispatch (hb : Balanced now (k.proc i) h) (hnow : k.ticks = now) (c : CpuId) :
    Balanced now ((switchTo c i k).proc i) (h.dispatched (k.proc i)) := by
  rw [switchTo_self]
  unfold History.dispatched
  cases hs : (k.proc i).started with
  | true =>
    have hfirst := hb.first hs
    exact ⟨hb.ran, hb.waited, hb.total, fun _ => by simpa using hfirst⟩
  | false =>
    have htotal := hb.total
    refine ⟨hb.ran, hb.waited, hb.total, fun _ => ?_⟩
    simp only [Bool.false_eq_true, if_false, hnow]
    exact ⟨by omega, le_rfl, h.waited, rfl, by omega⟩

/-- A clock tick is charged to the running process, or it is waited by a RUNNABLE
one, or it is rested. -/
lemma Balanced.charge (hb : Balanced now (k.proc i) h) (hsole : Sole k)
    (hused : (k.proc i).state ≠ .unused) (hlt : now + 1 < 2 ^ 32) :
    Balanced (now + 1) ((chargeTick pol k).proc i) (h.tick (k.cpu cpu0 = some i) (k.proc i)) := by
  have htotal := hb.total
  have hran := hb.ran
  have hwaited := hb.waited
  -- no counter has come near its end
  have hinc : ∀ n, n ≤ now → inc64 n = n + 1 := by
    intro n hn
    rw [inc64, Nat.mod_eq_of_lt (by omega)]
  have hfirst : ∀ w', (∀ w, h.firstWait = some w → w' = some w) →
      (k.proc i).started = true → (k.proc i).arrival ≤ (k.proc i).firstRun ∧
        (k.proc i).firstRun ≤ now + 1 ∧
        ∃ w, w' = some w ∧ (k.proc i).arrival + w ≤ (k.proc i).firstRun := by
    intro w' hw' hs
    obtain ⟨h1, h2, w, hw, h3⟩ := hb.first hs
    exact ⟨h1, by omega, w, hw' w hw, h3⟩
  simp only [chargeTick, History.tick]
  by_cases hcur : k.cpu cpu0 = some i
  · simp only [hcur, if_true, decide_true]
    refine ⟨?_, hwaited, ?_, hfirst _ fun _ => id⟩
    · rw [chargeProc]
      dsimp only
      rw [hinc _ (by omega), hran]
    · show (k.proc i).arrival + (h.ran + 1) + h.waited + h.rested = now + 1
      omega
  simp only [hcur, if_false, decide_false, Bool.false_eq_true]
  by_cases hrun : (k.proc i).state = .runnable
  · simp only [hrun, if_true]
    refine ⟨hran, ?_, ?_, hfirst _ fun _ => id⟩
    · dsimp only
      rw [hinc _ (by omega), hwaited]
    · dsimp only
      omega
  -- on one CPU nobody else is RUNNING
  have hrest : (k.proc i).resting := by
    have hnot : (k.proc i).state ≠ .running := fun hr => hcur (hsole i hr)
    unfold Proc.resting
    cases hst : (k.proc i).state <;> simp_all
  simp only [hrun, hrest, if_false, if_true]
  refine ⟨hran, hwaited, ?_, hfirst _ fun _ => id⟩
  dsimp only
  omega

end

/-! ## The books of all processes -/

section

variable {pol : Policy} {s s' s3 s1 s2 : Watched} {u u' : Uni} {i : Slot}
  {ls ls2 ls1 ls3 : List UniLabel} {l : Label} {k' : KernelState} {ok : UniLabel → Watched → Prop}
  {arrival : Nat}

lemma note_uni (s : Watched) (u : Uni) (l : UniLabel) : (s.note u l).uni = u := by
  cases l with
  | critical l => cases l <;> rfl
  | _ => rfl

lemma note_elapsed (s : Watched) (u : Uni) (l : Label) :
    (s.note u (.critical l)).elapsed = s.elapsed := by
  cases l <;> rfl

lemma note_history (hnew : l ≠ .allocproc i) (hdispatch : ∀ c, l ≠ .dispatch c i) :
    (s.note u (.critical l)).history i = s.history i := by
  cases l with
  | allocproc j =>
    have hij : i ≠ j := by
      rintro rfl
      exact hnew rfl
    exact update_of_ne hij _ _
  | dispatch c j =>
    have hij : i ≠ j := by
      rintro rfl
      exact hdispatch c rfl
    exact update_of_ne hij _ _
  | _ => rfl

/-- The clock is right, and so are the books of every process, before `ticks`
wraps around. -/
structure Recorded (s : Watched) : Prop where
  seated : Seated s.uni.kernel
  sole : Sole s.uni.kernel
  clock : s.uni.kernel.ticks = s.elapsed % 2 ^ 32
  books : s.elapsed < 2 ^ 32 → ∀ i, (s.proc i).state ≠ .unused →
    Balanced s.elapsed (s.proc i) (s.history i)

lemma Recorded.boot : Recorded (Watched.boot pol) := by
  constructor
  · exact Seated.boot
  · intro i hi
    change ((Kernel.boot pol).proc i).state = .running at hi
    rcases boot_proc pol i with ⟨-, hp⟩ | ⟨-, n, hp⟩
    all_goals
      rw [hp] at hi
      cases hi
  · exact enqueueIfOrdered_ticks initproc _
  intro _ i hi
  change ((Kernel.boot pol).proc i).state ≠ .unused at hi
  change Balanced _ ((Kernel.boot pol).proc i) _
  rcases boot_proc pol i with ⟨-, hp⟩ | ⟨-, n, hp⟩
  · rw [hp] at hi
    exact absurd rfl hi
  · rw [hp]
    exact Balanced.fresh rfl rfl rfl rfl

lemma Recorded.clockintr (h : Recorded s) :
    Recorded (s.note ⟨Kernel.clockintr pol s.uni.kernel, s.uni.current.isSome⟩ .clockintr) := by
  have hclock : (Kernel.clockintr pol s.uni.kernel).ticks = (s.elapsed + 1) % 2 ^ 32 := by
    rw [clockintr_ticks, h.clock, Nat.mod_add_mod]
  have hseated : Seated (Kernel.clockintr pol s.uni.kernel) := by
    have hcycle : ∃ ls, Run (Kernel.step pol) anyStep s.uni.kernel ls
        (Kernel.clockintr pol s.uni.kernel) := clockintr_run s.uni.kernel
    rcases hcycle with ⟨ls, hrun⟩
    exact hrun.invariant Seated h.seated (fun _ _ _ _ hs hk => hk.step (Move.of_step hs))
  refine ⟨hseated, h.sole.clockintr, hclock, ?_⟩
  intro hlt i hi
  have hlt' : s.elapsed + 1 < 2 ^ 32 := hlt
  have hsame := clockintr_sameStats pol s.uni.kernel i
  have hused : (s.proc i).state ≠ .unused := by
    intro hfree
    refine hi (hsame.used.mpr ?_)
    rw [chargeTick_state]
    exact hfree
  exact ((h.books (by omega) i hused).charge h.sole hused hlt').congr hsame

lemma Recorded.critical (h : Recorded s) (hm : Move pol s.uni.kernel l k') (hown : l.uni = true) :
    Recorded (s.note ⟨k', false⟩ (.critical l)) := by
  have hkernel : (s.note ⟨k', false⟩ (.critical l)).uni.kernel = k' := by rw [note_uni]
  constructor
  · rw [hkernel]
    exact h.seated.step hm
  · rw [hkernel]
    exact h.sole.step hm hown
  · rw [hkernel, note_elapsed, hm.ticks_eq (by rintro rfl; cases hown)]
    exact h.clock
  rw [note_elapsed]
  intro hlt i hi
  have hproc : (s.note ⟨k', false⟩ (.critical l)).proc i = k'.proc i := by
    rw [Watched.proc, hkernel]
  have hnow : s.uni.kernel.ticks = s.elapsed := by rw [h.clock, Nat.mod_eq_of_lt hlt]
  rw [hproc] at hi ⊢
  by_cases hnew : l = .allocproc i
  · subst hnew
    cases hm with
    | allocproc _ =>
      have hhist : (s.note ⟨Kernel.allocproc i s.uni.kernel, false⟩
          (.critical (.allocproc i))).history i = History.new := update_self ..
      rw [hhist]
      exact Balanced.fresh (by simp [Kernel.allocproc, hnow]) (by simp [Kernel.allocproc])
        (by simp [Kernel.allocproc]) (by simp [Kernel.allocproc])
  by_cases hdispatch : ∃ c, l = .dispatch c i
  · rcases hdispatch with ⟨c, rfl⟩
    cases hm with
    | dispatch _ hrun =>
      have hhist : (s.note ⟨switchTo c i s.uni.kernel, false⟩
          (.critical (.dispatch c i))).history i = (s.history i).dispatched (s.proc i) :=
        update_self ..
      have hused : (s.proc i).state ≠ .unused := by
        rw [Watched.proc, hrun]
        simp
      rw [hhist]
      exact (h.books hlt i hused).dispatch hnow c
  · have hnot : ∀ c, l ≠ .dispatch c i := fun c hl => hdispatch ⟨c, hl⟩
    rcases hm.stats h.seated hown hnew hnot with hfree | hsame
    · exact absurd hfree hi
    have hused : (s.proc i).state ≠ .unused := fun hfree => hi (hsame.used.mpr hfree)
    rw [note_history hnew hnot]
    exact (h.books hlt i hused).congr hsame

lemma Recorded.step {l : UniLabel} (h : Recorded s) (hm : UniMove pol s.uni l u') :
    Recorded (s.note u' l) := by
  cases hm with
  | clockintr _ => exact h.clockintr
  | @yield j hdue =>
    have hrun := h.seated.running hdue.2
    refine ⟨?_, ?_, ?_, ?_⟩
    · exact h.seated.vacate hdue.2 (yieldProc_cpu pol j _)
        (fun i hij => yieldProc_of_ne pol j _ hij)
    · refine h.sole.vacate hdue.2 (fun i hij => yieldProc_of_ne pol j _ hij) ?_
      simp [yieldProc]
    · exact (yieldProc_ticks j _).trans h.clock
    intro hlt i hi
    have hsame : SameStats (s.proc i) ((yieldProc pol j s.uni.kernel).proc i) :=
      yieldProc_sameStats hrun i
    have hused : (s.proc i).state ≠ .unused := fun hfree => hi (hsame.used.mpr hfree)
    exact (h.books hlt i hused).congr hsame
  | killedTrap _ _ => exact ⟨h.seated, h.sole, h.clock, h.books⟩
  | critical _ hown htaken => exact h.critical (Move.of_step htaken) hown

/-- In every reachable state the books are right. -/
lemma Recorded.of_run (h : Run (Watched.step pol) anyStep (Watched.boot pol) ls s) :
    Recorded s := by
  refine h.invariant Recorded Recorded.boot ?_
  intro l s s' _ hs hinv
  obtain ⟨u, hu, rfl⟩ := map_eq_some_iff.mp hs
  exact hinv.step (UniMove.of_step hu)

/-- The clock only goes forward. -/
lemma elapsed_le (h : Run (Watched.step pol) ok s ls s') : s.elapsed ≤ s'.elapsed := by
  refine h.invariant (fun t => s.elapsed ≤ t.elapsed) le_rfl ?_
  intro l t t' _ hs hle
  obtain ⟨u, -, rfl⟩ := map_eq_some_iff.mp hs
  cases l with
  | clockintr => exact hle.trans (Nat.le_succ _)
  | critical l => rw [note_elapsed]; exact hle
  | _ => exact hle

/-! ## A process that stays awake -/

lemma chargeTick_arrival (pol : Policy) (k : KernelState) (j : Slot) :
    ((chargeTick pol k).proc j).arrival = (k.proc j).arrival := by
  simp only [chargeTick]
  split
  · rfl
  split
  all_goals rfl

/-- The process is awake and the one that arrived then, and has been charged for
the ticks that the clock brought. -/
structure Goes (l : UniLabel) (p p' : Proc) : Prop where
  awake : p'.awake
  arrival : p'.arrival = p.arrival
  ticks : l ≠ .clockintr → p'.ticks = p.ticks

/-- A process that is awake goes on until it blocks. -/
lemma UniMove.goes {l : UniLabel} (hm : UniMove pol u l u') (hk : Seated u.kernel)
    (hi : (u.kernel.proc i).awake) (hleaves : l.leavesAwake i u) :
    Goes l (u.kernel.proc i) (u'.kernel.proc i) := by
  cases hm with
  | clockintr _ =>
    refine ⟨?_, ?_, fun hl => absurd rfl hl⟩
    · rw [Proc.awake, clockintr_awake pol hi]
      exact hi
    · exact (clockintr_sameStats pol u.kernel i).arrival.trans (chargeTick_arrival _ _ i)
  | @yield j hdue =>
    rw [vacate_proc]
    have hsame : SameStats (u.kernel.proc i) ((yieldProc pol j u.kernel).proc i) :=
      yieldProc_sameStats (hk.running hdue.2) i
    refine ⟨?_, hsame.arrival, fun _ => hsame.ticks⟩
    by_cases hij : i = j
    · subst hij
      right
      simp [yieldProc]
    · rw [yieldProc_of_ne pol j _ hij]
      exact hi
  | killedTrap _ _ => exact ⟨hi, rfl, fun _ => rfl⟩
  | @critical l k _ hown htaken =>
    have hmove := Move.of_step htaken
    by_cases hdispatch : ∃ c, l = .dispatch c i
    · rcases hdispatch with ⟨c, rfl⟩
      cases hmove with
      | dispatch _ _ =>
        rw [switchTo_self c i]
        exact ⟨.inl rfl, rfl, fun _ => rfl⟩
    have hnot : ∀ c, l ≠ .dispatch c i := fun c hl => hdispatch ⟨c, hl⟩
    have hstate : (k.proc i).state = (u.kernel.proc i).state := by
      refine hmove.awake hown ?_ hnot hi
      intro hblock hcur
      rw [hleaves hcur] at hblock
      cases hblock
    have hawake : (k.proc i).awake := by
      rw [Proc.awake, hstate]
      exact hi
    -- a slot in use is not allocated again
    have hnew : l ≠ .allocproc i := by
      rintro rfl
      cases hmove with
      | allocproc hfree => exact hi.ne_unused hfree
    rcases hmove.stats hk hown hnew hnot with hfree | hsame
    · exact absurd hfree hawake.ne_unused
    · exact ⟨hawake, hsame.arrival, fun _ => hsame.ticks⟩

/-- The process is awake, and it is the one that arrived then. -/
structure Attending (i : Slot) (arrival : Nat) (s : Watched) : Prop where
  recorded : Recorded s
  awake : (s.proc i).awake
  arrived : (s.proc i).arrival = arrival

lemma Attending.of_run (h : Attending i arrival s)
    (hrun : Run (Watched.step pol) (fun l s => l.leavesAwake i s.uni) s ls s') :
    Attending i arrival s' := by
  refine hrun.invariant (Attending i arrival) h ?_
  intro l t t' hleaves hs ht
  obtain ⟨u, hu, rfl⟩ := map_eq_some_iff.mp hs
  have hm := UniMove.of_step hu
  have hgoes := hm.goes ht.recorded.seated ht.awake hleaves
  have hproc : (t.note u l).proc i = u.kernel.proc i := by rw [Watched.proc, note_uni]
  refine ⟨ht.recorded.step hm, ?_, ?_⟩
  · rw [hproc]
    exact hgoes.awake
  · rw [hproc]
    exact hgoes.arrival.trans ht.arrived

/-! ## What `print_metrics` prints -/

/-- `struct schedstats`. -/
structure SchedStats where
  arrival : Nat
  firstRun : Nat
  ticks : Nat
  waiting : Nat
  queue : Int
deriving DecidableEq, Repr

/-- `getschedstats`. It takes no lock and can be interrupted between any two of its
reads: each argument is the process when the field of its name is read. -/
def getschedstats (pol : Policy) (arrival firstRun ticks waiting queue : Proc) : SchedStats where
  arrival := arrival.arrival
  firstRun := firstRun.firstRun
  ticks := ticks.ticks
  waiting := waiting.waiting
  queue := if pol = .mlfq then queue.queue else -1

/-- The values that `print_metrics` prints after the pid. -/
structure Metrics where
  arrival : Int
  first : Int
  finish : Int
  turnaround : Int
  waiting : Int
  response : Int
  cpu : Int
deriving DecidableEq, Repr

/-- `print_metrics`: `uptime` is what `uptime()` returned, and `stats` what the
`schedstats` that follows it has written. -/
def printMetrics (uptime : Nat) (stats : SchedStats) : Metrics where
  arrival := toInt stats.arrival
  first := toInt stats.firstRun
  finish := toInt uptime
  turnaround := toInt (toInt uptime - stats.arrival)
  waiting := toInt stats.waiting
  response := toInt (stats.firstRun - stats.arrival)
  cpu := toInt stats.ticks

/-- Below `2 ^ 31` nothing is lost in the `int`s that are printed. -/
lemma printMetrics_of_lt {uptime : Nat} (st : SchedStats) (huptime : uptime < 2 ^ 31)
    (harrival : st.arrival ≤ uptime) (hticks : st.ticks < 2 ^ 31) (hwaiting : st.waiting < 2 ^ 31) :
    (printMetrics uptime st).cpu = st.ticks ∧ (printMetrics uptime st).waiting = st.waiting ∧
      (printMetrics uptime st).turnaround = ((uptime - st.arrival : Nat) : Int) := by
  simp only [printMetrics]
  rw [toInt_of_lt huptime, ← Nat.cast_sub harrival]
  exact ⟨toInt_of_lt hticks, toInt_of_lt hwaiting, toInt_of_lt (by omega)⟩

/-- The turnaround printed covers `cpu` and `waiting`. -/
def Metrics.covered (m : Metrics) : Prop := m.cpu + m.waiting ≤ m.turnaround

/-- A process that stays awake calls `uptime` in `s`, and `getschedstats` reads its
arrival in `s1`, its ticks in `s2` and its waiting time in `s3`. -/
lemma covered_iff (hrec : Recorded s) (hawake : (s.proc i).awake)
    (h1 : Run (Watched.step pol) (fun l s => l.leavesAwake i s.uni) s ls1 s1)
    (h2 : Run (Watched.step pol) (fun l s => l.leavesAwake i s.uni) s1 ls2 s2)
    (h3 : Run (Watched.step pol) (fun l s => l.leavesAwake i s.uni) s2 ls3 s3)
    (helapsed : s3.elapsed < 2 ^ 31) (firstRun queue : Proc) :
    (printMetrics s.uni.kernel.ticks
        (getschedstats pol (s1.proc i) firstRun (s2.proc i) (s3.proc i) queue)).covered ↔
      s3.elapsed + (s2.history i).ran ≤
        s.elapsed + (s3.history i).rested + (s3.history i).ran := by
  have hatt : Attending i (s.proc i).arrival s := ⟨hrec, hawake, rfl⟩
  have hatt1 := hatt.of_run h1
  have hatt2 := hatt1.of_run h2
  have hatt3 := hatt2.of_run h3
  have hle1 := elapsed_le h1
  have hle2 := elapsed_le h2
  have hle3 := elapsed_le h3
  have hbook := hrec.books (by omega) i hawake.ne_unused
  have hbook2 := hatt2.recorded.books (by omega) i hatt2.awake.ne_unused
  have hbook3 := hatt3.recorded.books (by omega) i hatt3.awake.ne_unused
  have hnow : s.uni.kernel.ticks = s.elapsed := by
    rw [hrec.clock, Nat.mod_eq_of_lt (by omega)]
  have htotal := hbook.total
  have htotal2 := hbook2.total
  have htotal3 := hbook3.total
  rw [hatt2.arrived] at htotal2
  rw [hatt3.arrived] at htotal3
  have harrived := hatt1.arrived
  have hran := hbook2.ran
  have hwaited := hbook3.waited
  have huptime : s.elapsed < 2 ^ 31 := by omega
  have harrival : (s1.proc i).arrival ≤ s.elapsed := by omega
  have hticks : (s2.proc i).ticks < 2 ^ 31 := by omega
  have hwait : (s3.proc i).waiting < 2 ^ 31 := by omega
  obtain ⟨hcpu, hwaiting, hturn⟩ := printMetrics_of_lt
    (getschedstats pol (s1.proc i) firstRun (s2.proc i) (s3.proc i) queue) huptime harrival
    hticks hwait
  rw [hnow, Metrics.covered, hcpu, hwaiting, hturn]
  clear hcpu hwaiting hturn
  simp only [getschedstats]
  omega

/-- **The statistics account for every tick.** On one CPU, under each of the
schedulers and before `ticks` wraps around, for every slot in use: `ticks` has
grown by the clock ticks at which the process was running, `waiting` by those at
which it was RUNNABLE, and with those at which it was USED, SLEEPING or ZOMBIE
they make up the time since its arrival; if it has been dispatched, its first
run lies between its arrival and now, and it had waited no longer then than
since its arrival. If it is the running process and calls `print_metrics`, with
`uptime` now, the turnaround printed is at least the sum of `cpu` and `waiting`
exactly if, of the ticks up to the read of `waiting`, no more were not charged to
it after the read of `ticks` than it has been USED or SLEEPING. -/
theorem statistics_conserved {ls : List UniLabel}
    (hrun : Run (Watched.step pol) anyStep (Watched.boot pol) ls s)
    (helapsed : s.elapsed < 2 ^ 32) (hused : (s.proc i).state ≠ .unused) :
    (s.proc i).ticks = (s.history i).ran ∧ (s.proc i).waiting = (s.history i).waited ∧
    (s.proc i).arrival ≤ s.uni.kernel.ticks ∧
    (s.proc i).ticks + (s.proc i).waiting + (s.history i).rested =
      s.uni.kernel.ticks - (s.proc i).arrival ∧
    ((s.proc i).started = true → (s.proc i).arrival ≤ (s.proc i).firstRun ∧
      (s.proc i).firstRun ≤ s.uni.kernel.ticks ∧
      ∃ w, (s.history i).firstWait = some w ∧ w ≤ (s.proc i).firstRun - (s.proc i).arrival) ∧
    ∀ ls1 ls2 ls3 s1 s2 s3, s.uni.current = some i →
      Run (Watched.step pol) (fun l s => l.leavesAwake i s.uni) s ls1 s1 →
      Run (Watched.step pol) (fun l s => l.leavesAwake i s.uni) s1 ls2 s2 →
      Run (Watched.step pol) (fun l s => l.leavesAwake i s.uni) s2 ls3 s3 →
      s3.elapsed < 2 ^ 31 → ∀ firstRun queue,
      ((printMetrics s.uni.kernel.ticks
          (getschedstats pol (s1.proc i) firstRun (s2.proc i) (s3.proc i) queue)).covered ↔
        s3.elapsed + (s2.history i).ran ≤
          s.elapsed + (s3.history i).rested + (s3.history i).ran) := by
  have hrec := Recorded.of_run hrun
  have hbook := hrec.books helapsed i hused
  have hnow : s.uni.kernel.ticks = s.elapsed := by rw [hrec.clock, Nat.mod_eq_of_lt helapsed]
  have htotal := hbook.total
  refine ⟨hbook.ran, hbook.waited, by omega, ?_, ?_, ?_⟩
  · rw [hnow, hbook.ran, hbook.waited]
    omega
  · intro hstarted
    rw [hnow]
    obtain ⟨h1, h2, w, hw, h3⟩ := hbook.first hstarted
    exact ⟨h1, h2, w, hw, by omega⟩
  · intro ls1 ls2 ls3 s1 s2 s3 hcur h1 h2 h3 helapsed' firstRun queue
    exact covered_iff hrec (.inl (hrec.seated.running hcur)) h1 h2 h3 helapsed' firstRun queue

/-- A forked process that was USED for one tick before it became RUNNABLE: one
more tick between `uptime` and `schedstats` is made up for. -/
theorem statistics_conserved_forked :
    ∃ ls s, Run (Watched.step .rr) anyStep (Watched.boot .rr) ls s ∧
      s.uni.current = some 1 ∧ (s.proc 1).waiting = (s.history 1).waited ∧
      ∃ s', Run (Watched.step .rr) (fun l s => l.leavesAwake 1 s.uni) s
          [.clockintr, .yield, .critical (.dispatch 0 1)] s' ∧
        (printMetrics s.uni.kernel.ticks (getschedstats .rr (s'.proc 1) (s'.proc 1)
          (s'.proc 1) (s'.proc 1) (s'.proc 1))).covered := by
  refine ⟨[.critical (.dispatch 0 0), .critical (.allocproc 1), .clockintr, .yield,
    .critical (.dispatch 0 0), .critical (.setParent 0 1), .critical (.ready 1),
    .critical (.sleepPrepare 0 8), .critical (.sleep 0), .critical (.dispatch 0 1)],
    Run.exists_imp (P := fun s => s.elapsed < 2 ^ 32 ∧ (s.proc 1).state ≠ .unused ∧
      s.uni.current = some 1 ∧ ∃ s', Run (Watched.step .rr) (fun l s => l.leavesAwake 1 s.uni) s
          [.clockintr, .yield, .critical (.dispatch 0 1)] s' ∧ s'.elapsed < 2 ^ 31 ∧
        s'.elapsed + (s'.history 1).ran ≤
          s.elapsed + (s'.history 1).rested + (s'.history 1).ran) (by decide +kernel) ?_⟩
  rintro s hrun ⟨helapsed, hused, hcur, s', hrun', helapsed', hrested⟩
  obtain ⟨-, hwaiting, -, -, -, hprint⟩ := statistics_conserved hrun helapsed hused
  exact ⟨hcur, hwaiting, s', hrun',
    (hprint _ _ _ s' s' s' hcur hrun' .nil .nil helapsed' _ _).mpr hrested⟩

/-- The clock ticks between the `uptime` and the `schedstats` of a process that
has run since it was forked: it is charged the tick, which its turnaround does
not include. -/
theorem printMetrics_misses_tick :
    ∃ ls s, Run (Watched.step .rr) anyStep (Watched.boot .rr) ls s ∧ s.uni.current = some 1 ∧
      ∃ s', Run (Watched.step .rr) (fun l s => l.leavesAwake 1 s.uni) s
          [.clockintr, .yield, .critical (.dispatch 0 1)] s' ∧ s'.uni.current = some 1 ∧
        printMetrics s.uni.kernel.ticks (getschedstats .rr (s'.proc 1) (s'.proc 1)
            (s'.proc 1) (s'.proc 1) (s'.proc 1)) =
          { arrival := 0, first := 0, finish := 0, turnaround := 0, waiting := 0,
            response := 0, cpu := 1 } := by
  refine ⟨[.critical (.dispatch 0 0), .critical (.allocproc 1), .critical (.setParent 0 1),
    .critical (.ready 1), .critical (.sleepPrepare 0 8), .critical (.sleep 0),
    .critical (.dispatch 0 1)], ?_⟩
  decide +kernel

end

end CshellXv6.Kernel
