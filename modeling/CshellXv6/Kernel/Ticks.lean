import CshellXv6.Kernel.Accounting
import CshellXv6.Kernel.Statistics

/-! # The clock interrupt among other CPUs

On several CPUs the clock interrupt of CPU 0 is not one step: `mlfq_boost` and `wakeup`
take the locks of the processes one after the other, and the other CPUs go on in
between. What CPU 0 does itself comes in order: it counts the tick and charges it, boosts
if that is due, wakes up who sleeps on `&ticks`, and ends with the `yield` of the process
it has interrupted.

`ticked` and `boosted` are not variables of the kernel: they count the ticks, of which
`ticks` has the last 32 bits, and say at which of them a boost has been carried out.
-/

namespace CshellXv6.Kernel

open Lib List Option

/-- Where CPU 0 is in its clock interrupt; `p` is the process it has interrupted. -/
inductive Phase where
  | idle
  /-- `mlfq_boost` comes to the slot `i`. -/
  | boosting (p : Option Slot) (i : Slot)
  /-- `wakeup(&ticks)` comes to the slot `i`. -/
  | waking (p : Option Slot) (boosted : Bool) (i : Slot)
  /-- `clockintr` has returned. -/
  | leaving (p : Option Slot) (boosted : Bool)
deriving DecidableEq, Repr

def Phase.isBoosting : Phase → Bool
  | .boosting _ _ => true
  | _ => false

/-- The kernel on many CPUs. -/
structure Smp where
  kernel : KernelState
  phase : Phase
  ticked : Nat
  boosted : List Nat

inductive SmpLabel where
  | tick
  | boost
  | wakeup
  | yield
  | leave
  | critical (l : Label)
deriving DecidableEq, Repr

/-- `p++`, while `p < &proc[NPROC]`. -/
def nextSlot (i : Slot) : Option Slot := if h : i.val + 1 < 64 then some ⟨i.val + 1, h⟩ else none

/-- The CPU that runs the critical section, where that is known. -/
def Label.cpu : Label → Option CpuId
  | .dispatch c _ => some c
  | .yield c => some c
  | .sleepPrepare c _ => some c
  | .sleep c => some c
  | .setkilled c => some c
  | .setParent c _ => some c
  | .reparent c _ => some c
  | .exit c _ => some c
  | .collect c _ => some c
  | _ => none

/-- The critical section is a part of the clock interrupt of CPU 0. -/
def Label.ofClock : Label → Bool
  | .charge => true
  | .boost _ => true
  | .yield c => c = cpu0
  | _ => false

/-- The critical section does not belong to the clock interrupt. During the interrupt
only other CPUs have such. -/
def Label.interleaves (l : Label) (phase : Phase) : Prop :=
  l.ofClock = false ∧ (phase ≠ .idle → l.cpu ≠ some cpu0)

instance (l : Label) (phase : Phase) : Decidable (l.interleaves phase) :=
  inferInstanceAs (Decidable (_ ∧ _))

namespace Smp

/-- `clockintr`, up to `if (ticks % 48 == 0)`. -/
def tick (s : Smp) : Smp :=
  let k := chargeTick .mlfq s.kernel
  let p := s.kernel.cpu cpu0
  { s with
    kernel := k
    phase := if boostDue .mlfq k then .boosting p 0 else .waking p false 0
    ticked := s.ticked + 1 }

/-- A round of the loop of `mlfq_boost`. -/
def boost (p : Option Slot) (i : Slot) (s : Smp) : Smp :=
  let k := boostSlot i s.kernel
  match nextSlot i with
  | some j => { s with kernel := k, phase := .boosting p j }
  | none => { s with kernel := k, phase := .waking p true 0, boosted := s.boosted ++ [s.ticked] }

/-- A round of the loop of `wakeup`. -/
def wakeup (p : Option Slot) (boosted : Bool) (i : Slot) (s : Smp) : Smp :=
  let k := wakeupSlot .mlfq ticksChan i s.kernel
  match nextSlot i with
  | some j => { s with kernel := k, phase := .waking p boosted j }
  | none => { s with kernel := k, phase := .leaving p boosted }

def step : SmpLabel → Smp → Option Smp
  | .tick, s => if s.phase = .idle then some s.tick else none
  | .boost, s =>
    match s.phase with
    | .boosting p i => some (s.boost p i)
    | _ => none
  | .wakeup, s =>
    match s.phase with
    | .waking p boosted i => some (s.wakeup p boosted i)
    | _ => none
  | .yield, s =>
    match s.phase with
    | .leaving _ _ => (Kernel.step .mlfq (.yield cpu0) s.kernel).map fun k =>
      { s with kernel := k, phase := .idle }
    | _ => none
  | .leave, s =>
    match s.phase with
    | .leaving p _ =>
      -- nobody was running, or `usertrap` finds the process killed and calls `kexit`
      if p.all fun i => (s.kernel.proc i).killed then some { s with phase := .idle } else none
    | _ => none
  | .critical l, s =>
    if l.interleaves s.phase then
      (Kernel.step .mlfq l s.kernel).map fun k => { s with kernel := k }
    else none

/-- The kernel when the schedulers start. -/
def boot : Smp := ⟨Kernel.boot .mlfq, .idle, 0, []⟩

end Smp

/-- What a step does and when it is possible, by its label. -/
inductive SmpMove (s : Smp) : SmpLabel → Smp → Prop where
  | tick (idle : s.phase = .idle) : SmpMove s .tick s.tick
  | boost {p : Option Slot} {i : Slot} (at_ : s.phase = .boosting p i) :
      SmpMove s .boost (s.boost p i)
  | wakeup {p : Option Slot} {boosted : Bool} {i : Slot} (at_ : s.phase = .waking p boosted i) :
      SmpMove s .wakeup (s.wakeup p boosted i)
  | yield {p : Option Slot} {boosted : Bool} {i : Slot} (at_ : s.phase = .leaving p boosted)
      (on : s.kernel.cpu cpu0 = some i) :
      SmpMove s .yield
        { s with kernel := (yieldProc .mlfq i s.kernel).vacate cpu0, phase := .idle }
  | leave {p : Option Slot} {boosted : Bool} (at_ : s.phase = .leaving p boosted) :
      SmpMove s .leave { s with phase := .idle }
  | critical {l : Label} {k : KernelState} (other : l.interleaves s.phase)
      (taken : Kernel.step .mlfq l s.kernel = some k) :
      SmpMove s (.critical l) { s with kernel := k }

section

variable {s s' : Smp} {k k' : KernelState} {l : Label} {i j : Slot} {n : Nat} {p' : Proc}
  {p : Option Slot} {boosted : Bool}

lemma SmpMove.of_step {l : SmpLabel} (h : Smp.step l s = some s') : SmpMove s l s' := by
  cases l with
  | tick =>
    obtain ⟨hidle, rfl⟩ := of_guard h
    exact .tick hidle
  | boost =>
    rw [Smp.step] at h
    split at h
    next hat =>
      cases h
      exact .boost hat
    · cases h
  | wakeup =>
    rw [Smp.step] at h
    split at h
    next hat =>
      cases h
      exact .wakeup hat
    · cases h
  | yield =>
    rw [Smp.step] at h
    split at h
    next hat =>
      obtain ⟨k, hk, rfl⟩ := map_eq_some_iff.mp h
      obtain ⟨i, hi, rfl⟩ := map_eq_some_iff.mp hk
      exact .yield hat hi
    · cases h
  | leave =>
    rw [Smp.step] at h
    split at h
    next hat =>
      obtain ⟨-, rfl⟩ := of_guard h
      exact .leave hat
    · cases h
  | critical l =>
    obtain ⟨hother, hmap⟩ := ite_none_right_eq_some.mp h
    obtain ⟨k, hk, rfl⟩ := map_eq_some_iff.mp hmap
    exact .critical hother hk

/-- Every step is at most one critical section. -/
lemma SmpMove.run {l : SmpLabel} (h : SmpMove s l s') :
    ∃ ls, Run (Kernel.step .mlfq) anyStep s.kernel ls s'.kernel := by
  have hone : ∀ {l k}, Kernel.step .mlfq l s.kernel = some k →
      Run (Kernel.step .mlfq) anyStep s.kernel [l] k := fun hk => .snoc .nil trivial hk
  cases h with
  | tick _ => exact ⟨_, hone (l := .charge) rfl⟩
  | @boost p i _ =>
    refine ⟨_, hone (l := .boost i) ?_⟩
    unfold Smp.boost
    split
    all_goals rfl
  | @wakeup p boosted i _ =>
    refine ⟨_, hone (l := .wakeup ticksChan i) ?_⟩
    unfold Smp.wakeup
    split
    all_goals rfl
  | yield _ hon => exact ⟨_, hone (l := .yield cpu0) (by simp [Kernel.step, hon])⟩
  | leave _ => exact ⟨_, .nil⟩
  | critical _ htaken => exact ⟨_, hone htaken⟩

/-! ## What the other CPUs leave alone -/

/-- A process at the beginning of the first queue stays there when it yields. -/
lemma expire_atTop {p : Proc} (hq : p.queue = 0) (hs : p.sliceTicks = 0) : expire p = p := by
  apply expire_of_lt
  rw [hq, hs]
  decide

lemma Proc.atTop.of_carried {p : Proc} (h : p.atTop) (hc : Carried p p') : p'.atTop := by
  intro hl
  have hlive := hc.live hl
  rw [hc.queue hlive, hc.slice hlive]
  exact h hlive

lemma yieldProc_atTop (hj : (k.proc j).atTop) (hi : (k.proc i).state = .running) :
    ((yieldProc .mlfq i k).proc j).atTop := by
  by_cases hji : j = i
  · subst hji
    have htop := hj (by simp [Proc.live, hi])
    intro _
    rw [yieldProc_mlfq_self, expire_atTop htop.1 htop.2]
    exact htop
  · rw [yieldProc_of_ne .mlfq i k hji]
    exact hj

/-- No CPU but CPU 0 takes a process out of the first queue. -/
lemma Move.atTop (hm : Move .mlfq k l k') (hk : Seated k) (hl : l.ofClock = false)
    (hj : (k.proc j).atTop) : (k'.proc j).atTop := by
  by_cases hnew : l = .allocproc j
  · subst hnew
    cases hm with
    | allocproc _ =>
      intro _
      simp [Kernel.allocproc]
  by_cases hyield : ∃ c, l = .yield c
  · obtain ⟨c, rfl⟩ := hyield
    cases hm with
    | yield hon => exact yieldProc_atTop hj (hk.running hon)
  refine hj.of_carried (hm.carried hk ?_ j hnew)
  cases l with
  | charge | boost i => cases hl
  | yield c => exact absurd ⟨c, rfl⟩ hyield
  | _ => rfl

lemma Move.cpu0_eq (hm : Move .mlfq k l k') (hl : l.cpu ≠ some cpu0) :
    k'.cpu cpu0 = k.cpu cpu0 := by
  cases hm with
  | @dispatch c i _ _ =>
    have hc : cpu0 ≠ c := fun h => hl (congrArg some h.symm)
    simp [switchTo, hc]
  | @boost i _ => rw [boostSlot_cpu]
  | @wakeup chan i => rw [wakeupSlot_cpu]
  | @yield c i _ =>
    have hc : cpu0 ≠ c := fun h => hl (congrArg some h.symm)
    rw [vacate_cpu_of_ne _ hc, yieldProc_cpu]
  | @sleep c _ _ _ | @exit c _ _ _ _ =>
    have hc : cpu0 ≠ c := fun h => hl (congrArg some h.symm)
    exact vacate_cpu_of_ne _ hc
  | ready _ => simp [makeRunnable]
  | _ => rfl

/-! ## The invariant -/

/-- What has been done so far of the interrupt: the boost has taken the processes it
has visited to the beginning of the first queue, and nobody has taken them away. -/
def Phase.holds (k : KernelState) : Phase → Prop
  | .idle => True
  | .boosting p i => k.cpu cpu0 = p ∧ ∀ j < i, (k.proc j).atTop
  | .waking p boosted _ => k.cpu cpu0 = p ∧ (boosted = true → ∀ j, (k.proc j).atTop)
  | .leaving p boosted => k.cpu cpu0 = p ∧ (boosted = true → ∀ j, (k.proc j).atTop)

/-- The tick with this number is one at which the kernel boosts. -/
def boostTick (m : Nat) : Prop := m % 2 ^ 32 % 48 = 0

structure Clocked (s : Smp) : Prop where
  ticks : s.kernel.ticks = s.ticked % 2 ^ 32
  done : ∀ m, 0 < m → m ≤ s.ticked → boostTick m →
    m ∈ s.boosted ∨ m = s.ticked ∧ s.phase.isBoosting = true
  phase : s.phase.holds s.kernel

/-- What a step of the kernel keeps of the state of the interrupt. -/
lemma Phase.holds.mono {phase : Phase} (h : phase.holds k) (hcpu : k'.cpu cpu0 = k.cpu cpu0)
    (htop : ∀ j, (k.proc j).atTop → (k'.proc j).atTop) : phase.holds k' := by
  cases phase with
  | idle => trivial
  | boosting p i => exact ⟨hcpu.trans h.1, fun j hj => htop j (h.2 j hj)⟩
  | waking p boosted i | leaving p boosted => exact ⟨hcpu.trans h.1, fun hb j => htop j (h.2 hb j)⟩

lemma boostSlot_atTop (hj : j ≠ i → (k.proc j).atTop) : ((boostSlot i k).proc j).atTop := by
  by_cases hji : j = i
  · subst hji
    intro hl
    obtain ⟨n, hn⟩ := boostSlot_self_of_live j k ((boostSlot_persists j j k).live.mp hl)
    rw [hn]
    exact ⟨rfl, rfl⟩
  · rw [boostSlot_of_ne i k hji]
    exact hj hji

lemma lt_of_nextSlot (h : nextSlot i = some j) (a : Slot) : a < j ↔ a < i ∨ a = i := by
  unfold nextSlot at h
  split at h
  · cases h
    rw [Fin.lt_def, Fin.lt_def, Fin.ext_iff]
    dsimp only
    omega
  · cases h

lemma le_of_nextSlot_none (h : nextSlot i = none) (a : Slot) : a < i ∨ a = i := by
  unfold nextSlot at h
  split at h
  · cases h
  rw [Fin.lt_def, Fin.ext_iff]
  have := a.isLt
  omega

lemma Clocked.tick (h : Clocked s) (hidle : s.phase = .idle) : Clocked s.tick := by
  have hticks : (chargeTick .mlfq s.kernel).ticks = (s.ticked + 1) % 2 ^ 32 := by
    show (s.kernel.ticks + 1) % 2 ^ 32 = _
    rw [h.ticks, Nat.mod_add_mod]
  constructor
  · exact hticks
  · intro m hpos hle hm
    have hle' : m ≤ s.ticked + 1 := hle
    by_cases hlast : m = s.ticked + 1
    · -- the boost of this tick begins
      have hdue : boostDue .mlfq (chargeTick .mlfq s.kernel) := by
        refine ⟨rfl, ?_⟩
        rw [hticks, ← hlast]
        exact hm
      refine .inr ⟨hlast, ?_⟩
      simp only [Smp.tick, if_pos hdue, Phase.isBoosting]
    · rcases h.done m hpos (by omega) hm with hdone | ⟨-, hboosting⟩
      · exact .inl hdone
      · rw [hidle] at hboosting
        cases hboosting
  · simp only [Smp.tick]
    split
    · exact ⟨rfl, fun j hj => absurd hj (Fin.not_lt_zero j)⟩
    · exact ⟨rfl, fun hb => by cases hb⟩

lemma Clocked.boost (h : Clocked s) (hat : s.phase = .boosting p i) : Clocked (s.boost p i) := by
  have hphase := h.phase
  rw [hat] at hphase
  have hticks : (boostSlot i s.kernel).ticks = s.ticked % 2 ^ 32 :=
    (boostSlot_ticks i s.kernel).trans h.ticks
  have hcpu : (boostSlot i s.kernel).cpu cpu0 = p := by
    rw [boostSlot_cpu]
    exact hphase.1
  -- the slots visited are those below `i`, and `i`
  have hvisited : ∀ a, a < i ∨ a = i → ((boostSlot i s.kernel).proc a).atTop := by
    intro a ha
    refine boostSlot_atTop fun hne => ?_
    rcases ha with hlt | heq
    · exact hphase.2 a hlt
    · exact absurd heq hne
  unfold Smp.boost
  cases hnext : nextSlot i with
  | some j =>
    constructor
    · exact hticks
    · intro m hpos hle hm
      exact (h.done m hpos hle hm).imp_right fun hlast => ⟨hlast.1, rfl⟩
    · exact ⟨hcpu, fun a ha => hvisited a ((lt_of_nextSlot hnext a).mp ha)⟩
  | none =>
    constructor
    · exact hticks
    · intro m hpos hle hm
      left
      rcases h.done m hpos hle hm with hdone | ⟨rfl, -⟩
      · exact mem_append_left _ hdone
      · exact mem_append_right _ mem_cons_self
    · exact ⟨hcpu, fun _ a => hvisited a (le_of_nextSlot_none hnext a)⟩

/-- A step that changes neither the counts nor the processes at the top. -/
lemma Clocked.other {phase : Phase} (h : Clocked s) (hticks : k.ticks = s.kernel.ticks)
    (hboost : s.phase.isBoosting = true → phase = s.phase) (hholds : phase.holds k) :
    Clocked { s with kernel := k, phase := phase } := by
  constructor
  · exact hticks.trans h.ticks
  · intro m hpos hle hm
    refine (h.done m hpos hle hm).imp_right fun hlast => ⟨hlast.1, ?_⟩
    show phase.isBoosting = true
    rw [hboost hlast.2]
    exact hlast.2
  · exact hholds

lemma Clocked.wakeup (h : Clocked s) (hk : Seated s.kernel)
    (hat : s.phase = .waking p boosted i) : Clocked (s.wakeup p boosted i) := by
  have hphase := h.phase
  rw [hat] at hphase
  have hm : Move .mlfq s.kernel (.wakeup ticksChan i) (wakeupSlot .mlfq ticksChan i s.kernel) :=
    .wakeup
  have hboost : ∀ phase, s.phase.isBoosting = true → phase = s.phase := by
    intro phase hb
    rw [hat] at hb
    cases hb
  have hticks := hm.ticks_eq (by simp)
  have hcpu := (hm.cpu0_eq (by simp [Label.cpu])).trans hphase.1
  have htop : boosted = true → ∀ j, ((wakeupSlot .mlfq ticksChan i s.kernel).proc j).atTop :=
    fun hb j => hm.atTop hk rfl (hphase.2 hb j)
  unfold Smp.wakeup
  cases hnext : nextSlot i with
  | some j | none => exact h.other hticks (hboost _) ⟨hcpu, htop⟩

lemma Clocked.step {l : SmpLabel} (h : Clocked s) (hk : Seated s.kernel)
    (hm : SmpMove s l s') : Clocked s' := by
  cases hm with
  | tick hidle => exact h.tick hidle
  | boost hat => exact h.boost hat
  | wakeup hat => exact h.wakeup hk hat
  | yield hat hon =>
    have hmove : Move .mlfq s.kernel (.yield cpu0) _ := .yield hon
    refine h.other (hmove.ticks_eq (by simp)) ?_ trivial
    intro hb
    rw [hat] at hb
    cases hb
  | leave hat =>
    refine h.other rfl ?_ trivial
    intro hb
    rw [hat] at hb
    cases hb
  | @critical l k hother htaken =>
    have hmove := Move.of_step htaken
    have hclock : l ≠ .charge := by
      rintro rfl
      cases hother.1
    suffices hholds : s.phase.holds k from
      h.other (hmove.ticks_eq hclock) (fun _ => rfl) hholds
    by_cases hidle : s.phase = .idle
    · rw [hidle]
      trivial
    · exact h.phase.mono (hmove.cpu0_eq (hother.2 hidle)) fun j => hmove.atTop hk hother.1

lemma Clocked.boot : Clocked Smp.boot := by
  constructor
  · rfl
  · intro m hpos hle
    have hle' : m ≤ 0 := hle
    omega
  · trivial

lemma Seated.smpStep {l : SmpLabel} (h : Seated s.kernel) (hm : SmpMove s l s') :
    Seated s'.kernel := by
  obtain ⟨ls, hrun⟩ := hm.run
  exact hrun.invariant Seated h fun _ _ _ _ hs hk => hk.step (Move.of_step hs)

lemma Clocked.of_run {ls : List SmpLabel} (h : Run Smp.step anyStep Smp.boot ls s) :
    Seated s.kernel ∧ Clocked s := by
  refine h.invariant (fun s => Seated s.kernel ∧ Clocked s) ⟨Seated.boot, Clocked.boot⟩ ?_
  intro l s s' _ hs hinv
  have hm := SmpMove.of_step hs
  exact ⟨hinv.1.smpStep hm, hinv.2.step hinv.1 hm⟩

/-! ## Every 48 ticks -/

/-- Among any 48 ticks in a row is one at which the kernel boosts. Where `ticks` wraps
around, the next one comes early, since 48 does not divide `2 ^ 32`. -/
lemma exists_boostTick (n : Nat) : ∃ m, n < m ∧ m ≤ n + 48 ∧ boostTick m := by
  have hadd : ∀ x, n % 2 ^ 32 + x < 2 ^ 32 → (n + x) % 2 ^ 32 = n % 2 ^ 32 + x := by
    intro x hx
    rw [← Nat.mod_add_mod, Nat.mod_eq_of_lt hx]
  unfold boostTick
  by_cases hwrap : n % 2 ^ 32 + 48 < 2 ^ 32
  · refine ⟨n + (48 - n % 2 ^ 32 % 48), ?_, ?_, ?_⟩
    · omega
    · omega
    · rw [hadd _ (by omega)]
      omega
  · refine ⟨n + (2 ^ 32 - n % 2 ^ 32), ?_, ?_, ?_⟩
    all_goals omega

/-- **A boost comes at least every 48 ticks.** In every run of the MLFQ kernel, however
many ticks it has, each 48 ticks in a row have a boost among them (the one of the last tick
may still be going on). After the last critical section of a boost every live process
is at the beginning of the first queue, in whatever state it is and whatever the other
CPUs have done in between; and the `yield` that ends the interrupt of a boost leaves the
process that was interrupted there. -/
theorem boost_within_48_ticks {ls : List SmpLabel} (hrun : Run Smp.step anyStep Smp.boot ls s) :
    (∀ n, n + 48 ≤ s.ticked → (∃ m ∈ s.boosted, n < m ∧ m ≤ n + 48) ∨
      s.ticked = n + 48 ∧ s.phase.isBoosting = true) ∧
    (∀ s', Smp.step .boost s = some s' → s'.phase.isBoosting = false → ∀ i,
      (s'.kernel.proc i).live → (s'.kernel.proc i).queue = 0 ∧ (s'.kernel.proc i).sliceTicks = 0) ∧
    (∀ i s', s.phase = .leaving (some i) true → Smp.step .yield s = some s' →
      s.kernel.cpu cpu0 = some i ∧
        (s'.kernel.proc i).queue = 0 ∧ (s'.kernel.proc i).sliceTicks = 0) := by
  obtain ⟨hseated, h⟩ := Clocked.of_run hrun
  refine ⟨?_, ?_, ?_⟩
  · intro n hn
    obtain ⟨m, hlt, hle, hm⟩ := exists_boostTick n
    rcases h.done m (by omega) (by omega) hm with hdone | ⟨hlast, hboosting⟩
    · exact .inl ⟨m, hdone, hlt, hle⟩
    · exact .inr ⟨by omega, hboosting⟩
  · intro s' hs hover i
    cases SmpMove.of_step hs with
    | @boost p j hat =>
      have hphase := (h.boost hat).phase
      unfold Smp.boost at hover hphase ⊢
      cases hnext : nextSlot j with
      | some a =>
        rw [hnext] at hover
        cases hover
      | none =>
        rw [hnext] at hphase
        exact hphase.2 rfl i
  intro i s' hat hs
  have hphase := h.phase
  rw [hat] at hphase
  refine ⟨hphase.1, ?_⟩
  cases SmpMove.of_step hs with
  | @yield p boosted j _ hon =>
    have hrunning := hseated.running hon
    obtain rfl : j = i := Option.some.inj (hon.symm.trans hphase.1)
    have hlive : ((yieldProc .mlfq j s.kernel).proc j).live := by
      rw [yieldProc_mlfq_self]
      simp [Proc.live]
    exact yieldProc_atTop (hphase.2 rfl j) hrunning hlive

/-! ## Runs past the wrap -/

/-- A loop over the slots comes to its end, if each round leads to the next one. -/
lemma exists_run_of_walk {A : Slot → Smp → Prop} {done : Smp → Prop}
    (hround : ∀ i s, A i s → ∃ l s', Smp.step l s = some s' ∧
      (∀ j, nextSlot i = some j → A j s') ∧ (nextSlot i = none → done s'))
    (h : A i s) : ∃ ls s', Run Smp.step anyStep s ls s' ∧ done s' := by
  induction hleft : 63 - i.val generalizing i s with
  | zero =>
    obtain ⟨l, s', hs, -, hdone⟩ := hround i s h
    exact ⟨_, s', .snoc .nil trivial hs, hdone (dif_neg (by omega))⟩
  | succ m ih =>
    obtain ⟨l, s1, hs, hnext, -⟩ := hround i s h
    have hlt : i.val + 1 < 64 := by omega
    have hleft' : 63 - (i.val + 1) = m := by omega
    obtain ⟨ls, s', hrun, hdone⟩ := ih (i := ⟨i.val + 1, hlt⟩) (hnext _ (dif_pos hlt)) hleft'
    exact ⟨_, s', Run.cons trivial hs hrun, hdone⟩

/-- CPU 0 has no process, and `n` ticks went by. -/
structure Smp.Resting (n : Nat) (s : Smp) : Prop where
  ticked : s.ticked = n
  cpu : s.kernel.cpu cpu0 = none

lemma Smp.run_boost (hat : s.phase = .boosting none i) (hn : s.Resting n) :
    ∃ ls s', Run Smp.step anyStep s ls s' ∧ s'.phase = .waking none true 0 ∧ s'.Resting n := by
  refine exists_run_of_walk (A := fun i s => s.phase = .boosting none i ∧ s.Resting n) ?_ ⟨hat, hn⟩
  rintro i s ⟨hat, hn⟩
  have hcpu : (boostSlot i s.kernel).cpu cpu0 = none := by
    rw [boostSlot_cpu]
    exact hn.cpu
  refine ⟨.boost, s.boost none i, by simp only [Smp.step, hat], ?_, ?_⟩
  · intro j hj
    simp only [Smp.boost, hj]
    exact ⟨trivial, hn.ticked, hcpu⟩
  intro hj
  simp only [Smp.boost, hj]
  exact ⟨trivial, hn.ticked, hcpu⟩

lemma Smp.run_wakeup (hat : s.phase = .waking none boosted i) (hn : s.Resting n) :
    ∃ ls s', Run Smp.step anyStep s ls s' ∧ s'.phase = .leaving none boosted ∧ s'.Resting n := by
  refine exists_run_of_walk (A := fun i s => s.phase = .waking none boosted i ∧ s.Resting n) ?_
    ⟨hat, hn⟩
  rintro i s ⟨hat, hn⟩
  have hcpu : (wakeupSlot .mlfq ticksChan i s.kernel).cpu cpu0 = none := by
    rw [wakeupSlot_cpu]
    exact hn.cpu
  refine ⟨.wakeup, s.wakeup none boosted i, by simp only [Smp.step, hat], ?_, ?_⟩
  · intro j hj
    simp only [Smp.wakeup, hj]
    exact ⟨trivial, hn.ticked, hcpu⟩
  intro hj
  simp only [Smp.wakeup, hj]
  exact ⟨trivial, hn.ticked, hcpu⟩

/-- A whole interrupt, while no process runs. -/
lemma Smp.run_interrupt (hidle : s.phase = .idle) (hn : s.Resting n) :
    ∃ ls s', Run Smp.step anyStep s ls s' ∧ s'.phase = .idle ∧ s'.Resting (n + 1) := by
  have htick : Smp.step .tick s = some s.tick := if_pos hidle
  have hn' : s.tick.Resting (n + 1) := ⟨congrArg (· + 1) hn.ticked, hn.cpu⟩
  have hawake : ∃ ls s1 boosted, Run Smp.step anyStep s ls s1 ∧
      s1.phase = .waking none boosted 0 ∧ s1.Resting (n + 1) := by
    by_cases hdue : boostDue .mlfq (chargeTick .mlfq s.kernel)
    · have hat : s.tick.phase = .boosting none 0 := by
        rw [Smp.tick, hn.cpu]
        exact if_pos hdue
      obtain ⟨ls, s1, hrun, hat1, hn1⟩ := Smp.run_boost hat hn'
      exact ⟨_, s1, true, Run.cons trivial htick hrun, hat1, hn1⟩
    · have hat : s.tick.phase = .waking none false 0 := by
        rw [Smp.tick, hn.cpu]
        exact if_neg hdue
      exact ⟨_, s.tick, false, .snoc .nil trivial htick, hat, hn'⟩
  obtain ⟨ls, s1, boosted, hrun, hat, hn1⟩ := hawake
  obtain ⟨ls', s2, hrun', hat', hn2⟩ := Smp.run_wakeup hat hn1
  have hleave : Smp.step .leave s2 = some { s2 with phase := .idle } := by
    simp only [Smp.step, hat']
    rfl
  exact ⟨_, _, .snoc (hrun.append hrun') trivial hleave, rfl, hn2.ticked, hn2.cpu⟩

lemma Smp.exists_run (n : Nat) :
    ∃ ls s, Run Smp.step anyStep Smp.boot ls s ∧ s.phase = .idle ∧ s.Resting n := by
  induction n with
  | zero => exact ⟨[], Smp.boot, .nil, rfl, rfl, rfl⟩
  | succ n ih =>
    obtain ⟨ls, s, hrun, hidle, hn⟩ := ih
    obtain ⟨ls', s', hrun', hidle', hn'⟩ := Smp.run_interrupt hidle hn
    exact ⟨_, s', hrun.append hrun', hidle', hn'⟩

/-- A run that goes past the wrap of `ticks`: a boost is among the 48 ticks around it. -/
theorem boost_within_48_ticks_wrap :
    ∃ ls s, Run Smp.step anyStep Smp.boot ls s ∧ s.ticked = 2 ^ 32 + 24 ∧
      ∃ m ∈ s.boosted, 2 ^ 32 - 24 < m ∧ m ≤ 2 ^ 32 + 24 := by
  obtain ⟨ls, s, hrun, hidle, hn⟩ := Smp.exists_run (2 ^ 32 + 24)
  refine ⟨ls, s, hrun, hn.ticked, ?_⟩
  have hlast : 2 ^ 32 - 24 + 48 ≤ s.ticked := by
    rw [hn.ticked]
    norm_num
  rcases (boost_within_48_ticks hrun).1 (2 ^ 32 - 24) hlast with hdone | ⟨-, hboosting⟩
  · exact hdone
  · rw [hidle] at hboosting
    cases hboosting

end

end CshellXv6.Kernel
