import CshellXv6.Kernel.Accounting
import CshellXv6.Kernel.Statistics

/-! # Time slices of the MLFQ kernel

A process of queue `q` may run for `slices[q]` ticks before it goes one queue
down. The kernel does not let it run these ticks in a row: the timer makes it
yield at every tick, and `yield` calls `mlfq_enqueue_locked` whether the slice
is used up or not, so that it stands behind the RUNNABLE processes of its own
queue after one tick. Only if there are none does it go on.
-/

namespace CshellXv6.Kernel

open Lib List

/-! ## The continuations -/

/-- No process of a queue above becomes RUNNABLE in the step. -/
def noneRises (queue : Int) (l : UniLabel) (u : Uni) : Prop :=
  ∀ u' ∈ Uni.schedStep .mlfq l u, ∀ j, (u.kernel.proc j).state ≠ .runnable →
    (u'.kernel.proc j).state = .runnable → queue ≤ (u'.kernel.proc j).queue

/-- The process goes on, nothing is boosted, and nobody appears in a queue above. -/
def undisturbed (i : Slot) (queue : Int) (l : UniLabel) (u : Uni) : Prop :=
  l.leavesAwake i u ∧ ¬ (l = .clockintr ∧ u.boosts) ∧ noneRises queue l u

/-- Nobody else waits in the queue of the process if it yields before its slice is
used up. -/
def yieldsAlone (i : Slot) (l : UniLabel) (u : Uni) : Prop :=
  l = .yield → u.current = some i →
    (u.kernel.proc i).sliceTicks < slice (u.kernel.proc i).queue →
      ∀ j, j ≠ i → (u.kernel.proc j).state = .runnable →
        (u.kernel.proc j).queue ≠ (u.kernel.proc i).queue

/-- The step is a clock interrupt or a `kkill`. -/
def UniLabel.interruptsOrKills : UniLabel → Bool
  | .clockintr => true
  | .critical (.kkill _ _) => true
  | _ => false

/-- The clock finds a process running, and `kkill` is called by one. -/
def findsProcess (l : UniLabel) (u : Uni) : Prop :=
  l.interruptsOrKills = true → u.current ≠ none

instance (queue : Int) (l : UniLabel) (u : Uni) : Decidable (noneRises queue l u) := by
  unfold noneRises
  infer_instance

instance (i : Slot) (queue : Int) (l : UniLabel) (u : Uni) :
    Decidable (undisturbed i queue l u) :=
  inferInstanceAs (Decidable (_ ∧ _))

instance (i : Slot) (l : UniLabel) (u : Uni) : Decidable (yieldsAlone i l u) := by
  unfold yieldsAlone
  infer_instance

instance (l : UniLabel) (u : Uni) : Decidable (findsProcess l u) :=
  inferInstanceAs (Decidable (_ → _))

/-! ## A process within its slice -/

section

variable {k k' : KernelState} {u u' : Uni} {l : UniLabel} {i j : Slot} {queue used : Int}
  {c : CpuId}

/-- A RUNNABLE process stays in its queue, boosts apart. -/
lemma UniMove.queue_of_runnable (hm : UniMove .mlfq u l u') (hk : Seated u.kernel)
    (hb : ¬ (l = .clockintr ∧ u.boosts)) (hj : (u.kernel.proc j).state = .runnable) :
    (u'.kernel.proc j).queue = (u.kernel.proc j).queue := by
  have hcur : u.current ≠ some j := by
    intro hc
    rw [hk.running hc] at hj
    cases hj
  cases hm with
  | clockintr _ => exact (clockintr_spares (fun h => hb ⟨rfl, h⟩) hcur).queue
  | @yield i hdue =>
    have hji : j ≠ i := by
      rintro rfl
      exact hcur hdue.2
    rw [vacate_proc, yieldProc_of_ne .mlfq i _ hji]
  | killedTrap _ _ => rfl
  | @critical l k _ hown htaken =>
    have hmove := Move.of_step htaken
    refine (hmove.carried hk (Label.timed_of_uni hown) j ?_).queue (by simp [Proc.live, hj])
    rintro rfl
    cases hmove with
    | allocproc hfree => exact absurd (hfree.symm.trans hj) (by simp)

/-- The queues above stay empty. -/
lemma above_of_step
    (habove : ∀ j, (u.kernel.proc j).state = .runnable → queue ≤ (u.kernel.proc j).queue)
    (hk : Seated u.kernel) (hs : Uni.schedStep .mlfq l u = some u')
    (hb : ¬ (l = .clockintr ∧ u.boosts)) (hrise : noneRises queue l u) (j : Slot)
    (hj : (u'.kernel.proc j).state = .runnable) : queue ≤ (u'.kernel.proc j).queue := by
  by_cases hj0 : (u.kernel.proc j).state = .runnable
  · have hm := UniMove.of_schedStep hs
    rw [hm.queue_of_runnable hk hb hj0]
    exact habove j hj0
  · exact hrise u' hs j hj0 hj

/-- Nobody passes a RUNNABLE process while nobody appears in a queue above. -/
lemma ahead_of_shift {l : Label} (hr : Regular k) (hcount : k.enqueues < 2 ^ 64 - 1)
    (hs : Shift .mlfq l k k') (hboost : notBoost l) (hkill : ∀ pid j, l ≠ .kkill pid j)
    (hi : (k.proc i).state = .runnable) (hi' : (k'.proc i).state = .runnable)
    (hqueue : ∀ j, (k.proc j).state = .runnable → (k'.proc j).queue = (k.proc j).queue)
    (habove : ∀ j, (k'.proc j).state = .runnable → (k.proc i).queue ≤ (k'.proc j).queue)
    (hahead : ∀ j, j ≠ i → (k.proc j).state = .runnable → ahead .mlfq (k.proc i) (k.proc j))
    (hji : j ≠ i) (hj : (k'.proc j).state = .runnable) : ahead .mlfq (k'.proc i) (k'.proc j) := by
  cases hs with
  | keep _ _ stays =>
    have hj0 : (k.proc j).state = .runnable := by
      rcases (stays j).ready hj with hrun | ⟨-, pid, hl⟩ | ⟨hpol, -⟩
      · exact hrun
      · exact absurd hl (hkill pid j)
      · exact absurd rfl hpol
    have hold := hahead j hji hj0
    rw [ahead, hqueue i hi, hqueue j hj0, ((stays i).same (.inl hi')).2,
      ((stays j).same (.inl hj)).2]
    exact hold
  | draw a _ _ own ready others cause =>
    have hia : i ≠ a := by
      rintro rfl
      rcases cause with hnot | rfl
      · exact hnot hi
      · cases hboost
    rw [others i hia]
    by_cases hja : j = a
    · -- the newcomer is at the tail of the same queue, or in a queue below
      subst hja
      rcases (habove j hj).lt_or_eq with hlt | heq
      · exact .inl hlt
      refine .inr ⟨heq, ?_⟩
      rw [own]
      exact hr.below hcount (.inl hi)
    · rw [others j hja] at hj ⊢
      exact hahead j hji hj

/-- The process has not used up its slice: it is running, or the next to run. -/
structure Slicing (i : Slot) (queue used : Int) (u : Uni) : Prop where
  turn : u.current = some i ∨ u.current = none ∧ (u.kernel.proc i).state = .runnable
  level : (u.kernel.proc i).queue = queue
  charged : (u.kernel.proc i).sliceTicks = used
  above : ∀ j, (u.kernel.proc j).state = .runnable → queue ≤ (u.kernel.proc j).queue
  first : u.current = none → ∀ j, j ≠ i → (u.kernel.proc j).state = .runnable →
    ahead .mlfq (u.kernel.proc i) (u.kernel.proc j)

lemma Slicing.awake (h : Slicing i queue used u) (hk : Seated u.kernel) :
    (u.kernel.proc i).awake := by
  rcases h.turn with hcur | ⟨-, hrun⟩
  · exact .inl (hk.running hcur)
  · exact .inr hrun

lemma Slicing.select (h : Slicing i queue used u) (hr : Regular u.kernel)
    (hcount : u.kernel.enqueues < 2 ^ 64 - 1) (hnone : u.current = none) :
    select .mlfq u.kernel = some (some i, {i}) := by
  rcases h.turn with hcur | ⟨-, hrun⟩
  · rw [hnone] at hcur
    cases hcur
  · exact hr.select_of_ahead (by decide) hcount hrun (h.first hnone)

/-- The dispatch of a process that the scan has chosen. -/
lemma Slicing.dispatch (hr : Regular u.kernel) (hcount : u.kernel.enqueues < 2 ^ 64 - 1)
    (hs : Uni.schedStep .mlfq (.critical (.dispatch c i)) u = some u') :
    Slicing i (u.kernel.proc i).queue (u.kernel.proc i).sliceTicks u' := by
  have hchosen := Uni.chosen_of_schedStep hs
  cases UniMove.of_schedStep hs with
  | critical _ hown htaken =>
    have hc : c = cpu0 := by simpa [Label.uni] using hown
    subst hc
    cases Move.of_step htaken with
    | dispatch _ _ =>
      have hcur : (⟨switchTo cpu0 i u.kernel, false⟩ : Uni).current = some i := by
        simp [Uni.current, switchTo]
      refine ⟨.inl hcur, ?_, ?_, ?_, ?_⟩
      · rw [switchTo_self]
      · rw [switchTo_self]
      · intro j hj
        by_cases hji : j = i
        · rw [hji, switchTo_self]
        rw [switchTo_of_ne cpu0 i _ hji] at hj ⊢
        rcases hr.ahead_of_chosen (by decide) hcount hchosen hji hj with hlt | ⟨heq, -⟩
        · exact hlt.le
        · exact heq.le
      · intro hnone
        rw [hcur] at hnone
        cases hnone

/-- A tick goes to the running process. -/
lemma Slicing.clockintr (h : Slicing i queue used u) (hcur : u.current = some i) (hb : ¬ u.boosts)
    (habove : ∀ j, ((Kernel.clockintr .mlfq u.kernel).proc j).state = .runnable →
      queue ≤ ((Kernel.clockintr .mlfq u.kernel).proc j).queue) :
    Slicing i queue (used + 1) ⟨Kernel.clockintr .mlfq u.kernel, u.current.isSome⟩ := by
  have hcharge := clockintr_charges hb hcur
  have hcur' : (⟨Kernel.clockintr .mlfq u.kernel, u.current.isSome⟩ : Uni).current = some i := by
    rw [Uni.current, clockintr_cpu]
    exact hcur
  refine ⟨.inl hcur', ?_, ?_, habove, ?_⟩
  · exact hcharge.1.trans h.level
  · rw [hcharge.2, h.charged]
  intro hnone
  rw [hcur'] at hnone
  cases hnone

/-- The process yields within its slice, alone in its queue. -/
lemma Slicing.yield (h : Slicing i queue used u) (hdue : u.due j)
    (hused : used < slice queue) (halone : yieldsAlone i .yield u)
    (habove : ∀ m, ((yieldProc .mlfq j u.kernel).proc m).state = .runnable →
      queue ≤ ((yieldProc .mlfq j u.kernel).proc m).queue) :
    Slicing i queue used ⟨(yieldProc .mlfq j u.kernel).vacate cpu0, false⟩ := by
  have hcur : u.current = some i := by
    rcases h.turn with hcur | ⟨hnone, -⟩
    · exact hcur
    · rw [hdue.2] at hnone
      cases hnone
  have hji : j = i := Option.some.inj (hdue.2.symm.trans hcur)
  subst hji
  have hlt : (u.kernel.proc j).sliceTicks < slice (u.kernel.proc j).queue := by
    rw [h.charged, h.level]
    exact hused
  have hself : (yieldProc .mlfq j u.kernel).proc j =
      { u.kernel.proc j with state := .runnable, sequence := u.kernel.next } := by
    rw [yieldProc_mlfq_self, expire_of_lt hlt]
  refine ⟨.inr ⟨vacate_cpu_self _ cpu0, ?_⟩, ?_, ?_, ?_, ?_⟩
  · rw [vacate_proc, hself]
  · rw [vacate_proc, hself]
    exact h.level
  · rw [vacate_proc, hself]
    exact h.charged
  · rw [vacate_proc]
    exact habove
  intro _ m hmj hm
  rw [vacate_proc] at hm ⊢
  have hge := habove m hm
  rw [yieldProc_of_ne .mlfq j _ hmj] at hm hge ⊢
  -- whoever waits is in a queue below
  have hne := halone rfl hcur hlt m hmj hm
  rw [hself]
  left
  show (u.kernel.proc j).queue < (u.kernel.proc m).queue
  have hq := h.level
  omega

/-- A process that blocks is the one of the CPU. -/
lemma Move.current_of_blocks {l : Label} (hm : Move .mlfq k l k') (hown : l.uni = true)
    (hblock : (UniLabel.critical l).blocks = true) : k.cpu cpu0 ≠ none := by
  cases hm with
  | @sleep c j hon _ | @exit c status j hon _ =>
    have hc : c = cpu0 := by simpa [Label.uni] using hown
    rw [← hc, hon]
    simp
  | _ => cases hblock

/-- A critical section outside the timer trap. -/
lemma Slicing.critical {l : Label} (h : Slicing i queue used u) (hr : Regular u.kernel)
    (hcount : u.kernel.enqueues < 2 ^ 64 - 1) (hown : l.uni = true)
    (hs : Uni.schedStep .mlfq (.critical l) u = some ⟨k, false⟩) (hm : Move .mlfq u.kernel l k)
    (hleaves : (UniLabel.critical l).leavesAwake i u) (hfinds : findsProcess (.critical l) u)
    (habove : ∀ j, (k.proc j).state = .runnable → queue ≤ (k.proc j).queue) :
    Slicing i queue used ⟨k, false⟩ := by
  by_cases hdispatch : ∃ c j, l = .dispatch c j
  · rcases hdispatch with ⟨c, j, rfl⟩
    have hc : c = cpu0 := by simpa [Label.uni] using hown
    subst hc
    have hnone : u.current = none := by
      cases hm with
      | dispatch hidle _ => exact hidle
    -- the scheduler has no other choice
    have hchosen := Uni.chosen_of_schedStep hs
    rw [chosen, h.select hr hcount hnone] at hchosen
    have hij : i = j := by simpa using hchosen
    subst hij
    have hnew := Slicing.dispatch hr hcount hs
    rw [h.level, h.charged] at hnew
    exact hnew
  have hnot : ∀ c j, l ≠ .dispatch c j := fun c j hl => hdispatch ⟨c, j, hl⟩
  have hblock : (UniLabel.critical l).blocks = false := by
    rcases h.turn with hcur | ⟨hnone, -⟩
    · exact hleaves hcur
    · by_contra hb
      exact hm.current_of_blocks hown (by simpa using hb) hnone
  have hawake := h.awake hr.seated
  have hstate := hm.awake hown (fun hb => absurd hblock (by simp [hb])) (fun c => hnot c i) hawake
  have hcpu := hm.cpu_same hown hblock hnot
  have hcur : (⟨k, false⟩ : Uni).current = u.current := by rw [Uni.current, hcpu, Uni.current]
  have hcarried : ∀ j, (u.kernel.proc j).live → Carried (u.kernel.proc j) (k.proc j) := by
    intro j hj
    refine hm.carried hr.seated (Label.timed_of_uni hown) j ?_
    rintro rfl
    cases hm with
    | allocproc hfree => exact hj.1 hfree
  have hlive : ∀ j, (u.kernel.proc j).awake → (u.kernel.proc j).live := by
    intro j hj
    rcases hj with hj | hj
    all_goals simp [Proc.live, hj]
  have hqueue : ∀ j, (u.kernel.proc j).awake →
      (k.proc j).queue = (u.kernel.proc j).queue :=
    fun j hj => (hcarried j (hlive j hj)).queue (hlive j hj)
  refine ⟨?_, ?_, ?_, habove, ?_⟩
  · rw [hcur, hstate]
    exact h.turn
  · exact (hqueue i hawake).trans h.level
  · exact ((hcarried i (hlive i hawake)).slice (hlive i hawake)).trans h.charged
  intro hnone m hmi hm'
  rw [hcur] at hnone
  have hi : (u.kernel.proc i).state = .runnable := by
    rcases h.turn with hc | ⟨-, hrun⟩
    · rw [hnone] at hc
      cases hc
    · exact hrun
  refine ahead_of_shift hr hcount (hm.shift (by decide) hr.seated) ?_ ?_ hi
    (hstate.trans hi) (fun j hj => hqueue j (Or.inr hj)) ?_ (h.first hnone) hmi hm'
  · cases l <;> first | rfl | cases hown
  · rintro pid j rfl
    exact hfinds rfl hnone
  · rw [h.level]
    exact habove

/-! ## Runs -/

/-- After `n` ticks since its dispatch, as `p`, of which none was a boost. -/
structure Served (i : Slot) (p : Proc) (n : Nat) (u : Uni) : Prop where
  awake : (u.kernel.proc i).awake
  ticks : (n : Int) ≤ slice p.queue - p.sliceTicks → (u.kernel.proc i).ticks = inc64^[n] p.ticks
  slicing : (n : Int) < slice p.queue - p.sliceTicks → Slicing i p.queue (p.sliceTicks + n) u

variable {p : Proc} {n : Nat} {ls : List UniLabel}

lemma clockintr_ticks_current (hcur : u.current = some i) :
    ((Kernel.clockintr .mlfq u.kernel).proc i).ticks = inc64 (u.kernel.proc i).ticks := by
  rw [(clockintr_sameStats .mlfq u.kernel i).ticks, chargeTick_current hcur]
  rfl

lemma Served.clockintr (h : Served i p n u) (hr : Regular u.kernel)
    (hs : Uni.schedStep .mlfq .clockintr u = some u')
    (hundisturbed : undisturbed i p.queue .clockintr u) (hfinds : findsProcess .clockintr u) :
    Served i p (n + 1) u' := by
  obtain ⟨hleaves, hb, hrise⟩ := hundisturbed
  have hm := UniMove.of_schedStep hs
  have hawake := (hm.goes hr.seated h.awake hleaves).awake
  -- before this tick the slice was not used up, so the process was running
  have hbefore : ((n + 1 : Nat) : Int) ≤ slice p.queue - p.sliceTicks →
      Slicing i p.queue (p.sliceTicks + n) u ∧ u.current = some i := by
    intro hn
    have hslicing := h.slicing (by push_cast at hn; omega)
    refine ⟨hslicing, ?_⟩
    rcases hslicing.turn with hcur | ⟨hnone, -⟩
    · exact hcur
    · exact absurd hnone (hfinds rfl)
  cases hm with
  | clockintr _ =>
    refine ⟨hawake, ?_, ?_⟩
    · intro hn
      rw [clockintr_ticks_current (hbefore hn).2, h.ticks (by push_cast at hn; omega),
        Function.iterate_succ_apply']
    intro hn
    obtain ⟨hslicing, hcur⟩ := hbefore hn.le
    have hnext := hslicing.clockintr hcur (fun h => hb ⟨rfl, h⟩)
      (above_of_step hslicing.above hr.seated hs hb hrise)
    push_cast
    rw [← add_assoc]
    exact hnext

lemma Served.step (h : Served i p n u) (hr : Regular u.kernel)
    (hcount : u.kernel.enqueues < 2 ^ 64 - 1) (hs : Uni.schedStep .mlfq l u = some u')
    (hl : l ≠ .clockintr) (hundisturbed : undisturbed i p.queue l u)
    (halone : yieldsAlone i l u) (hfinds : findsProcess l u) : Served i p n u' := by
  obtain ⟨hleaves, hb, hrise⟩ := hundisturbed
  have hm := UniMove.of_schedStep hs
  have hgoes := hm.goes hr.seated h.awake hleaves
  refine ⟨hgoes.awake, ?_, ?_⟩
  · intro hn
    exact (hgoes.ticks hl).trans (h.ticks hn)
  intro hn
  have hslicing := h.slicing hn
  have habove := above_of_step hslicing.above hr.seated hs hb hrise
  cases hm with
  | clockintr _ => exact absurd rfl hl
  | yield hdue => exact hslicing.yield hdue (by omega) halone habove
  | killedTrap _ _ =>
    exact ⟨hslicing.turn, hslicing.level, hslicing.charged, habove, hslicing.first⟩
  | critical _ hown htaken =>
    exact hslicing.critical hr hcount hown hs (Move.of_step htaken) hleaves hfinds habove

lemma Served.of_run (h : Served i p 0 u) (hr : Regular u.kernel)
    (hrun : Run (Uni.schedStep .mlfq)
      (fun l u => undisturbed i p.queue l u ∧ yieldsAlone i l u ∧ findsProcess l u) u ls u') :
    Regular u'.kernel ∧
      (u'.kernel.enqueues < 2 ^ 64 - 1 → Served i p (ls.count .clockintr) u') := by
  induction hrun with
  | nil => exact ⟨hr, fun _ => h⟩
  | @snoc ls v v' l _ hok hs ih =>
    obtain ⟨hregular, hserved⟩ := ih
    obtain ⟨hundisturbed, halone, hfinds⟩ := hok
    have hm := UniMove.of_schedStep hs
    refine ⟨hregular.uniStep (by decide) hm, ?_⟩
    intro hcount
    have hle := hm.enqueues_le (by decide) hregular
    have hcount' : v.kernel.enqueues < 2 ^ 64 - 1 := by omega
    by_cases hl : l = .clockintr
    · subst hl
      rw [count_append, count_singleton_self]
      exact (hserved hcount').clockintr hregular hs hundisturbed hfinds
    · rw [count_append, count_singleton, if_neg (by simpa using hl), Nat.add_zero]
      exact (hserved hcount').step hregular hcount' hs hl hundisturbed halone hfinds

lemma queue_le_expire (p : Proc) : p.queue ≤ (expire p).queue := by
  unfold expire
  split
  · dsimp only
    split
    · omega
    · exact le_rfl
  · exact le_rfl

/-- If somebody waits in its queue or above, a process that yields is not chosen next,
whether its slice is used up or not. -/
theorem yield_passes_to_peer {ls : List UniLabel}
    (hrun : Run (Uni.schedStep .mlfq) anyStep (Uni.boot .mlfq) ls u)
    (hcount : u.kernel.enqueues < 2 ^ 64 - 2)
    (hs : Uni.schedStep .mlfq .yield u = some u') (hcur : u.current = some i)
    (hj : (u.kernel.proc j).state = .runnable)
    (hqueue : (u.kernel.proc j).queue ≤ (u.kernel.proc i).queue) :
    chosen .mlfq u'.kernel ≠ some (some i) := by
  intro hchosen
  have hr := Regular.of_sched (by decide) hrun
  have hm := UniMove.of_schedStep hs
  have hr' := hr.uniStep (by decide) hm
  cases hm with
  | @yield m hdue =>
    have hmi : m = i := Option.some.inj (hdue.2.symm.trans hcur)
    subst hmi
    have hjm : j ≠ m := by
      rintro rfl
      rw [hr.seated.running hcur] at hj
      cases hj
    have hcount' : ((yieldProc .mlfq m u.kernel).vacate cpu0).enqueues < 2 ^ 64 - 1 := by
      show u.kernel.enqueues + 1 < 2 ^ 64 - 1
      omega
    have hother : ((yieldProc .mlfq m u.kernel).vacate cpu0).proc j = u.kernel.proc j := by
      rw [vacate_proc, yieldProc_of_ne .mlfq m _ hjm]
    have hahead := hr'.ahead_of_chosen (by decide) hcount' hchosen hjm (by rw [hother]; exact hj)
    rw [hother, vacate_proc, yieldProc_mlfq_self] at hahead
    have hbelow := hr.below (by omega) (.inl hj)
    have hdown := queue_le_expire (u.kernel.proc m)
    rcases hahead with hlt | ⟨-, hlt⟩
    all_goals
      dsimp only at hlt
      omega

theorem yield_passes_forked :
    ∃ u, Run (Uni.schedStep .mlfq) anyStep (Uni.boot .mlfq) [.critical (.dispatch 0 0),
        .critical (.allocproc 1), .critical (.ready 1), .clockintr] u ∧
      ∃ u', Uni.schedStep .mlfq .yield u = some u' ∧ chosen .mlfq u'.kernel ≠ some (some 0) := by
  refine Run.exists_imp (P := fun u => u.kernel.enqueues < 2 ^ 64 - 2 ∧ u.current = some 0 ∧
    (u.kernel.proc 1).state = .runnable ∧ (u.kernel.proc 1).queue ≤ (u.kernel.proc 0).queue ∧
    ∃ u', Uni.schedStep .mlfq .yield u = some u' ∧ True) (by decide +kernel) ?_
  rintro u hrun ⟨hcount, hcur, hj, hqueue, u', hs, -⟩
  exact ⟨u', hs, yield_passes_to_peer hrun hcount hs hcur hj hqueue⟩

/-- **When a process keeps the CPU for its slice.** A process is dispatched from
its queue by the MLFQ kernel on one CPU. In every continuation in which it
neither sleeps nor exits, nothing is boosted and nobody appears in a queue
above, and as long as nobody else waits in its queue when it yields before its
slice is used up, and the clock finds it running: the ticks up to the end of
its slice are all charged to it, and until then it is running or the scheduler
chooses it next. -/
theorem mlfq_slice_kept {ls ls' : List UniLabel} {u0 : Uni} {c : CpuId}
    (hrun : Run (Uni.schedStep .mlfq) anyStep (Uni.boot .mlfq) ls u0)
    (hdispatch : Uni.schedStep .mlfq (.critical (.dispatch c i)) u0 = some u)
    (hrun' : Run (Uni.schedStep .mlfq)
      (fun l v => undisturbed i (u.kernel.proc i).queue l v ∧ yieldsAlone i l v ∧
        findsProcess l v) u ls' u')
    (hcount : u'.kernel.enqueues < 2 ^ 64 - 1) :
    ((ls'.count .clockintr : Int) ≤ slice (u.kernel.proc i).queue - (u.kernel.proc i).sliceTicks →
      (u'.kernel.proc i).ticks = inc64^[ls'.count .clockintr] (u.kernel.proc i).ticks) ∧
    ((ls'.count .clockintr : Int) < slice (u.kernel.proc i).queue - (u.kernel.proc i).sliceTicks →
      u'.current = some i ∨
        u'.current = none ∧ select .mlfq u'.kernel = some (some i, {i})) := by
  have hr0 : Regular u0.kernel := Regular.of_sched (by decide) hrun
  have hm := UniMove.of_schedStep hdispatch
  have hr : Regular u.kernel := hr0.uniStep (by decide) hm
  have hcount0 : u0.kernel.enqueues < 2 ^ 64 - 1 := by
    have hle := hm.enqueues_le (by decide) hr0
    have hle' := enqueues_le_of_run (by decide) hr hrun'
    omega
  have hslicing := Slicing.dispatch hr0 hcount0 hdispatch
  have hserved : Served i (u.kernel.proc i) 0 u := by
    refine ⟨hslicing.awake hr.seated, fun _ => rfl, fun _ => ?_⟩
    rw [hslicing.level, hslicing.charged]
    simpa using hslicing
  obtain ⟨hr', hserved'⟩ := hserved.of_run hr hrun'
  have hend := hserved' hcount
  refine ⟨hend.ticks, ?_⟩
  intro hn
  have hslicing' := hend.slicing hn
  rcases hslicing'.turn with hcur | ⟨hnone, -⟩
  · exact .inl hcur
  · exact .inr ⟨hnone, hslicing'.select hr' hcount hnone⟩

/-- The first process, alone, in its second queue: it is interrupted in the middle
of its slice of two ticks and gets the second one, too. -/
theorem mlfq_slice_kept_alone :
    ∃ ls u0 u, Run (Uni.schedStep .mlfq) anyStep (Uni.boot .mlfq) ls u0 ∧
      Uni.schedStep .mlfq (.critical (.dispatch 0 0)) u0 = some u ∧
      (u.kernel.proc 0).queue = 1 ∧ (u.kernel.proc 0).sliceTicks = 0 ∧
      ∃ u', Run (Uni.schedStep .mlfq)
          (fun l v => undisturbed 0 (u.kernel.proc 0).queue l v ∧ yieldsAlone 0 l v ∧
            findsProcess l v) u
          [.clockintr, .yield, .critical (.dispatch 0 0), .clockintr] u' ∧
        (u'.kernel.proc 0).ticks = inc64^[2] (u.kernel.proc 0).ticks := by
  have hreplay : ∃ u0, Run (Uni.schedStep .mlfq) anyStep (Uni.boot .mlfq)
      [.critical (.dispatch 0 0), .clockintr, .yield] u0 ∧
      ∃ u, Uni.schedStep .mlfq (.critical (.dispatch 0 0)) u0 = some u ∧
        (u.kernel.proc 0).queue = 1 ∧ (u.kernel.proc 0).sliceTicks = 0 ∧
        ∃ u', Run (Uni.schedStep .mlfq)
            (fun l v => undisturbed 0 (u.kernel.proc 0).queue l v ∧ yieldsAlone 0 l v ∧
              findsProcess l v) u
            [.clockintr, .yield, .critical (.dispatch 0 0), .clockintr] u' ∧
          u'.kernel.enqueues < 2 ^ 64 - 1 := by decide +kernel
  obtain ⟨u0, hrun, u, hdispatch, hq, hs, u', hrun', hcount⟩ := hreplay
  have hkept := mlfq_slice_kept hrun hdispatch hrun' hcount
  refine ⟨_, u0, u, hrun, hdispatch, hq, hs, u', hrun', hkept.1 ?_⟩
  rw [hq, hs]
  decide

/-- Two processes that only compute, both in the second queue. The first one is
dispatched at the beginning of its slice of two ticks, and after one tick the
scheduler chooses the other one. -/
theorem slice_interrupted_by_peer :
    ∃ ls u0 u, Run (Uni.schedStep .mlfq) anyStep (Uni.boot .mlfq) ls u0 ∧
      Uni.schedStep .mlfq (.critical (.dispatch 0 0)) u0 = some u ∧
      (u.kernel.proc 0).queue = 1 ∧ (u.kernel.proc 0).sliceTicks = 0 ∧ slice 1 = 2 ∧
      ∃ u', Run (Uni.schedStep .mlfq) (undisturbed 0 1) u [.clockintr, .yield] u' ∧
        (u'.kernel.proc 0).sliceTicks = 1 ∧ (u'.kernel.proc 1).queue = 1 ∧
        u'.current = none ∧ select .mlfq u'.kernel = some (some 1, {1}) := by
  refine ⟨[.critical (.dispatch 0 0), .critical (.allocproc 1), .critical (.setParent 0 1),
    .critical (.ready 1), .clockintr, .yield, .critical (.dispatch 0 1), .clockintr, .yield], ?_⟩
  simp only [exists_and_left]
  decide +kernel

end

end CshellXv6.Kernel
