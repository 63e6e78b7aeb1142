import CshellXv6.Kernel.WaitLoops

/-! # No wakeup is lost

A process that has registered on a channel and is going to sleep there, or
sleeps there already, does so while the condition is false, or while a waker
that has made it true is still on its way to the process. The lock of the
condition is what makes this an invariant: between the test and
`sleep_prepare` nobody else can make the condition true, and between making it
true and the end of `wakeup` nobody can register.

What else happens to a process in the window, a preemption, a kill, a stale
channel left by an earlier loop, does not touch any of this.
-/

namespace CshellXv6.Kernel.WaitLoops

open Lib

/-- The process sleeps. -/
def Sleeps (k : KernelState) (p : Slot) : Prop := (k.proc p).state = .sleeping

/-- The channel of the process. -/
def chanOf (k : KernelState) (p : Slot) : Nat := (k.proc p).chan

/-- Nobody falls asleep or registers; a process may be woken or its channel
cleared. -/
def Rouses (k k' : KernelState) : Prop :=
  ∀ p, (Sleeps k' p → Sleeps k p ∧ chanOf k' p = chanOf k p) ∧
    (chanOf k' p = chanOf k p ∨ chanOf k' p = 0)

section

variable {pol : Policy} {k k' : KernelState} {i : Slot} {l : Kernel.Label}

/-- After a visit of `wakeup(chan)`, the slot is not registered on `chan`. -/
lemma chanOf_wakeupSlot (chan : Nat) (i : Slot) (h : chan ≠ 0) :
    chanOf (wakeupSlot pol chan i k) i ≠ chan := by
  unfold wakeupSlot
  split
  · dsimp only
    split
    · obtain ⟨n, hn⟩ := enqueueIfOrdered_self pol i ((k.modify i fun p =>
        { p with chan := 0 }).modify i fun p => { p with state := .runnable })
      rw [chanOf, hn]
      simpa using h.symm
    · rw [chanOf, modify_proc_self]
      exact h.symm
  next hc => exact hc

/-- The rest of the kernel puts nobody to sleep. -/
lemma Rouses.of_move (hm : Kernel.Move pol k l k') (hsleep : ∀ c, l ≠ .sleep c)
    (hprepare : ∀ c chan, l ≠ .sleepPrepare c chan) : Rouses k k' := by
  intro p
  have he := hm.effect p
  rw [Sleeps, Sleeps, chanOf, chanOf]
  generalize k'.proc p = q at he ⊢
  cases he with
  | same | charge | boost _ | setkilled _ | setParent _ | reparent =>
    exact ⟨fun h => ⟨h, rfl⟩, .inl rfl⟩
  | dispatch _ | yield _ _ | ready _ | exit _ => exact ⟨fun h => (by cases h), .inl rfl⟩
  | clear hawake => exact ⟨fun h => absurd h hawake, .inr rfl⟩
  | wake _ | allocFail _ | collect _ => exact ⟨fun h => (by cases h), .inr rfl⟩
  | allocproc _ => simp [allocproc]
  | kkill _ =>
    refine ⟨fun h => ⟨?_, rfl⟩, .inl rfl⟩
    by_contra hno
    simp [killProc, hno] at h
  | @sleepPrepare c chan _ _ => exact absurd rfl (hprepare c chan)
  | @sleep c _ _ => exact absurd rfl (hsleep c)

lemma Rouses.of_environment (hm : Kernel.Move pol k l k') (henv : isEnvironment l = true) :
    Rouses k k' :=
  Rouses.of_move hm (by rintro c rfl; cases henv) (by rintro c chan rfl; cases henv)

lemma Rouses.wakeup (chan : Nat) (i : Slot) : Rouses k (wakeupSlot pol chan i k) :=
  Rouses.of_move (.wakeup : Kernel.Move pol k (.wakeup chan i) _) (by simp) (by simp)

end

/-! ## The invariant -/

/-- The lock that an agent holds there. -/
def Pc.lock (lockOf : Nat → Nat) : Pc → Option Nat
  | .idle | .released _ | .asleep _ => none
  | .inside lock => some lock
  | .waking chan _ => some (lockOf chan)
  | .checking w _ | .nudging w _ _ | .prepared w => some (lockOf w.chan)

/-- The loop whose condition the process has found false and not let go of. -/
def Pc.tested : Pc → Option WaitLoop
  | .checking w rest => if .condition ∈ rest then none else some w
  | .nudging w _ _ => some w
  | _ => none

/-- The loop on whose channel the process has registered. -/
def Pc.registered : Pc → Option WaitLoop
  | .prepared w | .released w | .asleep w => some w
  | _ => none

/-- The process is going to sleep in the loop, or sleeps there. -/
def State.Bound (s : State) (p : Slot) (w : WaitLoop) : Prop :=
  s.pc (.proc p) = .prepared w ∨ s.pc (.proc p) = .released w ∨
    (s.pc (.proc p) = .asleep w ∧ Sleeps s.k p)

structure Guarded (lockOf : Nat → Nat) (s : State) : Prop where
  held : ∀ a lock, (s.pc a).lock lockOf = some lock → s.holder lock = some a
  tested : ∀ a w, (s.pc a).tested = some w → s.condition w.chan = false
  registered : ∀ p w, (s.pc (.proc p)).registered = some w →
    w.chan ≠ 0 ∧ (chanOf s.k p = w.chan ∨ chanOf s.k p = 0)
  sleeping : ∀ p, Sleeps s.k p → ∃ w, s.pc (.proc p) = .asleep w ∧ chanOf s.k p = w.chan
  pending : ∀ p w, s.Bound p w → chanOf s.k p = w.chan → s.condition w.chan = true →
    ∃ a next, s.pc a = .waking w.chan next ∧ next ≤ p.val

section

variable {lockOf : Nat → Nat} {pol : Policy} {s s' : State} {l : Label} {pc : Pc} {w : WaitLoop}
  {a b : Agent} {lock chan : Nat} {p : Slot} {c : CpuId} {ls : List Label}

lemma Pc.lock_of_tested (h : pc.tested = some w) : pc.lock lockOf = some (lockOf w.chan) := by
  unfold Pc.tested at h
  split at h
  · split at h
    · cases h
    · cases h
      rfl
  · cases h
    rfl
  · cases h

lemma Pc.mustSleep_eq_some (h : pc.mustSleep = some w) : pc.tested = some w := by
  unfold Pc.mustSleep at h
  split at h
  · split at h
    · cases h
      rfl
    · cases h
  · split at h
    · cases h
      rfl
    · cases h
  · cases h

/-- The rest of the kernel, or nobody, takes a step. -/
lemma Guarded.rouse (h : Guarded lockOf s) (hr : Rouses s.k s'.k) (hpc : s'.pc = s.pc)
    (hholder : s'.holder = s.holder)
    (hcond : ∀ chan, s'.condition chan = true → s.condition chan = true) : Guarded lockOf s' := by
  obtain ⟨h1, h2, h3, h4, h5⟩ := h
  constructor
  all_goals simp only [Rouses, State.Bound, hpc, hholder] at *
  all_goals grind [Pc.registered]

/-- An agent moves on to a place where it is not registered. Nobody is left
behind if it was waking a channel. -/
lemma Guarded.goto (h : Guarded lockOf s) (hr : Rouses s.k s'.k)
    (hpc : s'.pc = Function.update s.pc a pc) (hcond : s'.condition = s.condition)
    (hown : ∀ lock, pc.lock lockOf = some lock → s'.holder lock = some a)
    (hothers : ∀ b lock, b ≠ a → (s.pc b).lock lockOf = some lock → s'.holder lock = some b)
    (htested : ∀ w, pc.tested = some w → s.condition w.chan = false)
    (hreg : pc.registered = none) (hawake : ∀ p, a = .proc p → ¬ Sleeps s'.k p)
    (hwaking : ∀ chan next, s.pc a = .waking chan next → ∀ p : Slot, next ≤ p.val → chan ≠ 0 →
      chanOf s'.k p = chan → ∃ next', pc = .waking chan next' ∧ next' ≤ p.val) :
    Guarded lockOf s' := by
  have hat : s'.pc a = pc := by rw [hpc, Function.update_self]
  have hne : ∀ b, b ≠ a → s'.pc b = s.pc b := fun b hb => by rw [hpc, Function.update_of_ne hb]
  have hbound : ∀ p w, s'.Bound p w → .proc p ≠ a ∧ s.Bound p w := by
    intro p w hb
    have hp : Agent.proc p ≠ a := by
      rintro rfl
      rcases hb with hb | hb | ⟨hb, -⟩
      all_goals
        rw [hat] at hb
        rw [hb] at hreg
        cases hreg
    rw [State.Bound, hne _ hp] at hb
    refine ⟨hp, ?_⟩
    rcases hb with hb | hb | ⟨hb, hs⟩
    · exact Or.inl hb
    · exact Or.inr (Or.inl hb)
    · exact Or.inr (Or.inr ⟨hb, ((hr p).1 hs).1⟩)
  constructor
  · intro b lock hl
    by_cases hb : b = a
    · subst hb
      exact hown lock (hat ▸ hl)
    · exact hothers b lock hb (hne b hb ▸ hl)
  · intro b w ht
    rw [hcond]
    by_cases hb : b = a
    · subst hb
      exact htested w (hat ▸ ht)
    · exact h.tested b w (hne b hb ▸ ht)
  · intro p w hw
    have hp : Agent.proc p ≠ a := by
      rintro rfl
      rw [hat, hreg] at hw
      cases hw
    rw [hne _ hp] at hw
    obtain ⟨hvalid, hc⟩ := h.registered p w hw
    refine ⟨hvalid, ?_⟩
    rcases (hr p).2 with hsame | hzero
    · rw [hsame]
      exact hc
    · exact Or.inr hzero
  · intro p hs
    have hp : Agent.proc p ≠ a := fun hp => hawake p hp.symm hs
    obtain ⟨hs', hc⟩ := (hr p).1 hs
    rw [hne _ hp, hc]
    exact h.sleeping p hs'
  intro p w hb hc htrue
  obtain ⟨hp, hb'⟩ := hbound p w hb
  have hvalid : w.chan ≠ 0 := by
    refine (h.registered p w ?_).1
    rcases hb' with hb' | hb' | ⟨hb', -⟩
    all_goals
      rw [hb']
      rfl
  have hc' : chanOf s.k p = w.chan := by
    rcases (hr p).2 with hsame | hzero
    · rw [← hsame]
      exact hc
    · exact absurd (hc.symm.trans hzero) hvalid
  rw [hcond] at htrue
  obtain ⟨b, next, hb, hle⟩ := h.pending p w hb' hc' htrue
  by_cases hba : b = a
  · subst hba
    obtain ⟨next', hpc', hle'⟩ := hwaking _ _ hb p hle hvalid hc
    exact ⟨b, next', hat.trans hpc', hle'⟩
  · exact ⟨b, next, (hne b hba).trans hb, hle⟩

/-- Two agents do not hold one lock. -/
lemma Guarded.eq_of_lock (h : Guarded lockOf s)
    (ha : (s.pc a).lock lockOf = some lock) (hb : (s.pc b).lock lockOf = some lock) : a = b :=
  Option.some.inj ((h.held a lock ha).symm.trans (h.held b lock hb))

/-- A waker makes the condition true; its wakeup is about to visit everybody. -/
lemma Guarded.set (h : Guarded lockOf s) (hpc : s.pc a = .inside (lockOf chan)) :
    Guarded lockOf
      ({ s with condition := Function.update s.condition chan true }.goto a (.waking chan 0)) := by
  have hlock : (s.pc a).lock lockOf = some (lockOf chan) := by
    rw [hpc]
    rfl
  constructor
  · intro b lock hl
    by_cases hb : b = a
    · subst hb
      refine h.held b lock ?_
      rw [hlock]
      simpa [State.goto, Pc.lock] using hl
    · exact h.held b lock (by simpa [State.goto, hb] using hl)
  · -- nobody else can be between its test and `sleep_prepare`
    intro b w ht
    have hb : b ≠ a := by
      rintro rfl
      simp [State.goto, Pc.tested] at ht
    have ht' : (s.pc b).tested = some w := by simpa [State.goto, hb] using ht
    have hw : w.chan ≠ chan := by
      rintro rfl
      exact hb (h.eq_of_lock (Pc.lock_of_tested ht') hlock)
    simpa [State.goto, hw] using h.tested b w ht'
  · intro p w hw
    have hp : Agent.proc p ≠ a := by
      rintro rfl
      simp [State.goto, Pc.registered] at hw
    exact h.registered p w (by simpa [State.goto, hp] using hw)
  · intro p hs
    obtain ⟨w, hw, hc⟩ := h.sleeping p hs
    have hp : Agent.proc p ≠ a := by
      rintro rfl
      rw [hpc] at hw
      cases hw
    exact ⟨w, by simpa [State.goto, hp] using hw, hc⟩
  intro p w hb hc htrue
  by_cases hw : w.chan = chan
  · exact ⟨a, 0, by simp [State.goto, hw], Nat.zero_le _⟩
  have hp : Agent.proc p ≠ a := by
    rintro rfl
    simp [State.Bound, State.goto] at hb
  have hb' : s.Bound p w := by simpa [State.Bound, State.goto, hp] using hb
  obtain ⟨b, next, hwaker, hle⟩ :=
    h.pending p w hb' hc (by simpa [State.goto, hw] using htrue)
  have hba : b ≠ a := by
    rintro rfl
    rw [hpc] at hwaker
    cases hwaker
  exact ⟨b, next, by simpa [State.goto, hba] using hwaker, hle⟩

/-- A process registers while the condition is false, holding its lock. -/
lemma Guarded.prepare (h : Guarded lockOf s) (hpc : (s.pc (.proc p)).tested = some w)
    (hvalid : w.chan ≠ 0) :
    Guarded lockOf { s.goto (.proc p) (.prepared w) with
      k := s.k.modify p fun q => { q with chan := w.chan } } := by
  have hlock : (s.pc (.proc p)).lock lockOf = some (lockOf w.chan) := Pc.lock_of_tested hpc
  have hfalse := h.tested _ w hpc
  have hk : ∀ q, (Sleeps (s.k.modify p fun q => { q with chan := w.chan }) q ↔ Sleeps s.k q) ∧
      chanOf (s.k.modify p fun q => { q with chan := w.chan }) q =
        if q = p then w.chan else chanOf s.k q := by
    intro q
    by_cases hq : q = p
    · subst hq
      simp [Sleeps, chanOf]
    · simp [Sleeps, chanOf, modify_proc_of_ne _ _ hq, hq]
  obtain ⟨h1, h2, h3, h4, h5⟩ := h
  constructor
  all_goals simp only [State.goto, Function.update_apply, State.Bound, hk] at *
  all_goals grind [Pc.lock, Pc.tested, Pc.registered]

/-- A registered process goes to sleep, unless it has been woken already. -/
lemma Guarded.sleep (h : Guarded lockOf s)
    (hpc : s.pc (.proc p) = .released w) (hchan : (s.k.proc p).chan ≠ 0) : Guarded lockOf
      { s.goto (.proc p) (.asleep w) with
        k := (s.k.modify p fun q => { q with state := .sleeping }).vacate c } := by
  have hk : ∀ q, (Sleeps ((s.k.modify p fun q => { q with state := .sleeping }).vacate c) q ↔
        q = p ∨ Sleeps s.k q) ∧
      chanOf ((s.k.modify p fun q => { q with state := .sleeping }).vacate c) q =
        chanOf s.k q := by
    intro q
    by_cases hq : q = p
    · subst hq
      simp [Sleeps, chanOf]
    · simp [Sleeps, chanOf, modify_proc_of_ne _ _ hq, hq]
  -- the channel has not been cleared, so it is still the one registered
  have hon : w.chan ≠ 0 ∧ chanOf s.k p = w.chan := by
    obtain ⟨hvalid, hc⟩ := h.registered p w (by rw [hpc]; rfl)
    exact ⟨hvalid, hc.resolve_right hchan⟩
  constructor
  · intro a lock hl
    by_cases ha : a = .proc p
    · subst ha
      simp [State.goto, Pc.lock] at hl
    · exact h.held a lock (by simpa [State.goto, ha] using hl)
  · intro a w' ht
    by_cases ha : a = .proc p
    · subst ha
      simp [State.goto, Pc.tested] at ht
    · exact h.tested a w' (by simpa [State.goto, ha] using ht)
  · intro q w' hw
    rw [(hk q).2]
    by_cases hq : q = p
    · subst hq
      cases show w = w' by simpa [State.goto, Pc.registered] using hw
      exact ⟨hon.1, Or.inl hon.2⟩
    · exact h.registered q w' (by simpa [State.goto, hq] using hw)
  · intro q hs
    rw [(hk q).2]
    by_cases hq : q = p
    · subst hq
      exact ⟨w, by simp [State.goto], hon.2⟩
    · obtain ⟨w', hw', hc⟩ := h.sleeping q (((hk q).1.mp hs).resolve_left hq)
      exact ⟨w', by simpa [State.goto, hq] using hw', hc⟩
  intro q w' hb hc htrue
  rw [(hk q).2] at hc
  have hb' : s.Bound q w' := by
    by_cases hq : q = p
    · subst hq
      cases show w = w' by simpa [State.goto, State.Bound, (hk q).1] using hb
      exact Or.inr (Or.inl hpc)
    · simpa [State.Bound, State.goto, hq, (hk q).1] using hb
  obtain ⟨b, next, hwaker, hle⟩ := h.pending q w' hb' hc htrue
  have hb : b ≠ .proc p := by
    rintro rfl
    rw [hpc] at hwaker
    cases hwaker
  exact ⟨b, next, by simpa [State.goto, hb] using hwaker, hle⟩

lemma Rouses.refl (k : KernelState) : Rouses k k := fun _ => ⟨fun h => ⟨h, rfl⟩, .inl rfl⟩

lemma Guarded.awake (h : Guarded lockOf s) (hpc : ∀ w, s.pc a ≠ .asleep w) (p : Slot)
    (ha : a = .proc p) : ¬ Sleeps s.k p := by
  subst ha
  intro hs
  obtain ⟨w, hw, -⟩ := h.sleeping p hs
  exact hpc w hw

/-- An agent moves on with the lock it has. -/
lemma Guarded.stay (h : Guarded lockOf s) (hr : Rouses s.k s'.k)
    (hpc : s'.pc = Function.update s.pc a pc) (hcond : s'.condition = s.condition)
    (hholder : s'.holder = s.holder) (hlock : pc.lock lockOf = (s.pc a).lock lockOf)
    (hold : ∀ w, s.pc a ≠ .asleep w) (htested : ∀ w, pc.tested = some w →
      s.condition w.chan = false) (hreg : pc.registered = none)
    (hwaking : ∀ chan next, s.pc a = .waking chan next → ∀ p : Slot, next ≤ p.val → chan ≠ 0 →
      chanOf s'.k p = chan → ∃ next', pc = .waking chan next' ∧ next' ≤ p.val) :
    Guarded lockOf s' := by
  refine h.goto hr hpc hcond ?_ ?_ htested hreg ?_ hwaking
  · intro lock hl
    rw [hholder]
    exact h.held a lock (hlock ▸ hl)
  · intro b lock _ hl
    rw [hholder]
    exact h.held b lock hl
  · intro p ha hs
    exact h.awake hold p ha ((hr p).1 hs).1

/-- An agent takes a free lock. -/
lemma Guarded.take (h : Guarded lockOf s) (hfree : s.holder lock = none)
    (hlock : pc.lock lockOf = some lock) (htested : pc.tested = none) (hreg : pc.registered = none)
    (hold : ∀ chan next, s.pc a ≠ .waking chan next) (hawake : ∀ p, a = .proc p → ¬ Sleeps s.k p) :
    Guarded lockOf ((s.take lock a).goto a pc) := by
  refine h.goto (Rouses.refl _) rfl rfl ?_ ?_ (by simp [htested]) hreg hawake ?_
  · intro lock' hl
    cases hlock.symm.trans hl
    simp [State.goto, State.take]
  · intro b lock' _ hl
    have hheld := h.held b lock' hl
    have hne : lock' ≠ lock := by
      rintro rfl
      rw [hfree] at hheld
      cases hheld
    simpa [State.goto, State.take, hne] using hheld
  · intro chan next hat
    exact absurd hat (hold chan next)

/-- An agent gives its lock back and is done. -/
lemma Guarded.leave (h : Guarded lockOf s) (hlock : (s.pc a).lock lockOf = some lock)
    (hold : ∀ chan next, s.pc a ≠ .waking chan next) (hsleep : ∀ w, s.pc a ≠ .asleep w) :
    Guarded lockOf ((s.giveBack lock).goto a .idle) := by
  refine h.goto (Rouses.refl _) rfl rfl (by simp [Pc.lock]) ?_ (by simp [Pc.tested]) rfl
    (h.awake hsleep) ?_
  · intro b lock' hb hl
    have hne : lock' ≠ lock := by
      rintro rfl
      exact hb (h.eq_of_lock hl hlock)
    simpa [State.goto, State.giveBack, hne] using h.held b lock' hl
  · intro chan next hat
    exact absurd hat (hold chan next)

lemma Guarded.step (h : Guarded lockOf s) (hseat : Seated s.k)
    (hm : Move lockOf pol s l s') : Guarded lockOf s' := by
  cases hm with
  | kernel henv _ hk => exact h.rouse (Rouses.of_environment hk henv) rfl rfl (fun _ hc => hc)
  | acquire _ hpc hfree =>
    exact h.take hfree rfl rfl rfl (by simp [hpc]) (h.awake (by simp [hpc]))
  | release hpc | quit on hpc _ => exact h.leave (by rw [hpc]; rfl) (by simp [hpc]) (by simp [hpc])
  | set hpc => exact h.set hpc
  | @clear a chan hpc =>
    refine h.rouse (Rouses.refl _) rfl rfl ?_
    intro chan' hc
    by_cases hne : chan' = chan
    · subst hne
      simp at hc
    · simpa [hne] using hc
  | @wake a chan i hpc =>
    refine h.stay (Rouses.wakeup chan i) rfl rfl rfl (by rw [hpc]; rfl) (by simp [hpc])
      (by simp [Pc.tested]) rfl ?_
    intro chan' next hat p hle hvalid hc
    rw [hpc] at hat
    cases hat
    -- slot `i` is no longer registered on the channel
    have hne : p ≠ i := by
      rintro rfl
      exact chanOf_wakeupSlot chan p hvalid hc
    have := Fin.val_ne_of_ne hne
    exact ⟨i.val + 1, rfl, by omega⟩
  | wakeEnd hpc hall =>
    refine h.stay (Rouses.refl _) rfl rfl rfl (by rw [hpc]; rfl) (by simp [hpc])
      (by simp [Pc.tested]) rfl ?_
    intro chan' next hat p hle
    rw [hpc] at hat
    cases hat
    omega
  | @nudge a w chan i hpc =>
    exact h.stay (Rouses.wakeup chan i) rfl rfl rfl (by rw [hpc]; rfl) (by simp [hpc])
      (fun w' ht => h.tested a w' (by rw [hpc]; exact ht)) rfl (by simp [hpc])
  | @enter c p w on hpc =>
    exact h.stay (Rouses.refl _) rfl rfl rfl (by rw [hpc]; rfl) (by simp [hpc])
      (by simp [Pc.tested, w.tests]) rfl (by simp [hpc])
  | nudgeBegin on hpc =>
    exact h.stay (Rouses.refl _) rfl rfl rfl (by rw [hpc]; rfl) (by simp [hpc])
      (fun w' ht => h.tested _ w' (by rw [hpc]; exact ht)) rfl (by simp [hpc])
  | @pass c p w check rest on hpc hcond _ =>
    refine h.stay (Rouses.refl _) rfl rfl rfl (by rw [hpc]; rfl) (by simp [hpc]) ?_ rfl
      (by simp [hpc])
    intro w' ht
    cases check with
    | condition =>
      have hw : w = w' := by
        simp only [Pc.tested] at ht
        split at ht
        · cases ht
        · exact Option.some.inj ht
      exact hw ▸ hcond rfl
    | killed =>
      refine h.tested (.proc p) w' ?_
      rw [hpc]
      simpa [Pc.tested] using ht
  | leave on hpc hcond =>
    exact h.stay (Rouses.refl _) rfl rfl rfl (by rw [hpc]; rfl) (by simp [hpc])
      (by simp [Pc.tested]) rfl (by simp [hpc])
  | prepare on hpc hvalid => exact h.prepare (Pc.mustSleep_eq_some hpc) hvalid
  | unlock on hpc =>
    obtain ⟨h1, h2, h3, h4, h5⟩ := h
    constructor
    all_goals simp only [State.goto, State.giveBack, Function.update_apply, State.Bound] at *
    all_goals grind [Pc.lock, Pc.tested, Pc.registered]
  | sleepSkip on hpc hwoken =>
    obtain ⟨h1, h2, h3, h4, h5⟩ := h
    constructor
    all_goals simp only [State.goto, Function.update_apply, State.Bound] at *
    all_goals grind [Pc.lock, Pc.tested, Pc.registered, chanOf]
  | sleep on hpc hchan => exact h.sleep hpc hchan
  | @relock c p w on hpc hfree =>
    refine h.take hfree rfl (by simp [Pc.tested, w.tests]) rfl (by simp [hpc]) ?_
    intro q hq hs
    cases hq
    have hrun := hseat.running on
    rw [Sleeps, hrun] at hs
    cases hs

/-! ## Every run -/

lemma Guarded.start : Guarded lockOf (State.start pol) := by
  have hpc : ∀ a, (State.start pol).pc a = .idle := fun _ => rfl
  have hawake : ∀ p, ¬ Sleeps (State.start pol).k p := by
    intro p
    show ((boot pol).proc p).state ≠ .sleeping
    rcases boot_proc pol p with ⟨-, hp⟩ | ⟨-, n, hp⟩
    all_goals
      rw [hp]
      simp [Proc.blank]
  constructor
  all_goals simp [hpc, hawake, Pc.lock, Pc.tested, Pc.registered, State.Bound]

/-- In every reachable state, each CPU has its own process and the conditions
are guarded by their locks. -/
lemma Guarded.of_run (h : Run (WaitLoops.step lockOf pol) anyStep (State.start pol) ls s) :
    Seated s.k ∧ Guarded lockOf s := by
  refine h.invariant (fun s => Seated s.k ∧ Guarded lockOf s) ⟨Seated.boot, Guarded.start⟩ ?_
  intro l s s' _ hs hinv
  have hm := Move.of_step hs
  exact ⟨hm.seated hinv.1, hinv.2.step hinv.1 hm⟩

end

/-- No wakeup is lost, under any of the schedulers: a process that sleeps on a
channel whose condition holds is about to be visited by a waker that has set
the condition and not finished its wakeup. And whoever sleeps, sleeps on a
channel. -/
theorem no_lost_wakeup (lockOf : Nat → Nat) (pol : Policy) (ls : List Label) (s : State)
    (h : Run (step lockOf pol) anyStep (State.start pol) ls s) :
    (∀ p chan, (s.k.proc p).state = .sleeping → (s.k.proc p).chan = chan →
      s.condition chan = true → ∃ a next, s.pc a = .waking chan next) ∧
    ∀ p, (s.k.proc p).state = .sleeping → (s.k.proc p).chan ≠ 0 := by
  have hinv := (Guarded.of_run h).2
  constructor
  · intro p chan hs hc htrue
    obtain ⟨w, hw, hwc⟩ := hinv.sleeping p hs
    have hchan : chan = w.chan := hc.symm.trans hwc
    subst hchan
    obtain ⟨a, next, ha, -⟩ := hinv.pending p w (Or.inr (Or.inr ⟨hw, hs⟩)) hwc htrue
    exact ⟨a, next, ha⟩
  · intro p hs
    obtain ⟨w, hw, hwc⟩ := hinv.sleeping p hs
    have hvalid := (hinv.registered p w (by rw [hw]; rfl)).1
    exact fun h0 => hvalid (hwc.symm.trans h0)

/-- init, preempted on its way, goes to sleep in `acquiresleep`; an interrupt
handler sets the condition and has not visited anybody yet. -/
def sleeperAndWaker : List Label :=
  [.kernel (.dispatch 0 0), .acquire (.proc 0) 5, .enter 0 (acquiresleep 5), .check 0,
    .prepare 0, .unlock 0, .kernel (.yield 0), .kernel (.dispatch 1 0), .sleep 1,
    .acquire (.intr 0) 5, .set (.intr 0) 5]

theorem no_lost_wakeup_sleeper_and_waker :
    ∃ s, Run (step id .fcfs) anyStep (State.start .fcfs) sleeperAndWaker s ∧
      ((s.k.proc 0).state = .sleeping ∧ s.condition 5 = true) ∧
      ∃ a next, s.pc a = .waking 5 next := by
  refine Run.exists_imp (P := fun s => (s.k.proc 0).state = .sleeping ∧ (s.k.proc 0).chan = 5 ∧
    s.condition 5 = true) (by decide +kernel) ?_
  rintro s hs ⟨hsleep, hchan, hcond⟩
  exact ⟨⟨hsleep, hcond⟩, (no_lost_wakeup id .fcfs sleeperAndWaker s hs).1 0 5 hsleep hchan hcond⟩

end CshellXv6.Kernel.WaitLoops
