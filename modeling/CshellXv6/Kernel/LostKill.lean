import CshellXv6.Kernel.Collected
import CshellXv6.Kernel.Wakeups

/-! # Killing a process that is about to sleep

A loop that looks at `killed` and then sleeps has a window: after the test and
before the change to SLEEPING, a kill only sets the flag, since there is
nobody to wake yet. `wakeup` has the same problem and solves it by clearing
`chan`, which makes `sleep` return at once; `kkill` leaves `chan` as it is.

`kill_not_lost` says that the window is the only problem: if no kill falls into
it, a killed process never sleeps, and it leaves its loop within one round.
-/

namespace CshellXv6.Kernel.WaitLoops

open Lib

/-- The loop in which the process is. -/
def Pc.loop : Pc → Option WaitLoop
  | .checking w _ | .nudging w _ _ | .prepared w | .released w | .asleep w => some w
  | .idle | .inside _ | .waking _ _ => none

/-- The process has looked at `killed` in this round, and is not asleep yet. -/
def Pc.committed : Pc → Bool
  | .checking w rest => .killed ∈ w.checks ∧ .killed ∉ rest
  | .nudging w _ _ | .prepared w | .released w => .killed ∈ w.checks
  | .idle | .inside _ | .waking _ _ | .asleep _ => false

/-- The kill does not hit a process between its look at `killed` and its
sleep. -/
def sparesCommitted : Label → State → Prop
  | .kernel (.kkill _ i), s => (s.pc (.proc i)).committed = false
  | _, _ => True

instance (l : Label) (s : State) : Decidable (sparesCommitted l s) := by
  unfold sparesCommitted
  apply @Label.casesOn _ l
  case kernel =>
    intro l
    apply @Kernel.Label.casesOn _ l
    all_goals intros; infer_instance
  all_goals intros; infer_instance

/-! ## Who is killed -/

section

variable {pol : Policy} {k k' : KernelState} {l : Kernel.Label}

/-- Nobody but `v` is killed, and a kill stays until the slot is freed. -/
def Kills (v : Option Slot) (k k' : KernelState) : Prop :=
  ∀ p, (k'.proc p).killed = (k.proc p).killed ∨ ((k'.proc p).killed = true ∧ v = some p) ∨
    ((k'.proc p).killed = false ∧ ¬ (k.proc p).queued)

/-- The process that a step of the kernel kills. -/
def victim (k : KernelState) : Kernel.Label → Option Slot
  | .kkill _ i => some i
  | .setkilled c => k.cpu c
  | _ => none

lemma Kills.of_move (hm : Kernel.Move pol k l k') : Kills (victim k l) k k' := by
  intro p
  have he := hm.effect p
  generalize k'.proc p = q at he ⊢
  cases he with
  | kkill _ => exact .inr (.inl ⟨rfl, rfl⟩)
  | setkilled hon => exact .inr (.inl ⟨rfl, hon⟩)
  | allocproc _ =>
    left
    simp [allocproc]
  | allocFail hfree | collect hfree => exact .inr (.inr ⟨rfl, by simp [Proc.queued, hfree]⟩)
  | _ => exact .inl rfl

lemma wakeupSlot_killed (chan : Nat) (i p : Slot) :
    ((wakeupSlot pol chan i k).proc p).killed = (k.proc p).killed := by
  by_cases hp : p = i
  · subst hp
    rcases wakeupSlot_self pol chan p k with hn | ⟨-, hn⟩ | ⟨-, n, hn⟩ <;> rw [hn]
  · rw [wakeupSlot_of_ne pol chan i k hp]

end

/-! ## The invariant -/

/-- Processes in a loop are in use; none that is committed to sleep, or sleeps
in a loop that looks at `killed`, has been killed. -/
structure Alert (s : State) : Prop where
  active : ∀ p, s.pc (.proc p) ≠ .idle → (s.k.proc p).queued
  committed : ∀ p, (s.pc (.proc p)).committed = true → (s.k.proc p).killed = false
  sleeping : ∀ p w, s.pc (.proc p) = .asleep w → w.killable → Sleeps s.k p →
    (s.k.proc p).killed = false

section

variable {lockOf : Nat → Nat} {pol : Policy} {s s' : State} {l : Label} {kl : Kernel.Label}
  {p : Slot} {a : Agent} {pc : Pc} {w : WaitLoop} {k k' : KernelState} {c : CpuId} {ls : List Label}
  {bound n : Nat}

/-- Who is in use stays in use, unless it exits. -/
lemma queued_of_move {l : Kernel.Label} (hm : Kernel.Move pol k l k')
    (h : (k.proc p).queued) (hexit : ∀ c status, l = .exit c status → k.cpu c ≠ some p) :
    (k'.proc p).queued := by
  have he := hm.effect p
  generalize k'.proc p = q at he ⊢
  cases he with
  | same | charge | boost _ | clear _ | sleepPrepare _ _ | setkilled _ | reparent => exact h
  | dispatch _ | wake _ | yield _ _ | sleep _ _ => simp [Proc.queued]
  | kkill _ =>
    by_cases hs : (k.proc p).state = .sleeping
    · simp [Proc.queued, killProc, hs]
    · simpa [Proc.queued, killProc, hs] using h
  -- the slot that is taken, readied or freed is not in use
  | allocproc hs | allocFail hs | setParent hs | ready hs | collect hs =>
    simp [Proc.queued, hs] at h
  | exit hon => exact absurd hon (hexit _ _ rfl)

/-- The rest of the kernel takes a step. -/
lemma Alert.kernel (h : Alert s) (hok : sparesCommitted (.kernel kl) s) (hcalm : s.calm kl)
    (henv : isEnvironment kl = true) (hm : Kernel.Move pol s.k kl k') :
    Alert { s with k := k' } := by
  have hr := Rouses.of_environment hm henv
  -- who is killed is outside all loops, or is hit by a `kkill`
  have hvictim : ∀ p, (k'.proc p).killed = true → (s.k.proc p).killed = true ∨
      s.pc (.proc p) = .idle ∨ ∃ pid, kl = .kkill pid p := by
    intro p hp
    rcases Kills.of_move hm p with hsame | ⟨-, hv⟩ | ⟨hno, -⟩
    · exact Or.inl (hsame ▸ hp)
    · right
      cases kl with
      | kkill pid i =>
        cases hv
        exact Or.inr ⟨pid, rfl⟩
      | setkilled c => exact Or.inl (hcalm c rfl p hv)
      | _ => cases hv
    · rw [hno] at hp
      cases hp
  constructor
  · intro p hp
    refine queued_of_move hm (h.active p hp) ?_
    rintro c status rfl hon
    exact hp (hcalm c rfl p hon)
  · intro p hp
    by_contra hk
    rcases hvictim p (by simpa using hk) with hold | hidle | ⟨pid, rfl⟩
    · rw [h.committed p hp] at hold
      cases hold
    · have hp' : (s.pc (.proc p)).committed = true := hp
      rw [hidle] at hp'
      cases hp'
    have hp' : (s.pc (.proc p)).committed = true := hp
    have hok' : (s.pc (.proc p)).committed = false := hok
    rw [hok'] at hp'
    cases hp'
  intro p w hp hw hs
  by_contra hk
  rcases hvictim p (by simpa using hk) with hold | hidle | ⟨pid, rfl⟩
  · rw [h.sleeping p w hp hw ((hr p).1 hs).1] at hold
    cases hold
  · have hp' : s.pc (.proc p) = .asleep w := hp
    rw [hidle] at hp'
    cases hp'
  -- the kill wakes the process up
  cases hm with
  | kkill _ =>
    have hstate : (killProc (s.k.proc p)).state = .sleeping := by
      have hs' : ((s.k.modify p killProc).proc p).state = .sleeping := hs
      rwa [modify_proc_self] at hs'
    simp only [killProc] at hstate
    split at hstate
    · cases hstate
    next hno => exact hno hstate

/-- An agent moves on, and nobody is killed. -/
lemma Alert.goto (h : Alert s) (hpc : s'.pc = Function.update s.pc a pc)
    (hkilled : ∀ p, (s'.k.proc p).killed = (s.k.proc p).killed)
    (hqueued : ∀ p, (s.k.proc p).queued → (s'.k.proc p).queued)
    (hsleeps : ∀ p, a ≠ .proc p → Sleeps s'.k p → Sleeps s.k p)
    (hactive : ∀ p, a = .proc p → (s.k.proc p).queued)
    (hcommitted : ∀ p, a = .proc p → pc.committed = true → (s.k.proc p).killed = false)
    (hasleep : ∀ p w, a = .proc p → pc = .asleep w → w.killable → Sleeps s'.k p →
      (s.k.proc p).killed = false) : Alert s' := by
  have hat : s'.pc a = pc := by rw [hpc, Function.update_self]
  have hne : ∀ b, b ≠ a → s'.pc b = s.pc b := fun b hb => by rw [hpc, Function.update_of_ne hb]
  constructor
  · intro p hp
    apply hqueued
    by_cases ha : a = .proc p
    · exact hactive p ha
    · rw [hne _ (Ne.symm ha)] at hp
      exact h.active p hp
  · intro p hp
    rw [hkilled]
    by_cases ha : a = .proc p
    · subst ha
      rw [hat] at hp
      exact hcommitted p rfl hp
    · rw [hne _ (Ne.symm ha)] at hp
      exact h.committed p hp
  intro p w hp hw hs
  rw [hkilled]
  by_cases ha : a = .proc p
  · subst ha
    rw [hat] at hp
    exact hasleep p w rfl hp hw hs
  · rw [hne _ (Ne.symm ha)] at hp
    exact h.sleeping p w hp hw (hsleeps p ha hs)

/-- A process that has something to do in a loop or as a waker, and goes on. -/
lemma Alert.stay (h : Alert s) (hpc : s'.pc = Function.update s.pc a pc) (hk : s'.k = s.k)
    (hold : s.pc a ≠ .idle) (hcommitted : pc.committed = true → (s.pc a).committed = true)
    (hasleep : ∀ w, pc ≠ .asleep w) : Alert s' := by
  refine h.goto hpc (fun p => by rw [hk]) (fun p hq => by rwa [hk]) ?_ ?_ ?_ ?_
  · intro p _ hs
    rwa [hk] at hs
  · rintro p rfl
    exact h.active p hold
  · rintro p rfl hc
    exact h.committed p (hcommitted hc)
  · intro p w _ hw
    exact absurd hw (hasleep w)

lemma Seated.queued (h : Seated k) (on : k.cpu c = some p) : (k.proc p).queued :=
  .inr (.inl (h.running on))

/-- A visit of a wakeup. -/
lemma Alert.visit {chan : Nat} {i : Slot} (h : Alert s)
    (hpc : s'.pc = Function.update s.pc a pc) (hk : s'.k = wakeupSlot pol chan i s.k)
    (hold : s.pc a ≠ .idle) (hcommitted : pc.committed = true → (s.pc a).committed = true)
    (hasleep : ∀ w, pc ≠ .asleep w) : Alert s' := by
  refine h.goto hpc (fun p => by rw [hk, wakeupSlot_killed]) ?_ ?_ ?_ ?_ ?_
  · intro p hq
    rw [hk]
    exact queued_of_move (Kernel.Move.wakeup : Kernel.Move pol s.k (.wakeup chan i) _) hq
      (by simp)
  · intro p _ hs
    rw [hk] at hs
    exact ((Rouses.wakeup chan i p).1 hs).1
  · rintro p rfl
    exact h.active p hold
  · rintro p rfl hc
    exact h.committed p (hcommitted hc)
  · intro p w _ hw
    exact absurd hw (hasleep w)

lemma Pc.committed_of_mustSleep (h : pc.mustSleep = some w) (hw : w.killable) :
    pc.committed = true := by
  unfold Pc.mustSleep at h
  split at h
  · split at h
    · cases h
      simpa [Pc.committed, WaitLoop.killable] using hw
    · cases h
  · split at h
    · cases h
      simpa [Pc.committed, WaitLoop.killable] using hw
    · cases h
  · cases h

lemma Alert.prepare (h : Alert s) (hq : (s.k.proc p).queued)
    (hpc : (s.pc (.proc p)).mustSleep = some w) :
    Alert { s.goto (.proc p) (.prepared w) with
      k := s.k.modify p fun q => { q with chan := w.chan } } := by
  have hsame : ∀ q, ((s.k.modify p fun q => { q with chan := w.chan }).proc q).killed =
      (s.k.proc q).killed ∧
      ((s.k.modify p fun q => { q with chan := w.chan }).proc q).state = (s.k.proc q).state := by
    intro q
    by_cases hqp : q = p
    · subst hqp
      simp
    · simp [modify_proc_of_ne _ _ hqp]
  refine h.goto rfl (fun q => (hsame q).1) ?_ ?_ ?_ ?_ (by simp)
  · intro q hq'
    rwa [Proc.queued, (hsame q).2]
  · intro q _ hs
    rwa [Sleeps, (hsame q).2] at hs
  · intro q hqp
    cases hqp
    exact hq
  intro q hqp hc
  cases hqp
  refine h.committed p (Pc.committed_of_mustSleep hpc ?_)
  simpa [Pc.committed, WaitLoop.killable] using hc

lemma Alert.sleep (h : Alert s) (hseat : Seated s.k) (on : s.k.cpu c = some p)
    (hpc : s.pc (.proc p) = .released w) :
    Alert { s.goto (.proc p) (.asleep w) with
      k := (s.k.modify p fun q => { q with state := .sleeping }).vacate c } := by
  refine h.goto rfl ?_ ?_ ?_ ?_ (by simp [Pc.committed]) ?_
  · intro q
    by_cases hqp : q = p
    · subst hqp
      simp
    · simp [modify_proc_of_ne _ _ hqp]
  · intro q hq
    by_cases hqp : q = p
    · subst hqp
      simp [Proc.queued]
    · simpa [modify_proc_of_ne _ _ hqp] using hq
  · intro q hqp hs
    have hne : q ≠ p := fun heq => hqp (by rw [heq])
    simpa [Sleeps, modify_proc_of_ne _ _ hne] using hs
  · intro q hqp
    cases hqp
    exact Seated.queued hseat on
  intro q w' hqp hw hkill _
  cases hqp
  cases hw
  apply h.committed
  rw [hpc]
  simpa [Pc.committed, WaitLoop.killable] using hkill

lemma Alert.step (h : Alert s) (hseat : Seated s.k) (hok : sparesCommitted l s)
    (hm : Move lockOf pol s l s') : Alert s' := by
  cases hm with
  | kernel henv hcalm hk => exact h.kernel hok hcalm henv hk
  | acquire hacts hpc hfree =>
    refine h.goto rfl (fun _ => rfl) (fun _ hq => hq) (fun _ _ hs => hs) ?_ (by simp [Pc.committed])
      (by simp)
    rintro p rfl
    obtain ⟨c, hc⟩ := hacts
    exact Seated.queued hseat hc
  | release hpc | set hpc | wakeEnd hpc _ | enter on hpc | leave on hpc _ | quit on hpc _
  | relock on hpc _ => exact h.stay rfl rfl (by simp [hpc]) (by simp [Pc.committed]) (by simp)
  | clear hpc => exact ⟨h.active, h.committed, h.sleeping⟩
  | wake hpc => exact h.visit rfl rfl (by simp [hpc]) (by simp [Pc.committed]) (by simp)
  | nudge hpc => exact h.visit rfl rfl (by simp [hpc]) (by simp [hpc, Pc.committed]) (by simp)
  | nudgeBegin on hpc =>
    exact h.stay rfl rfl (by simp [hpc]) (by simp [hpc, Pc.committed]) (by simp)
  | @pass c p w check rest on hpc _ hkilled =>
    cases check with
    | condition => exact h.stay rfl rfl (by simp [hpc]) (by simp [hpc, Pc.committed]) (by simp)
    | killed =>
      refine h.goto rfl (fun _ => rfl) (fun _ hq => hq) (fun _ _ hs => hs) ?_ ?_ (by simp)
      · intro q hq
        cases hq
        exact Seated.queued hseat on
      intro q hq _
      cases hq
      exact hkilled rfl
  | prepare on hpc _ => exact h.prepare (Seated.queued hseat on) hpc
  | unlock on hpc => exact h.stay rfl rfl (by simp [hpc]) (by simp [hpc, Pc.committed]) (by simp)
  | sleepSkip on hpc _ =>
    refine h.goto rfl (fun _ => rfl) (fun _ hq => hq) (fun _ _ hs => hs) ?_
      (by simp [Pc.committed]) ?_
    · intro q hq
      cases hq
      exact Seated.queued hseat on
    intro q w hq _ _ hs
    cases hq
    cases (hseat.running on).symm.trans hs
  | sleep on hpc _ => exact h.sleep hseat on hpc

lemma Alert.start : Alert (State.start pol) := by
  constructor
  all_goals simp [State.start, Pc.committed]

/-! ## A killed process leaves its loop -/

/-- The process that takes a step. -/
def State.actor (s : State) : Label → Option Slot
  | .kernel _ => none
  | .acquire a _ | .release a | .set a _ | .clear a _ | .visit a =>
    match a with
    | .proc p => some p
    | .intr _ => none
  | .enter c _ | .check c | .prepare c | .unlock c | .sleep c | .relock c => s.k.cpu c

/-- How many steps a killed process has left in its loop, at most. -/
def Pc.distance : Pc → Nat
  | .asleep w => w.checks.length + 1
  | .checking _ rest => rest.length
  | _ => 0

/-- The tests that are left are some of the tests of the loop. -/
def State.Rounds (s : State) : Prop :=
  ∀ a w rest, s.pc a = .checking w rest → rest.length ≤ w.checks.length

lemma State.Rounds.goto {t : State} (h : s.Rounds) (hpc : t.pc = s.pc)
    (hok : ∀ w rest, pc = .checking w rest → rest.length ≤ w.checks.length) :
    (t.goto a pc).Rounds := by
  intro b w rest hb
  by_cases hab : b = a
  · subst hab
    exact hok w rest ((Function.update_self _ _ _).symm.trans hb)
  refine h b w rest ?_
  rw [← hpc, ← hb]
  exact (Function.update_of_ne hab _ _).symm

lemma State.Rounds.step (h : s.Rounds) (hm : Move lockOf pol s l s') : s'.Rounds := by
  cases hm with
  | kernel | clear => exact h
  | enter | relock =>
    refine h.goto rfl ?_
    rintro w rest hw
    cases hw
    exact Nat.le_refl _
  | pass on hpc _ _ =>
    refine h.goto rfl ?_
    rintro w rest hw
    cases hw
    exact Nat.le_of_succ_le (h _ _ _ hpc)
  | acquire | release | set | wakeEnd | nudgeBegin | leave | quit | unlock | sleepSkip =>
    exact h.goto rfl (by simp)
  | @wake a chan i _ => exact State.Rounds.goto (a := a) h rfl (by simp)
  | @nudge a w chan i _ | @prepare c p w _ _ _ | @sleep c p w _ _ _ => exact h.goto rfl (by simp)

/-- A kill stays as long as the process is in use. -/
lemma Move.killed (hm : Move lockOf pol s l s') (hq : (s.k.proc p).queued)
    (hk : (s.k.proc p).killed = true) : (s'.k.proc p).killed = true := by
  have hkernel : ∀ {kl : Kernel.Label} {k' : KernelState}, Kernel.Move pol s.k kl k' →
      (k'.proc p).killed = true := by
    intro kl k' hmove
    rcases Kills.of_move hmove p with hsame | ⟨hyes, -⟩ | ⟨-, hno⟩
    · rw [hsame]
      exact hk
    · exact hyes
    · exact absurd hq hno
  rcases hm.kernel_or_same with hsame | ⟨kl, hmove⟩
  · rw [hsame]
    exact hk
  · exact hkernel hmove

/-- Where a killed process is in a loop that looks at `killed`: before the
look, or back from its sleep. -/
lemma Alert.place (h : Alert s) (hloop : (s.pc (.proc p)).loop = some w) (hw : w.killable)
    (hk : (s.k.proc p).killed = true) :
    s.pc (.proc p) = .asleep w ∨ ∃ rest, s.pc (.proc p) = .checking w rest ∧ .killed ∈ rest := by
  have hno : (s.pc (.proc p)).committed = false := by
    by_contra hc
    rw [h.committed p (by simpa using hc)] at hk
    cases hk
  rcases hpc : s.pc (.proc p) with _ | _ | _ | ⟨w', rest⟩ | _ | _ | _ | w'
  all_goals
    rw [hpc] at hloop hno
    cases hloop
  · right
    refine ⟨rest, rfl, ?_⟩
    by_contra hrest
    have hw' : .killed ∈ w.checks := hw
    simp [Pc.committed, hw', hrest] at hno
  · simp [Pc.committed] at hno
    exact absurd hw hno
  · simp [Pc.committed] at hno
    exact absurd hw hno
  · simp [Pc.committed] at hno
    exact absurd hw hno
  · exact Or.inl rfl

/-- The process that takes a step of a loop or of a waker. -/
lemma Move.goto_of_ne (hm : Move lockOf pol s l s') (h : s.actor l ≠ some p) :
    s'.pc (.proc p) = s.pc (.proc p) := by
  have hne : ∀ {a : Agent} {pc : Pc}, a ≠ .proc p →
      Function.update s.pc a pc (.proc p) = s.pc (.proc p) :=
    fun ha => Function.update_of_ne (Ne.symm ha) _ _
  have hagent : ∀ {a : Agent}, (match a with | .proc p => some p | .intr _ => none) ≠ some p →
      a ≠ .proc p := by
    rintro a ha rfl
    exact ha rfl
  have hproc : ∀ {c : CpuId} {q : Slot}, s.k.cpu c = some q → s.k.cpu c ≠ some p →
      Agent.proc q ≠ .proc p := by
    intro c q hon hne hq
    cases hq
    exact hne hon
  cases hm with
  | kernel | clear => rfl
  | acquire | release | set | wake | wakeEnd | nudge => exact hne (hagent h)
  | enter on | nudgeBegin on | pass on | leave on | quit on | prepare on | unlock on
  | sleepSkip on | sleep on | relock on => exact hne (hproc on h)

/-- A step of the killed process itself brings it nearer to the end of its
loop. -/
lemma Alert.nearer (h : Alert s) (hm : Move lockOf pol s l s')
    (hloop : (s.pc (.proc p)).loop = some w) (hw : w.killable) (hk : (s.k.proc p).killed = true)
    (hactor : s.actor l = some p) : (s'.pc (.proc p)).distance + 1 ≤ (s.pc (.proc p)).distance := by
  have hplace := h.place hloop hw hk
  have hnot : ∀ {pc : Pc}, s.pc (.proc p) = pc → (∀ w', pc ≠ .asleep w') →
      (∀ w' rest, pc = .checking w' rest → .killed ∉ rest) → False := by
    rintro pc rfl ha hc
    rcases hplace with hp | ⟨rest, hp, hrest⟩
    · exact ha w hp
    · exact hc w rest hp hrest
  have hproc : ∀ {a : Agent}, (match a with | .proc p => some p | .intr _ => none) = some p →
      a = .proc p := by
    intro a ha
    cases a with
    | proc q =>
      cases ha
      rfl
    | intr c => cases ha
  cases hm with
  | kernel => cases hactor
  | acquire _ hpc _ | release hpc | set hpc | clear hpc | wake hpc | wakeEnd hpc _ | nudge hpc =>
    cases hproc hactor
    exact (hnot hpc (by simp) (by simp)).elim
  | enter on hpc | nudgeBegin on hpc | unlock on hpc | sleepSkip on hpc _ | sleep on hpc _ =>
    cases on.symm.trans hactor
    exact (hnot hpc (by simp) (by simp)).elim
  | prepare on hpc _ =>
    cases on.symm.trans hactor
    refine (hnot rfl ?_ ?_).elim
    · intro w' hp
      rw [hp] at hpc
      cases hpc
    rintro w' (_ | ⟨check, rest⟩) hp
    · simp
    · rw [hp] at hpc
      cases hpc
  | pass on hpc _ _ | leave on hpc _ | quit on hpc _ | relock on hpc _ =>
    cases on.symm.trans hactor
    simp [State.goto, Pc.distance, hpc]

/-! ## Every run -/

/-- What holds in every state of a run in which no kill falls into a window. -/
structure Sound (lockOf : Nat → Nat) (s : State) : Prop where
  seated : Seated s.k
  guarded : Guarded lockOf s
  alert : Alert s
  rounds : s.Rounds

lemma Sound.step (h : Sound lockOf s) (hok : sparesCommitted l s)
    (hm : Move lockOf pol s l s') : Sound lockOf s' := by
  constructor
  · exact hm.seated h.seated
  · exact h.guarded.step h.seated hm
  · exact h.alert.step h.seated hok hm
  · exact h.rounds.step hm

lemma Sound.of_run (h : Run (WaitLoops.step lockOf pol) sparesCommitted (State.start pol) ls s) :
    Sound lockOf s := by
  refine h.invariant (Sound lockOf) ⟨Seated.boot, Guarded.start, Alert.start, ?_⟩ ?_
  · intro a w rest ha
    cases ha
  · intro l s s' hok hs hinv
    exact hinv.step hok (Move.of_step hs)

/-- A killed process in a loop that looks at `killed` does not sleep. -/
lemma Sound.ready (h : Sound lockOf s) (hloop : (s.pc (.proc p)).loop = some w) (hw : w.killable)
    (hk : (s.k.proc p).killed = true) :
    (s.k.proc p).state = .runnable ∨ (s.k.proc p).state = .running := by
  have hq : (s.k.proc p).queued := by
    apply h.alert.active
    intro hidle
    rw [hidle] at hloop
    cases hloop
  rcases hq with hq | hq | hq
  · exact .inl hq
  · exact .inr hq
  obtain ⟨w', hw', -⟩ := h.guarded.sleeping p hq
  rw [hw'] at hloop
  cases hloop
  rw [h.alert.sleeping p w hw' hw hq] at hk
  cases hk

/-- A run in which the steps of process `p` are counted. -/
def countStep (lockOf : Nat → Nat) (pol : Policy) (p : Slot) (l : Label) (c : State × Nat) :
    Option (State × Nat) :=
  (WaitLoops.step lockOf pol l c.1).map fun s' =>
    (s', if c.1.actor l = some p then c.2 + 1 else c.2)

/-- No kill falls into a window, and `p` is still in the loop. -/
def staysIn (p : Slot) (w : WaitLoop) (l : Label) (c : State × Nat) : Prop :=
  sparesCommitted l c.1 ∧ (c.1.pc (.proc p)).loop = some w

/-- What a killed process keeps while it is in its loop. -/
structure Leaving (lockOf : Nat → Nat) (p : Slot) (bound : Nat) (c : State × Nat) : Prop where
  sound : Sound lockOf c.1
  killed : (c.1.k.proc p).killed = true
  steps : c.2 + (c.1.pc (.proc p)).distance ≤ bound

lemma Leaving.of_run
    (h : Run (countStep lockOf pol p) (staysIn p w) (s, 0) ls (s', n)) (hw : w.killable)
    (hstart : Leaving lockOf p bound (s, 0)) : Leaving lockOf p bound (s', n) := by
  refine h.invariant (Leaving lockOf p bound) hstart ?_
  rintro l ⟨t, m⟩ ⟨t', m'⟩ ⟨hok, hloop⟩ hs hinv
  obtain ⟨t1, hstep, heq⟩ := Option.map_eq_some_iff.mp hs
  cases heq
  have hm := Move.of_step hstep
  have hk : (t.k.proc p).killed = true := hinv.killed
  constructor
  · exact hinv.sound.step hok hm
  · rcases hinv.sound.ready hloop hw hk with hup | hup
    · exact hm.killed (.inl hup) hk
    · exact hm.killed (.inr (.inl hup)) hk
  have hle := hinv.steps
  dsimp only at hle ⊢
  split
  next hactor =>
    have hnear := hinv.sound.alert.nearer hm hloop hw hk hactor
    dsimp only at hnear
    omega
  next hactor =>
    rw [hm.goto_of_ne hactor]
    exact hle

end

/-- In every run in which no kill falls between a process's look at `killed`
and its sleep, no process sleeps killed in a loop that looks at `killed`. And
once killed in such a loop, a process is ready to run or runs, and is out of
the loop after at most one more round of tests. -/
theorem kill_not_lost (lockOf : Nat → Nat) (pol : Policy) (ls : List Label) (s : State)
    (h : Run (step lockOf pol) sparesCommitted (State.start pol) ls s) (p : Slot) (w : WaitLoop)
    (hloop : (s.pc (.proc p)).loop = some w) (hw : w.killable) :
    ¬ ((s.k.proc p).state = .sleeping ∧ (s.k.proc p).killed = true) ∧
    ((s.k.proc p).killed = true → ((s.k.proc p).state = .runnable ∨ (s.k.proc p).state = .running) ∧
      ∀ ls' s' n, Run (countStep lockOf pol p) (staysIn p w) (s, 0) ls' (s', n) →
        n ≤ w.checks.length + 1 ∧
        ((s'.pc (.proc p)).loop = some w →
          (s'.k.proc p).state = .runnable ∨ (s'.k.proc p).state = .running)) := by
  have hsound := Sound.of_run h
  have hdist : (s.pc (.proc p)).distance ≤ w.checks.length + 1 := by
    rcases hpc : s.pc (.proc p) <;> rw [hpc] at hloop <;> cases hloop
    all_goals simp only [Pc.distance, Nat.zero_le, Nat.le_refl]
    exact Nat.le_succ_of_le (hsound.rounds _ _ _ hpc)
  refine ⟨?_, fun hk => ⟨hsound.ready hloop hw hk, ?_⟩⟩
  · rintro ⟨hdown, hk⟩
    rcases hsound.ready hloop hw hk with hup | hup
    all_goals cases hup.symm.trans hdown
  intro ls' s' n hrun
  have hend := Leaving.of_run hrun hw ⟨hsound, hk, by simpa using hdist⟩
  refine ⟨Nat.le_trans (Nat.le_add_right _ _) hend.steps, fun hin => ?_⟩
  exact hend.sound.ready hin hw hend.killed

/-- init goes to sleep in `piperead` and is killed there: it is RUNNABLE
again. -/
def killedAsleep : List Label :=
  [.kernel (.dispatch 0 0), .acquire (.proc 0) 5, .enter 0 (piperead 5), .check 0, .check 0,
    .prepare 0, .unlock 0, .sleep 0, .kernel (.kkill 1 0)]

theorem kill_not_lost_asleep :
    ∃ s, Run (step id .fcfs) sparesCommitted (State.start .fcfs) killedAsleep s ∧
      s.pc (.proc 0) = .asleep (piperead 5) ∧ (s.k.proc 0).killed = true ∧
      ((s.k.proc 0).state = .runnable ∨ (s.k.proc 0).state = .running) ∧
      ∀ ls' s' n, Run (countStep id .fcfs 0) (staysIn 0 (piperead 5)) (s, 0) ls' (s', n) →
        n ≤ 3 := by
  refine Run.exists_imp (P := fun s => s.pc (.proc 0) = .asleep (piperead 5) ∧
    (s.k.proc 0).killed = true) (by decide +kernel) ?_
  rintro s hs ⟨hpc, hk⟩
  have hloop : (s.pc (.proc 0)).loop = some (piperead 5) := by
    rw [hpc]
    rfl
  have hend := (kill_not_lost id .fcfs killedAsleep s hs 0 (piperead 5) hloop (by decide)).2 hk
  exact ⟨hpc, hk, hend.1, fun ls' s' n hrun => (hend.2 ls' s' n hrun).1⟩

/-- init has found that it is not killed and is about to call `sleep_prepare`
when the kill comes. -/
def killedInWindow : List Label :=
  [.kernel (.dispatch 0 0), .acquire (.proc 0) 5, .enter 0 (piperead 5), .check 0, .check 0,
    .kernel (.kkill 1 0), .prepare 0, .unlock 0, .sleep 0]

/-- The kill is lost: the victim sleeps, killed. -/
theorem kill_lost_in_window :
    ∃ s, Run (step id .fcfs) anyStep (State.start .fcfs) killedInWindow s ∧
      s.pc (.proc 0) = .asleep (piperead 5) ∧
      (s.k.proc 0).state = .sleeping ∧ (s.k.proc 0).killed = true := by
  decide +kernel

end CshellXv6.Kernel.WaitLoops
