import CshellXv6.Kernel.Uniprocessor

/-! # What the MLFQ kernel charges for

`clockintr` charges a tick to the running process (`slice_ticks`), `yield`
demotes a process whose slice is used up, `mlfq_boost` and `allocproc` start
afresh. Here the ticks charged to each process since its allocation or the last
boost are counted from outside, by the events alone, and compared with what
`queue` and `slice_ticks` say.
-/

namespace CshellXv6.Kernel

open Lib

/-! ## Counting the charges -/

/-- The kernel on one CPU with a count of charges for each slot. -/
structure Counted where
  uni : Uni
  charged : Slot → Nat

def Counted.proc (s : Counted) (i : Slot) : Proc := s.uni.kernel.proc i

/-- The clock interrupt about to be taken boosts. -/
def Uni.boosts (u : Uni) : Prop := boostDue .mlfq (chargeTick .mlfq u.kernel)

instance (u : Uni) : Decidable u.boosts := inferInstanceAs (Decidable (boostDue _ _))

/-- The count after an event: a clock interrupt adds one for the running
process, and a boost (which comes after the charge) or an allocation starts
again from zero. -/
def tally (u : Uni) (charged : Slot → Nat) : UniLabel → Slot → Nat
  | .clockintr => fun i =>
    if u.boosts then 0 else if u.current = some i then charged i + 1 else charged i
  | .critical (.allocproc i) => Function.update charged i 0
  | _ => charged

def Counted.step (l : UniLabel) (s : Counted) : Option Counted :=
  (Uni.step .mlfq l s.uni).map fun u => ⟨u, tally s.uni s.charged l⟩

def Counted.boot : Counted := ⟨Uni.boot .mlfq, fun _ => 0⟩

/-! ## The account of a process -/

/-- The slices of all queues above. -/
def spent (queue : Int) : Int := (slices.take queue.toNat).sum

/-- `queue` and `slice_ticks` account for all ticks charged; `due` says that
the process is about to yield. -/
structure Account (due : Prop) (p : Proc) (charged : Nat) : Prop where
  queue_nonneg : 0 ≤ p.queue
  queue_le : p.queue ≤ 3
  slice_nonneg : 0 ≤ p.sliceTicks
  slice_le : p.sliceTicks ≤ slice p.queue
  slice_lt : ¬ due → p.sliceTicks < slice p.queue
  upper : p.queue < 3 → charged = spent p.queue + p.sliceTicks
  lowest : p.queue = 3 → ∃ m : Nat, (charged : Int) - 11 - p.sliceTicks = 16 * m

variable {due due' : Prop} {p p' p'' : Proc} {n : Nat} {q : Int} {k k' : KernelState} {i j : Slot}
  {l : Label} {u : Uni} {pol : Policy}

lemma queue_cases (h0 : 0 ≤ q) (h3 : q ≤ 3) : q = 0 ∨ q = 1 ∨ q = 2 ∨ q = 3 := by
  omega

lemma slice_pos (h0 : 0 ≤ q) (h3 : q ≤ 3) : 0 < slice q := by
  rcases queue_cases h0 h3 with rfl | rfl | rfl | rfl <;> decide

lemma spent_add_slice (h0 : 0 ≤ q) (h3 : q < 3) : spent (q + 1) = spent q + slice q := by
  rcases queue_cases h0 h3.le with rfl | rfl | rfl | rfl
  · rfl
  · rfl
  · rfl
  · exact absurd h3 (by decide)

lemma spent_lowest : spent 3 = 11 := rfl

lemma slice_lowest : slice 3 = 16 := rfl

/-- A slice that has just begun in the first queue. -/
lemma Account.fresh (hq : p.queue = 0) (hs : p.sliceTicks = 0) : Account due p 0 := by
  constructor <;> simp [hq, hs, slice, slices, spent]

/-- The account only looks at `queue` and `slice_ticks`. -/
lemma Account.congr (h : Account due p n) (hq : p'.queue = p.queue)
    (hs : p'.sliceTicks = p.sliceTicks) (hdue : due → due') : Account due' p' n := by
  constructor
  · rw [hq]
    exact h.queue_nonneg
  · rw [hq]
    exact h.queue_le
  · rw [hs]
    exact h.slice_nonneg
  · rw [hq, hs]
    exact h.slice_le
  · intro hnot
    rw [hq, hs]
    exact h.slice_lt (fun hd => hnot (hdue hd))
  · rw [hq, hs]
    exact h.upper
  · rw [hq, hs]
    exact h.lowest

/-- The clock charges a process whose slice is not used up. -/
lemma Account.charge (h : Account due p n) (hnot : ¬ due) (hq : p'.queue = p.queue)
    (hs : p'.sliceTicks = p.sliceTicks + 1) (hdue : due') : Account due' p' (n + 1) := by
  -- the slice was not used up, so one more tick fits into it
  have hlt := h.slice_lt hnot
  constructor
  · rw [hq]
    exact h.queue_nonneg
  · rw [hq]
    exact h.queue_le
  · have := h.slice_nonneg
    omega
  · rw [hq, hs]
    omega
  · intro hnot'
    exact absurd hdue hnot'
  · intro hq3
    rw [hq] at hq3
    have := h.upper hq3
    rw [hq, hs]
    push_cast
    omega
  · intro hq3
    rw [hq] at hq3
    rcases h.lowest hq3 with ⟨m, hm⟩
    exact ⟨m, by rw [hs]; push_cast; omega⟩

lemma expire_of_lt (hlt : p.sliceTicks < slice p.queue) : expire p = p := by
  rw [expire, if_neg (by omega)]

lemma expire_of_used (hused : p.sliceTicks = slice p.queue) :
    expire p = { p with
      queue := if p.queue < 3 then p.queue + 1 else p.queue
      sliceTicks := 0 } := by
  rw [expire, if_pos (by omega)]
  rfl

lemma expire_killed : (expire p).killed = p.killed := by
  unfold expire
  split <;> rfl

/-- A used-up slice of one of the upper queues. -/
lemma Account.demote (h : Account due p n) (hused : p.sliceTicks = slice p.queue)
    (hq3 : p.queue < 3) (hq : p'.queue = p.queue + 1) (hs : p'.sliceTicks = 0) :
    Account due' p' n := by
  have h0 := h.queue_nonneg
  have hpos : 0 < slice (p.queue + 1) := slice_pos (by omega) (by omega)
  -- the used slice moves from `slice_ticks` to the slices of the queues above
  have hspent : (n : Int) = spent (p.queue + 1) := by
    rw [h.upper hq3, spent_add_slice h0 hq3, hused]
  constructor
  · omega
  · omega
  · omega
  · rw [hq, hs]
    exact hpos.le
  · intro _
    rw [hq, hs]
    exact hpos
  · intro _
    rw [hq, hs, hspent]
    omega
  intro hlow
  have hlow' : p.queue + 1 = 3 := by omega
  refine ⟨0, ?_⟩
  rw [hspent, hlow', hs, spent_lowest]
  norm_num

/-- A used-up slice of the lowest queue. -/
lemma Account.restart (h : Account due p n) (hused : p.sliceTicks = slice p.queue)
    (hq3 : p.queue = 3) (hq : p'.queue = 3) (hs : p'.sliceTicks = 0) : Account due' p' n := by
  rcases h.lowest hq3 with ⟨m, hm⟩
  rw [hused, hq3, slice_lowest] at hm
  constructor
  · omega
  · omega
  · omega
  · rw [hq, hs, slice_lowest]
    norm_num
  · intro _
    rw [hq, hs, slice_lowest]
    norm_num
  · intro hlt
    omega
  intro _
  refine ⟨m + 1, ?_⟩
  rw [hs]
  push_cast
  omega

/-- The account of a process that yields carries over. -/
lemma Account.expire (h : Account due p n) : Account due' (expire p) n := by
  have hle := h.slice_le
  by_cases hlt : p.sliceTicks < slice p.queue
  · rw [expire_of_lt hlt]
    exact { h with slice_lt := fun _ => hlt }
  have hused : p.sliceTicks = slice p.queue := by omega
  rw [expire_of_used hused]
  by_cases hq3 : p.queue < 3
  · exact h.demote hused hq3 (by simp [hq3]) rfl
  have hlow : p.queue = 3 := by
    have := h.queue_le
    omega
  exact h.restart hused hlow (by simp [hlow]) rfl

/-! ## What steps do to an account -/

/-- The process keeps its account, unless it goes. -/
structure Carried (p p' : Proc) : Prop where
  live : p'.live → p.live
  killed : p'.live → p'.killed = false → p.killed = false
  queue : p.live → p'.queue = p.queue
  slice : p.live → p'.sliceTicks = p.sliceTicks

/-- A slot that was free or had a zombie is freed. -/
lemma Carried.of_not_live (hp : ¬ p.live) (hp' : ¬ p'.live) : Carried p p' :=
  ⟨fun h => absurd h hp', fun h => absurd h hp', fun h => absurd h hp, fun h => absurd h hp⟩

lemma killProc_live : (killProc p).live ↔ p.live := by
  by_cases hs : p.state = .sleeping
  all_goals simp [Proc.live, killProc, hs]

/-- The critical section is a part of a timer trap that touches accounts. -/
def Label.timed : Label → Bool
  | .charge => true
  | .boost _ => true
  | .yield _ => true
  | _ => false

lemma Label.timed_of_uni (h : l.uni = true) : l.timed = false := by
  cases l <;> first | rfl | cases h

/-- Only the timer trap and an allocation touch an account. -/
lemma Move.carried (hk : Seated k) (hm : Move pol k l k') (hown : l.timed = false) (j : Slot)
    (hnew : l ≠ .allocproc j) : Carried (k.proc j) (k'.proc j) := by
  have he := hm.effect j
  generalize k'.proc j = p at he ⊢
  cases he with
  | same | clear _ | sleepPrepare _ _ | setParent _ | reparent =>
    exact ⟨id, fun _ => id, fun _ => rfl, fun _ => rfl⟩
  | dispatch hs | wake hs | ready hs =>
    exact ⟨fun _ => by simp [Proc.live, hs], fun _ => id, fun _ => rfl, fun _ => rfl⟩
  | sleep hon _ =>
    exact ⟨fun _ => by simp [Proc.live, hk.running hon], fun _ => id, fun _ => rfl, fun _ => rfl⟩
  | kkill _ => exact ⟨killProc_live.mp, by simp [killProc], fun _ => rfl, fun _ => rfl⟩
  | setkilled _ => exact ⟨id, fun _ h => (by cases h), fun _ => rfl, fun _ => rfl⟩
  | exit _ => exact ⟨fun h => absurd rfl h.2, fun h => absurd rfl h.2, fun _ => rfl, fun _ => rfl⟩
  | allocFail hs | collect hs =>
    exact Carried.of_not_live (by simp [Proc.live, hs]) (by simp [Proc.live, collectProc, freeproc])
  | allocproc _ => exact absurd rfl hnew
  | charge | boost _ | yield _ _ => cases hown

/-! ## What the clock interrupt does to an account -/

/-- The process is as live and as killed as before. -/
structure Persists (p p' : Proc) : Prop where
  live : p'.live ↔ p.live
  killed : p'.killed = p.killed

lemma Persists.refl (p : Proc) : Persists p p := ⟨Iff.rfl, rfl⟩

lemma Persists.trans (h : Persists p p') (h' : Persists p' p'') : Persists p p'' :=
  ⟨h'.live.trans h.live, h'.killed.trans h.killed⟩

/-- Everything the account of a process depends on is the same. -/
structure Untouched (p p' : Proc) : Prop extends Persists p p' where
  queue : p'.queue = p.queue
  slice : p'.sliceTicks = p.sliceTicks

lemma Untouched.refl (p : Proc) : Untouched p p := ⟨Persists.refl p, rfl, rfl⟩

lemma Untouched.trans (h : Untouched p p') (h' : Untouched p' p'') : Untouched p p'' :=
  ⟨h.toPersists.trans h'.toPersists, h'.queue.trans h.queue, h'.slice.trans h.slice⟩

lemma wakeup_untouched (pol : Policy) (chan : Nat) (k : KernelState) (j : Slot) :
    Untouched (k.proc j) ((wakeup pol chan k).proc j) := by
  refine sweep_relates (R := fun k k' : KernelState => Untouched (k.proc j) (k'.proc j))
    (fun _ => Untouched.refl _) (fun _ _ _ => Untouched.trans) ?_
  intro i k
  by_cases hji : j = i
  · subst hji
    rcases wakeupSlot_self pol chan j k with hn | ⟨-, hn⟩ | ⟨hs, n, hn⟩
    · rw [hn]
      exact Untouched.refl _
    · rw [hn]
      exact ⟨⟨Iff.rfl, rfl⟩, rfl, rfl⟩
    · rw [hn]
      exact ⟨⟨by simp [Proc.live, hs], rfl⟩, rfl, rfl⟩
  · rw [wakeupSlot_of_ne pol chan i k hji]
    exact Untouched.refl _

lemma boostSlot_persists (i j : Slot) (k : KernelState) :
    Persists (k.proc j) ((boostSlot i k).proc j) := by
  by_cases hji : j = i
  · subst hji
    by_cases hl : (k.proc j).live
    · rcases boostSlot_self_of_live j k hl with ⟨n, hn⟩
      rw [hn]
      exact ⟨Iff.rfl, rfl⟩
    · rw [boostSlot_of_not_live j k hl]
      exact Persists.refl _
  · rw [boostSlot_of_ne i k hji]
    exact Persists.refl _

lemma mlfqBoost_persists (k : KernelState) (j : Slot) :
    Persists (k.proc j) ((mlfqBoost k).proc j) :=
  sweep_relates (R := fun k k' : KernelState => Persists (k.proc j) (k'.proc j))
    (fun _ => Persists.refl _) (fun _ _ _ => Persists.trans) (fun i k => boostSlot_persists i j k)

/-- The process is at the beginning of the first queue, if there is one. -/
def Proc.atTop (p : Proc) : Prop := p.live → p.queue = 0 ∧ p.sliceTicks = 0

/-- After a boost every live process is at the beginning of the first queue. -/
lemma mlfqBoost_atTop (k : KernelState) (j : Slot) : ((mlfqBoost k).proc j).atTop := by
  refine sweep_establishes (P := fun k : KernelState => (k.proc j).atTop) j ?_ ?_
  · intro k hl
    rcases boostSlot_self_of_live j k ((boostSlot_persists j j k).live.mp hl) with ⟨n, hn⟩
    rw [hn]
    exact ⟨rfl, rfl⟩
  intro i k h hl
  have hl' : (k.proc j).live := (boostSlot_persists i j k).live.mp hl
  by_cases hji : j = i
  · subst hji
    rcases boostSlot_self_of_live j k hl' with ⟨n, hn⟩
    rw [hn]
    exact ⟨rfl, rfl⟩
  · rw [boostSlot_of_ne i k hji]
    exact h hl'

lemma chargeTick_current (h : k.cpu cpu0 = some j) :
    (chargeTick pol k).proc j = chargeProc pol (k.proc j) := by
  simp [chargeTick, h]

lemma chargeTick_other (pol : Policy) (h : k.cpu cpu0 ≠ some j) :
    Untouched (k.proc j) ((chargeTick pol k).proc j) := by
  simp only [chargeTick, if_neg h]
  split
  · exact ⟨⟨Iff.rfl, rfl⟩, rfl, rfl⟩
  · exact Untouched.refl _

lemma chargeTick_persists (pol : Policy) (k : KernelState) (j : Slot) :
    Persists (k.proc j) ((chargeTick pol k).proc j) := by
  by_cases hcur : k.cpu cpu0 = some j
  · rw [chargeTick_current hcur]
    exact ⟨Iff.rfl, rfl⟩
  · exact (chargeTick_other pol hcur).toPersists

lemma clockintr_of_boosts (hb : u.boosts) : clockintr .mlfq u.kernel =
    wakeup .mlfq ticksChan (mlfqBoost (chargeTick .mlfq u.kernel)) := by
  unfold clockintr
  exact congrArg _ (if_pos hb)

lemma clockintr_of_not_boosts (hb : ¬ u.boosts) :
    clockintr .mlfq u.kernel = wakeup .mlfq ticksChan (chargeTick .mlfq u.kernel) := by
  unfold clockintr
  exact congrArg _ (if_neg hb)

/-- The clock interrupt does not create, end or unkill a process. -/
lemma clockintr_persists (u : Uni) (j : Slot) :
    Persists (u.kernel.proc j) ((clockintr .mlfq u.kernel).proc j) := by
  have hcharge := chargeTick_persists .mlfq u.kernel j
  by_cases hb : u.boosts
  · rw [clockintr_of_boosts hb]
    exact (hcharge.trans (mlfqBoost_persists _ j)).trans (wakeup_untouched _ _ _ j).toPersists
  · rw [clockintr_of_not_boosts hb]
    exact hcharge.trans (wakeup_untouched _ _ _ j).toPersists

/-- An interrupt that boosts. -/
lemma clockintr_atTop (hb : u.boosts) (j : Slot) : ((clockintr .mlfq u.kernel).proc j).atTop := by
  rw [clockintr_of_boosts hb]
  intro hl
  have h := wakeup_untouched .mlfq ticksChan (mlfqBoost (chargeTick .mlfq u.kernel)) j
  rw [h.queue, h.slice]
  exact mlfqBoost_atTop _ j (h.live.mp hl)

/-- An interrupt that does not boost: the running process is charged. -/
lemma clockintr_charges (hb : ¬ u.boosts) (hcur : u.current = some j) :
    ((clockintr .mlfq u.kernel).proc j).queue = (u.kernel.proc j).queue ∧
      ((clockintr .mlfq u.kernel).proc j).sliceTicks = (u.kernel.proc j).sliceTicks + 1 := by
  rw [clockintr_of_not_boosts hb]
  have h := wakeup_untouched .mlfq ticksChan (chargeTick .mlfq u.kernel) j
  rw [h.queue, h.slice, chargeTick_current hcur]
  exact ⟨rfl, rfl⟩

/-- An interrupt that does not boost: the others are not charged. -/
lemma clockintr_spares (hb : ¬ u.boosts) (hcur : u.current ≠ some j) :
    Untouched (u.kernel.proc j) ((clockintr .mlfq u.kernel).proc j) := by
  rw [clockintr_of_not_boosts hb]
  exact (chargeTick_other .mlfq hcur).trans (wakeup_untouched .mlfq ticksChan _ j)

/-! ## The invariant -/

/-- Every live process that has not been killed has its account in order. -/
def Ledger (u : Uni) (charged : Slot → Nat) : Prop :=
  ∀ i, (u.kernel.proc i).live → (u.kernel.proc i).killed = false →
    Account (u.due i) (u.kernel.proc i) (charged i)

lemma Ledger.boot : Ledger (Uni.boot .mlfq) (fun _ => 0) := by
  intro i hl _
  change (Kernel.boot .mlfq).proc i |>.live at hl
  change Account _ ((Kernel.boot .mlfq).proc i) _
  rcases boot_proc .mlfq i with ⟨-, hp⟩ | ⟨-, n, hp⟩
  · rw [hp] at hl
    exact absurd rfl hl.1
  · rw [hp]
    exact Account.fresh rfl rfl

variable {u u' : Uni} {charged : Slot → Nat} {s : Counted} {ls : List UniLabel}

lemma not_due_of_ready (hready : u.timer = false) (i : Slot) : ¬ u.due i := by
  intro hd
  rw [Uni.due, hready] at hd
  cases hd.1

lemma Ledger.clockintr (h : Ledger u charged) (hready : u.timer = false) :
    Ledger ⟨Kernel.clockintr .mlfq u.kernel, u.current.isSome⟩ (tally u charged .clockintr) := by
  intro i hl hk
  dsimp only at hl hk ⊢
  have hpersists := clockintr_persists u i
  have hacc := h i (hpersists.live.mp hl) (hpersists.killed.symm.trans hk)
  have hnot := not_due_of_ready hready i
  by_cases hb : u.boosts
  · -- the boost comes after the charge of the same interrupt
    have htop := clockintr_atTop hb i hl
    have hcount : tally u charged .clockintr i = 0 := if_pos hb
    rw [hcount]
    exact Account.fresh htop.1 htop.2
  by_cases hcur : u.current = some i
  · have hcharge := clockintr_charges hb hcur
    have hcount : tally u charged .clockintr i = charged i + 1 := by
      simp [tally, hb, hcur]
    rw [hcount]
    refine hacc.charge hnot hcharge.1 hcharge.2 ⟨by simp [hcur], ?_⟩
    rw [Uni.current, clockintr_cpu]
    exact hcur
  · have hspare := clockintr_spares hb hcur
    have hcount : tally u charged .clockintr i = charged i := by
      simp [tally, hb, hcur]
    rw [hcount]
    exact hacc.congr hspare.queue hspare.slice (fun hd => absurd hd hnot)

lemma Ledger.yield (h : Ledger u charged) (hk : Seated u.kernel) (hdue : u.due j) :
    Ledger ⟨(yieldProc .mlfq j u.kernel).vacate cpu0, false⟩ charged := by
  intro i hl hkill
  rw [vacate_proc] at hl hkill ⊢
  by_cases hij : i = j
  · subst hij
    -- the process that yields was running, so its account was in order
    have hlive : (u.kernel.proc i).live := by simp [Proc.live, hk.running hdue.2]
    rw [yieldProc_mlfq_self] at hkill ⊢
    have hkill' : (u.kernel.proc i).killed = false := by
      rw [← expire_killed]
      exact hkill
    exact (h i hlive hkill').expire.congr rfl rfl id
  · rw [yieldProc_of_ne _ _ _ hij] at hl hkill ⊢
    refine (h i hl hkill).congr rfl rfl ?_
    intro hd
    exact absurd (Option.some.inj (hd.2.symm.trans hdue.2)) hij

/-- A process that has been killed leaves the timer trap without `yield`. -/
lemma Ledger.killedTrap (h : Ledger u charged) (hdue : u.due j)
    (hkilled : (u.kernel.proc j).killed = true) : Ledger { u with timer := false } charged := by
  intro i hl hkill
  refine (h i hl hkill).congr rfl rfl ?_
  intro hd
  -- the only process that loses its excuse is the killed one
  have hij : i = j := Option.some.inj (hd.2.symm.trans hdue.2)
  subst hij
  rw [hkilled] at hkill
  cases hkill

lemma Ledger.critical (h : Ledger u charged) (hk : Seated u.kernel) (hready : u.timer = false)
    (hown : l.uni = true) (hm : Move .mlfq u.kernel l k) :
    Ledger ⟨k, false⟩ (tally u charged (.critical l)) := by
  intro i hl hkill
  by_cases hnew : l = .allocproc i
  · subst hnew
    cases hm with
    | allocproc _ =>
      have hcount : tally u charged (.critical (.allocproc i)) i = 0 := by simp [tally]
      rw [hcount]
      apply Account.fresh
      all_goals simp [Kernel.allocproc]
  have hcarried := hm.carried hk (Label.timed_of_uni hown) i hnew
  have hcount : tally u charged (.critical l) i = charged i := by
    cases l with
    | allocproc j =>
      have hij : i ≠ j := by
        rintro rfl
        exact hnew rfl
      simp [tally, hij]
    | _ => rfl
  have hlive := hcarried.live hl
  rw [hcount]
  exact (h i hlive (hcarried.killed hl hkill)).congr (hcarried.queue hlive)
    (hcarried.slice hlive) (fun hd => absurd hd (not_due_of_ready hready i))

lemma Ledger.step {l : UniLabel} (h : Ledger u charged) (hk : Seated u.kernel)
    (hm : UniMove .mlfq u l u') : Ledger u' (tally u charged l) := by
  cases hm with
  | clockintr hready => exact h.clockintr hready
  | yield hdue => exact h.yield hk hdue
  | killedTrap hdue hkilled => exact h.killedTrap hdue hkilled
  | critical hready hown htaken => exact h.critical hk hready hown (Move.of_step htaken)

/-- In every reachable state all accounts are in order. -/
lemma Ledger.of_run (h : Run Counted.step anyStep Counted.boot ls s) :
    Seated s.uni.kernel ∧ Ledger s.uni s.charged := by
  refine h.invariant (fun s => Seated s.uni.kernel ∧ Ledger s.uni s.charged)
    ⟨Seated.boot, Ledger.boot⟩ ?_
  intro l s s' _ hs hinv
  obtain ⟨u, hu, rfl⟩ := Option.map_eq_some_iff.mp hs
  have hm := UniMove.of_step hu
  exact ⟨hinv.1.uniStep hm, hinv.2.step hinv.1 hm⟩

/-! ## Demotion -/

/-- The step is the `yield` with which `i` ends a slice it has used up. -/
def endsSlice (u : Uni) (l : UniLabel) (i : Slot) : Prop :=
  l = .yield ∧ u.current = some i ∧ (u.kernel.proc i).sliceTicks = slice (u.kernel.proc i).queue

/-- The process goes down a queue exactly when it ends a used-up slice above the
lowest queue, and `slice_ticks` goes down only when it ends a used-up slice. -/
structure SliceLaw (u u' : Uni) (l : UniLabel) (i : Slot) : Prop where
  queue_iff : (u'.kernel.proc i).queue ≠ (u.kernel.proc i).queue ↔
    endsSlice u l i ∧ (u.kernel.proc i).queue < 3
  refund : (u'.kernel.proc i).sliceTicks < (u.kernel.proc i).sliceTicks → endsSlice u l i

/-- A step that takes nothing away. -/
lemma SliceLaw.of_same {l : UniLabel} (hnot : ¬ endsSlice u l i)
    (hq : (u'.kernel.proc i).queue = (u.kernel.proc i).queue)
    (hs : (u.kernel.proc i).sliceTicks ≤ (u'.kernel.proc i).sliceTicks) : SliceLaw u u' l i := by
  constructor
  · constructor
    · intro hne
      exact absurd hq hne
    · intro h
      exact absurd h.1 hnot
  · intro hlt
    omega

lemma SliceLaw.yield (hacc : Account due (u.kernel.proc i) n) (hcur : u.current = some i)
    (hp : u'.kernel.proc i =
      { expire (u.kernel.proc i) with state := .runnable, sequence := u.kernel.next }) :
    SliceLaw u u' .yield i := by
  have hle := hacc.slice_le
  by_cases hlt : (u.kernel.proc i).sliceTicks < slice (u.kernel.proc i).queue
  · rw [expire_of_lt hlt] at hp
    apply SliceLaw.of_same
    · intro hends
      have := hends.2.2
      omega
    all_goals rw [hp]
  have hused : (u.kernel.proc i).sliceTicks = slice (u.kernel.proc i).queue := by omega
  have hends : endsSlice u .yield i := ⟨rfl, hcur, hused⟩
  rw [expire_of_used hused] at hp
  constructor
  · constructor
    · intro hne
      refine ⟨hends, ?_⟩
      by_contra hlow
      rw [hp] at hne
      exact hne (if_neg hlow)
    · intro h
      rw [hp]
      simp [h.2]
  · intro _
    exact hends

/-- Every step obeys the law for every live process, boosts apart. -/
lemma UniMove.sliceLaw {l : UniLabel} (hm : UniMove .mlfq u l u') (hk : Seated u.kernel)
    (hlive : (u.kernel.proc i).live) (hacc : Account due (u.kernel.proc i) n)
    (hb : ¬ (l = .clockintr ∧ u.boosts)) : SliceLaw u u' l i := by
  cases hm with
  | clockintr _ =>
    have hb' : ¬ u.boosts := fun h => hb ⟨rfl, h⟩
    have hnot : ¬ endsSlice u .clockintr i := fun h => by cases h.1
    by_cases hcur : u.current = some i
    · have hcharge := clockintr_charges hb' hcur
      exact SliceLaw.of_same hnot hcharge.1 (by dsimp only; omega)
    · have hspare := clockintr_spares hb' hcur
      exact SliceLaw.of_same hnot hspare.queue hspare.slice.ge
  | @yield j hdue =>
    by_cases hij : i = j
    · subst hij
      exact SliceLaw.yield hacc hdue.2 (yieldProc_mlfq_self i u.kernel)
    have hp := yieldProc_of_ne .mlfq j u.kernel hij
    apply SliceLaw.of_same
    · intro hends
      exact hij (Option.some.inj (hends.2.1.symm.trans hdue.2))
    all_goals rw [vacate_proc, hp]
  | killedTrap _ _ =>
    have hnot : ¬ endsSlice u .killedTrap i := fun h => by cases h.1
    exact SliceLaw.of_same hnot rfl le_rfl
  | @critical l k _ hown htaken =>
    have hnot : ¬ endsSlice u (.critical l) i := fun h => by cases h.1
    have hmove := Move.of_step htaken
    have hnew : l ≠ .allocproc i := by
      rintro rfl
      cases hmove with
      | allocproc hfree => exact hlive.1 hfree
    have hcarried := hmove.carried hk (Label.timed_of_uni hown) i hnew
    exact SliceLaw.of_same hnot (hcarried.queue hlive) (hcarried.slice hlive).ge

/-- **The MLFQ kernel accounts for every tick.** In every state reached on one
CPU, for every live process that has not been killed: `queue` is one of the
four queues and `slice_ticks` is within its slice, and below it unless the
process has just been interrupted by the clock and has not yielded yet; the
ticks charged since the allocation or the last boost are the slices of the
queues above and `slice_ticks`, and in the lowest queue whole slices more. A
step demotes the process exactly if it is the `yield` that ends a used-up slice
above the lowest queue, and no other step takes ticks back, boosts apart. -/
theorem mlfq_accounting {ls : List UniLabel} {s : Counted}
    (hrun : Run Counted.step anyStep Counted.boot ls s) (i : Slot)
    (hlive : (s.proc i).live) (hkilled : (s.proc i).killed = false) :
    (0 ≤ (s.proc i).queue ∧ (s.proc i).queue ≤ 3) ∧
    ((s.proc i).sliceTicks ≤ slice (s.proc i).queue ∧
      (¬ (s.uni.timer = true ∧ s.uni.current = some i) →
        (s.proc i).sliceTicks < slice (s.proc i).queue)) ∧
    ((s.proc i).queue < 3 →
      (s.charged i : Int) = (slices.take (s.proc i).queue.toNat).sum + (s.proc i).sliceTicks) ∧
    ((s.proc i).queue = 3 → ∃ m : Nat, (s.charged i : Int) - 11 - (s.proc i).sliceTicks = 16 * m) ∧
    ∀ l s', Counted.step l s = some s' → ¬ (l = .clockintr ∧ s.uni.boosts) →
      ((s'.proc i).queue ≠ (s.proc i).queue ↔
        (l = .yield ∧ s.uni.current = some i ∧
          (s.proc i).sliceTicks = slice (s.proc i).queue) ∧ (s.proc i).queue < 3) ∧
      ((s'.proc i).sliceTicks < (s.proc i).sliceTicks →
        l = .yield ∧ s.uni.current = some i ∧
          (s.proc i).sliceTicks = slice (s.proc i).queue) := by
  obtain ⟨hseated, hledger⟩ := Ledger.of_run hrun
  have hacc := hledger i hlive hkilled
  refine ⟨⟨hacc.queue_nonneg, hacc.queue_le⟩, ⟨hacc.slice_le, hacc.slice_lt⟩, hacc.upper,
    hacc.lowest, ?_⟩
  intro l s' hs hb
  obtain ⟨u, hu, rfl⟩ := Option.map_eq_some_iff.mp hs
  have hlaw := (UniMove.of_step hu).sliceLaw hseated hlive hacc hb
  exact ⟨hlaw.queue_iff, hlaw.refund⟩

/-- The first process after its first slice and half of its second. -/
theorem mlfq_accounting_half_slice :
    ∃ ls s, Run Counted.step anyStep Counted.boot ls s ∧
      (s.proc initproc).queue = 1 ∧ (s.proc initproc).sliceTicks = 1 ∧
      (s.charged initproc : Int) = (slices.take 1).sum + 1 := by
  refine ⟨[.critical (.dispatch 0 0), .clockintr, .yield,
    .critical (.dispatch 0 0), .clockintr, .yield], Run.exists_imp (P := fun s =>
      (s.proc initproc).live ∧ (s.proc initproc).killed = false ∧ (s.proc initproc).queue = 1 ∧
      (s.proc initproc).sliceTicks = 1) (by decide +kernel) ?_⟩
  rintro s hrun ⟨hlive, hkilled, hq, hs⟩
  have hacc := mlfq_accounting hrun initproc hlive hkilled
  refine ⟨hq, hs, ?_⟩
  have hcount := hacc.2.2.1 (by omega)
  rw [hq, hs] at hcount
  exact hcount

end CshellXv6.Kernel
