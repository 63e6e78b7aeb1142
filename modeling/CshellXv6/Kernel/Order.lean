import CshellXv6.Kernel.Machine
import CshellXv6.Lib.Tickets

/-! # Sequence numbers

Under MLFQ and FCFS the processes that have been made RUNNABLE and have not
exited hold tickets: their sequence numbers. A process draws one when it is
forked, woken or boosted, and under MLFQ also when it yields; it keeps the one
it has when it is killed in its sleep, and under FCFS when it yields.
-/

namespace CshellXv6.Kernel

open Lib

/-- The tickets of the processes. `enqueues` counts without bound, so they are
the sequence numbers as long as `next` has not wrapped around. -/
def tickets (k : KernelState) : Tickets Slot where
  holds := fun i => (k.proc i).queued
  ticket := fun i => (k.proc i).sequence
  next := k.enqueues

/-- A step that draws no number, at slot `j`: a process that is in a queue has been in
one with the same number, and one that becomes RUNNABLE has been killed in its sleep
or yields under FCFS. -/
structure Stays (pol : Policy) (l : Label) (j : Slot) (p p' : Proc) : Prop where
  same : p'.queued → p.queued ∧ p'.sequence = p.sequence
  ready : p'.state = .runnable → p.state = .runnable ∨
    (p.state = .sleeping ∧ ∃ pid, l = .kkill pid j) ∨ (pol ≠ .mlfq ∧ ∃ c, l = .yield c)

/-- What a step does to the queues. Either no number is drawn, or one process becomes
RUNNABLE, or is boosted, and draws the next number. -/
inductive Shift (pol : Policy) (l : Label) (k k' : KernelState) : Prop where
  | keep (next : k'.next = k.next) (count : k'.enqueues = k.enqueues)
      (stays : ∀ j, Stays pol l j (k.proc j) (k'.proc j))
  | draw (i : Slot) (next : k'.next = inc64 k.next) (count : k'.enqueues = k.enqueues + 1)
      (own : (k'.proc i).sequence = k.next) (ready : (k'.proc i).state = .runnable)
      (others : ∀ j, j ≠ i → k'.proc j = k.proc j)
      (cause : (k.proc i).state ≠ .runnable ∨ l = .boost i)

section

variable {pol : Policy} {l : Label} {k k' : KernelState} {i j : Slot} {p p' : Proc}
  {f : Proc → Proc} {c : CpuId} {ls : List Label}

lemma Stays.of_eq (hstate : p'.state = p.state) (hseq : p'.sequence = p.sequence) :
    Stays pol l j p p' := by
  constructor
  · rw [Proc.queued, hstate]
    exact fun h => ⟨h, hseq⟩
  · rw [hstate]
    exact .inl

lemma Stays.of_not_queued (hnot : ¬ p'.queued) : Stays pol l j p p' :=
  ⟨fun h => absurd h hnot, fun h => absurd (.inl h) hnot⟩

/-- One slot changes and no number is drawn. -/
lemma Shift.modify (h : Stays pol l i (k.proc i) (f (k.proc i))) :
    Shift pol l k (k.modify i f) := by
  refine .keep rfl rfl (forall_of_slot (P := fun j => Stays pol l j (k.proc j))
    (fun j hj => modify_proc_of_ne k f hj) (fun j => .of_eq rfl rfl) ?_)
  rw [modify_proc_self]
  exact h

lemma Shift.boost (i : Slot) : Shift pol (.boost i) k (boostSlot i k) := by
  unfold boostSlot
  split
  · dsimp only
    split
    next hrun =>
      refine .draw i rfl rfl ?_ ?_ ?_ (.inr rfl)
      · rw [enqueueLocked_self]
        rfl
      · rw [enqueueLocked_self]
        exact hrun
      · intro j hj
        rw [enqueueLocked_of_ne i _ hj, modify_proc_of_ne k _ hj]
    · exact Shift.modify (.of_eq rfl rfl)
  · exact .keep rfl rfl (fun j => .of_eq rfl rfl)

lemma Shift.wakeup (hpol : pol ≠ .rr) (chan : Nat) (i : Slot) :
    Shift pol (.wakeup chan i) k (wakeupSlot pol chan i k) := by
  unfold wakeupSlot
  split
  · dsimp only
    split
    next hs =>
      rw [modify_proc_self] at hs
      rw [enqueueIfOrdered_eq _ _ _ hpol]
      refine .draw i rfl rfl ?_ ?_ ?_ (.inl (by rw [hs]; decide))
      · rw [enqueueLocked_self]
        rfl
      · rw [enqueueLocked_self, modify_proc_self]
      · intro j hj
        rw [enqueueLocked_of_ne i _ hj, modify_proc_of_ne _ _ hj, modify_proc_of_ne k _ hj]
    · exact Shift.modify (.of_eq rfl rfl)
  · exact .keep rfl rfl (fun j => .of_eq rfl rfl)

lemma Shift.yield (hpol : pol ≠ .rr) (hrun : (k.proc i).state = .running) :
    Shift pol (.yield c) k ((yieldProc pol i k).vacate c) := by
  cases pol with
  | rr => exact absurd rfl hpol
  | fcfs =>
    -- the running process keeps the number it was dispatched with
    refine .keep rfl rfl (forall_of_slot (P := fun j => Stays .fcfs (.yield c) j (k.proc j))
      (fun j hj => yieldProc_of_ne .fcfs i k hj) (fun j => .of_eq rfl rfl) ?_)
    refine ⟨fun _ => ⟨.inr (.inl hrun), ?_⟩, fun _ => .inr (.inr ⟨by decide, c, rfl⟩)⟩
    simp [yieldProc]
  | mlfq =>
    refine .draw i rfl rfl ?_ ?_ ?_ (.inl (by rw [hrun]; decide))
    · rw [vacate_proc, yieldProc_mlfq_self]
    · rw [vacate_proc, yieldProc_mlfq_self]
    · intro j hj
      rw [vacate_proc, yieldProc_of_ne .mlfq i k hj]

lemma Shift.ready (hpol : pol ≠ .rr) (hused : (k.proc i).state = .used) :
    Shift pol (.ready i) k (makeRunnable pol i k) := by
  refine .draw i ?_ ?_ ?_ ?_ (fun j hj => makeRunnable_of_ne pol i k hj)
    (.inl (by rw [hused]; decide))
  · rw [makeRunnable, enqueueIfOrdered_eq _ _ _ hpol]
    rfl
  · rw [makeRunnable, enqueueIfOrdered_eq _ _ _ hpol]
    rfl
  · rw [makeRunnable, enqueueIfOrdered_eq _ _ _ hpol, modify_proc_self, enqueueLocked_self]
  · rw [makeRunnable, modify_proc_self]

/-- The steps that put a process into a queue. -/
def Label.enqueues : Label → Bool
  | .boost _ | .wakeup _ _ | .yield _ | .ready _ => true
  | _ => false

lemma Effect.stays (he : Effect k j l p) (hk : Seated k) (hl : l.enqueues = false) :
    Stays pol l j (k.proc j) p := by
  cases he with
  | same | charge | sleepPrepare | setkilled | setParent | reparent => exact .of_eq rfl rfl
  | boost | clear | wake | yield | ready => cases hl
  | dispatch hrun => exact ⟨fun _ => ⟨.inl hrun, rfl⟩, fun _ => .inl hrun⟩
  | sleep hon => exact ⟨fun _ => ⟨.inr (.inl (hk.running hon)), rfl⟩, nofun⟩
  | @kkill pid =>
    by_cases hs : (k.proc j).state = .sleeping
    · exact ⟨fun _ => ⟨.inr (.inr hs), rfl⟩, fun _ => .inr (.inl ⟨hs, pid, rfl⟩)⟩
    · exact .of_eq (if_neg hs) rfl
  -- an allocated slot has the number 0, but is not in a queue yet
  | allocproc =>
    apply Stays.of_not_queued
    simp [Kernel.allocproc, Proc.queued]
  | allocFail | exit | collect =>
    apply Stays.of_not_queued
    simp [exitProc, collectProc, freeproc, Proc.queued]

/-- Every step of the MLFQ and of the FCFS kernel is a shift. -/
lemma Move.shift (hpol : pol ≠ .rr) (hk : Seated k) (hm : Move pol k l k') : Shift pol l k k' := by
  have hstays : l.enqueues = false → ∀ j, Stays pol l j (k.proc j) (k'.proc j) :=
    fun hl j => (hm.effect j).stays hk hl
  cases hm with
  | @boost i _ => exact Shift.boost i
  | @wakeup chan i => exact Shift.wakeup hpol chan i
  | yield hon => exact Shift.yield hpol (hk.running hon)
  | ready hused => exact Shift.ready hpol hused
  | dispatch | charge | sleepPrepare | sleep | kkill | setkilled | allocproc | allocFail
    | setParent | reparent | exit | collect => exact .keep rfl rfl (hstays rfl)

/-! ## Tickets are unique -/

/-- Sequence numbers are tickets, up to the first wrap of `next`. -/
structure Ordered (k : KernelState) : Prop where
  next_eq : k.next = k.enqueues % 2 ^ 64
  valid : k.enqueues < 2 ^ 64 → (tickets k).Valid

/-- The kernel refines the ticket counter. -/
lemma Shift.refines (hs : Shift pol l k k') (hnext : k.next = k.enqueues % 2 ^ 64)
    (hlt : k.enqueues < 2 ^ 64) : Tickets.Step (tickets k) (tickets k') := by
  cases hs with
  | keep _ count stays => exact .keep count (fun j _ hj => (stays j).same hj)
  | draw i _ count own _ others _ =>
    refine .draw i count ?_ ?_
    · rw [Nat.mod_eq_of_lt hlt] at hnext
      exact own.trans hnext
    intro j hj hold
    have hsame : k'.proc j = k.proc j := others j hj
    have hold' : (k'.proc j).queued := hold
    rw [hsame] at hold'
    exact ⟨hold', congrArg Proc.sequence hsame⟩

lemma Shift.enqueues_le (hs : Shift pol l k k') : k.enqueues ≤ k'.enqueues := by
  cases hs with
  | keep _ count _ => exact count.ge
  | draw _ _ count _ _ _ _ => omega

lemma Ordered.step (h : Ordered k) (hs : Shift pol l k k') : Ordered k' := by
  constructor
  · -- `next` wraps around where `enqueues` does modulo `2 ^ 64`
    have hnext := h.next_eq
    cases hs with
    | keep next count _ => rw [next, count, hnext]
    | draw _ next count _ _ _ _ => rw [next, count, hnext, inc64, Nat.mod_add_mod]
  · intro hlt
    have hlt' : k.enqueues < 2 ^ 64 := lt_of_le_of_lt hs.enqueues_le hlt
    exact (h.valid hlt').step (hs.refines h.next_eq hlt')

lemma Ordered.boot (hpol : pol ≠ .rr) : Ordered (boot pol) := by
  -- `userinit` is an allocation followed by the end of a fork
  have hstart : Ordered procinit := by
    constructor
    · rfl
    intro _
    have hnot : ∀ i, ¬ (tickets procinit).holds i := by
      intro i h
      rcases h with h | h | h <;> cases h
    exact ⟨fun i hi => absurd hi (hnot i), fun i j hi _ => absurd hi (hnot i)⟩
  have hseated : Seated procinit := by
    constructor
    · intro c i h
      cases h
    · intro c d i h
      cases h
  have halloc : Shift pol (.allocproc initproc) procinit (allocproc initproc procinit) :=
    (Move.allocproc rfl).shift hpol hseated
  have hready : Shift pol (.ready initproc) (allocproc initproc procinit) (Kernel.boot pol) :=
    Shift.ready hpol (by simp [Kernel.allocproc])
  exact (hstart.step halloc).step hready

/-- In every reachable state sequence numbers are tickets. -/
lemma Ordered.of_run (hpol : pol ≠ .rr)
    (h : Run (Kernel.step pol) anyStep (Kernel.boot pol) ls k) : Ordered k := by
  have hinv : Seated k ∧ Ordered k := by
    refine h.invariant (fun k => Seated k ∧ Ordered k) ⟨Seated.boot, Ordered.boot hpol⟩ ?_
    intro l k k' _ hs hk
    have hm := Move.of_step hs
    exact ⟨hk.1.step hm, hk.2.step (hm.shift hpol hk.1)⟩
  exact hinv.2

end

end CshellXv6.Kernel
