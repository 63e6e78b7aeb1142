import CshellXv6.Kernel.Order

/-! # The scan of the scheduler

`scheduler` looks for the process to run next with a running minimum: it
acquires the lock of each slot in turn, keeps the lock of the best candidate so
far, and releases all others. The MLFQ scheduler makes one such pass for each
queue, from the first queue down, until it has found a process; the FCFS
scheduler makes a single pass.

The model follows the set of process locks that the scanning CPU holds. An
`acquire` of a lock it already holds and a `release` of one it does not hold
panic, so the scan then has no result.
-/

namespace CshellXv6.Kernel

open Lib List Option

/-! ## The code -/

/-- `acquire(&p->lock)`; `panic("acquire")` if this CPU holds it already. -/
def acquire (i : Slot) (held : Finset Slot) : Option (Finset Slot) :=
  if i ∈ held then none else some (insert i held)

/-- `release(&p->lock)`; `panic("release")` if this CPU does not hold it. -/
def release (i : Slot) (held : Finset Slot) : Option (Finset Slot) :=
  if i ∈ held then some (held.erase i) else none

/-- `selected`, `selected_seq` and the locks held. -/
structure Scan where
  selected : Option Slot
  selectedSeq : Nat
  held : Finset Slot

/-- `if (selected != 0) release(&selected->lock)`. -/
def releaseSelected (s : Scan) (held : Finset Slot) : Option (Finset Slot) :=
  match s.selected with
  | some j => release j held
  | none => some held

/-- The body of the loop over the slots, for processes that pass `test`. -/
def scanSlot (test : Proc → Bool) (k : KernelState) (s : Scan) (i : Slot) : Option Scan :=
  (acquire i s.held).bind fun held =>
    if test (k.proc i) = true ∧ (k.proc i).sequence < s.selectedSeq then
      (releaseSelected s held).map fun held => ⟨some i, (k.proc i).sequence, held⟩
    else (release i held).map fun held => { s with held := held }

/-- The loop over the slots. -/
def scanTable (test : Proc → Bool) (k : KernelState) (held : Finset Slot) : Option Scan :=
  (List.finRange 64).foldlM (scanSlot test k) ⟨none, 2 ^ 64 - 1, held⟩

/-- `p->state == RUNNABLE`. -/
def runnableTest (p : Proc) : Bool := p.state = .runnable

/-- `p->state == RUNNABLE && p->queue == queue`. -/
def queueTest (queue : Int) (p : Proc) : Bool := p.state = .runnable ∧ p.queue = queue

/-- The loop over the queues, which ends when a process is found. -/
def scanQueues (k : KernelState) : List Int → Finset Slot → Option (Option Slot × Finset Slot)
  | [], held => some (none, held)
  | q :: qs, held =>
    (scanTable (queueTest q) k held).bind fun s =>
      match s.selected with
      | some i => some (some i, s.held)
      | none => scanQueues k qs s.held

/-- The round-robin loop up to the first RUNNABLE process. -/
def scanFirst (k : KernelState) : List Slot → Finset Slot → Option (Option Slot × Finset Slot)
  | [], held => some (none, held)
  | i :: is, held =>
    (acquire i held).bind fun held =>
      if (k.proc i).state = .runnable then some (some i, held)
      else (release i held).bind (scanFirst k is)

/-- The process a scheduler with no process lock chooses, and the locks it then
holds. -/
def select : Policy → KernelState → Option (Option Slot × Finset Slot)
  | .mlfq, k => scanQueues k [0, 1, 2, 3] ∅
  | .fcfs, k => (scanTable runnableTest k ∅).map fun s => (s.selected, s.held)
  | .rr, k => scanFirst k (List.finRange 64) ∅

/-- One round of the loop of `scheduler` on CPU `c`, up to `swtch` or `wfi`, and
the process locks held there. -/
def schedulerRound (pol : Policy) (c : CpuId) (k : KernelState) :
    Option (KernelState × Finset Slot) :=
  (select pol k).map fun r =>
    match r with
    | (some i, held) => (switchTo c i k, held)
    | (none, held) => (k, held)

/-! ## The pass over the slots -/

section

variable {test : Proc → Bool} {k : KernelState} {done : List Slot} {s : Scan} {i : Slot}

/-- The loop invariant: exactly the lock of the selected process is held, and
none of the slots in `done` has a candidate with a smaller number. -/
structure Scanned (test : Proc → Bool) (k : KernelState) (done : List Slot) (s : Scan) : Prop where
  held : s.held = s.selected.toFinset
  chosen : ∀ i, s.selected = some i →
    i ∈ done ∧ test (k.proc i) = true ∧ (k.proc i).sequence = s.selectedSeq
  least : ∀ j ∈ done, test (k.proc j) = true → s.selectedSeq ≤ (k.proc j).sequence
  empty : s.selected = none → s.selectedSeq = 2 ^ 64 - 1

lemma Scanned.start (test : Proc → Bool) (k : KernelState) :
    Scanned test k [] ⟨none, 2 ^ 64 - 1, ∅⟩ := by
  constructor
  · rfl
  · intro i h
    cases h
  · intro j hj
    cases hj
  · intro _
    rfl

/-- The selected lock is the lock of a slot already visited. -/
lemma Scanned.not_mem_held (h : Scanned test k done s) (hi : i ∉ done) : i ∉ s.held := by
  rw [h.held]
  intro hmem
  exact hi (h.chosen i (Option.mem_toFinset.mp hmem)).1

/-- The new candidate is better: its lock takes the place of the old one. -/
lemma Scanned.take (h : Scanned test k done s) (hi : i ∉ done) (htest : test (k.proc i) = true)
    (hlt : (k.proc i).sequence < s.selectedSeq) :
    ∃ s', scanSlot test k s i = some s' ∧ Scanned test k (done ++ [i]) s' := by
  have hnot := h.not_mem_held hi
  -- two locks are held for a moment, of different slots
  have hrelease : releaseSelected s (insert i s.held) = some {i} := by
    rw [releaseSelected]
    split
    next j hj =>
      have hji : i ≠ j := by
        rintro rfl
        exact hi (h.chosen i hj).1
      rw [h.held, hj, release]
      simp [Finset.erase_insert_of_ne hji]
    next hnone =>
      rw [h.held, hnone]
      rfl
  refine ⟨⟨some i, (k.proc i).sequence, {i}⟩, ?_, ?_⟩
  · rw [scanSlot, acquire, if_neg hnot, bind_some, if_pos ⟨htest, hlt⟩, hrelease]
    rfl
  constructor
  · rfl
  · intro j hj
    cases hj
    exact ⟨by simp, htest, rfl⟩
  · intro j hj htj
    rcases mem_append.mp hj with hj | hj
    · exact hlt.le.trans (h.least j hj htj)
    · rw [mem_singleton.mp hj]
  · intro hnone
    cases hnone

/-- The new slot has no better candidate: its lock is released again. -/
lemma Scanned.skip (h : Scanned test k done s) (hi : i ∉ done)
    (hno : ¬ (test (k.proc i) = true ∧ (k.proc i).sequence < s.selectedSeq)) :
    ∃ s', scanSlot test k s i = some s' ∧ Scanned test k (done ++ [i]) s' := by
  have hnot := h.not_mem_held hi
  have hrelease : release i (insert i s.held) = some s.held := by
    rw [release, if_pos (Finset.mem_insert_self i s.held), Finset.erase_insert hnot]
  refine ⟨s, ?_, ?_⟩
  · rw [scanSlot, acquire, if_neg hnot, bind_some, if_neg hno, hrelease]
    rfl
  constructor
  · exact h.held
  · intro j hj
    obtain ⟨hmem, hrest⟩ := h.chosen j hj
    exact ⟨mem_append_left _ hmem, hrest⟩
  · intro j hj htj
    rcases mem_append.mp hj with hj | hj
    · exact h.least j hj htj
    rw [mem_singleton.mp hj] at htj ⊢
    by_contra hlt
    exact hno ⟨htj, by omega⟩
  · exact h.empty

/-- The rest of the loop, by induction on the slots still to visit. -/
lemma Scanned.run (h : Scanned test k done s) (l : List Slot) (hnodup : (done ++ l).Nodup) :
    ∃ s', l.foldlM (scanSlot test k) s = some s' ∧ Scanned test k (done ++ l) s' := by
  induction l generalizing done s with
  | nil => exact ⟨s, rfl, by simpa using h⟩
  | cons i l ih =>
    have hi : i ∉ done := by
      intro hmem
      exact (nodup_append.mp hnodup).2.2 i hmem i (by simp) rfl
    have hstep : ∃ s', scanSlot test k s i = some s' ∧ Scanned test k (done ++ [i]) s' := by
      by_cases hbetter : test (k.proc i) = true ∧ (k.proc i).sequence < s.selectedSeq
      · exact h.take hi hbetter.1 hbetter.2
      · exact h.skip hi hbetter
    rcases hstep with ⟨s', hs', h'⟩
    rcases ih h' (by simpa using hnodup) with ⟨s'', hs'', h''⟩
    refine ⟨s'', ?_, by simpa using h''⟩
    rw [foldlM_cons, hs']
    exact hs''

/-- A pass finds a candidate with the least number, if there is a candidate. -/
lemma scanTable_spec (test : Proc → Bool)
    (hbound : ∀ j, test (k.proc j) = true → (k.proc j).sequence < 2 ^ 64 - 1) :
    ∃ s, scanTable test k ∅ = some s ∧ s.held = s.selected.toFinset ∧
      (s.selected = none → ∀ j, test (k.proc j) = false) ∧
      ∀ i, s.selected = some i → test (k.proc i) = true ∧
        ∀ j, test (k.proc j) = true → (k.proc i).sequence ≤ (k.proc j).sequence := by
  rcases (Scanned.start test k).run (List.finRange 64)
    (by simpa using nodup_finRange 64) with ⟨s, hs, h⟩
  refine ⟨s, hs, h.held, ?_, ?_⟩
  · intro hnone j
    by_contra htj
    have htj' : test (k.proc j) = true := by simpa using htj
    -- a candidate below `(uint64)-1` would have been selected
    have hle := h.least j (by simp) htj'
    have hlt := hbound j htj'
    have hempty := h.empty hnone
    omega
  · intro i hi
    obtain ⟨-, htest, hseq⟩ := h.chosen i hi
    refine ⟨htest, ?_⟩
    intro j htj
    rw [hseq]
    exact h.least j (by simp) htj

end

/-! ## The choice -/

/-- What a choice without panic amounts to, for the processes that `eligible`
admits: at most the lock of the chosen process is held, and no eligible process
comes before it in the order `le`. -/
structure Choice (k : KernelState) (eligible : Slot → Prop) (le : Proc → Proc → Prop)
    (sel : Option Slot) (held : Finset Slot) : Prop where
  held : held = sel.toFinset
  none : sel = none → ∀ j, ¬ eligible j
  some : ∀ i, sel = some i → eligible i ∧ ∀ j, eligible j → le (k.proc i) (k.proc j)

/-- The order of the scheduler. -/
def notAfter : Policy → Proc → Proc → Prop
  | .mlfq, p, q => p.queue < q.queue ∨ p.queue = q.queue ∧ p.sequence ≤ q.sequence
  | .fcfs, p, q => p.sequence ≤ q.sequence
  | .rr, _, _ => True

variable {p : Proc}

section

variable {k : KernelState} {pol : Policy}

lemma queueTest_eq_true {q : Int} : queueTest q p = true ↔ p.state = .runnable ∧ p.queue = q := by
  simp [queueTest]

lemma runnableTest_eq_true : runnableTest p = true ↔ p.state = .runnable := by
  simp [runnableTest]

/-- The passes over the queues in `qs`, from the first queue down. -/
lemma scanQueues_choice
    (hbound : ∀ j, (k.proc j).state = .runnable → (k.proc j).sequence < 2 ^ 64 - 1)
    (qs : List Int) (hsorted : qs.Pairwise (· < ·)) :
    ∃ sel held, scanQueues k qs ∅ = some (sel, held) ∧
      Choice k (fun j => (k.proc j).state = .runnable ∧ (k.proc j).queue ∈ qs)
        (notAfter .mlfq) sel held := by
  induction qs with
  | nil =>
    refine ⟨none, ∅, rfl, rfl, ?_, ?_⟩
    · intro _ j hj
      cases hj.2
    · intro i hi
      cases hi
  | cons q qs ih =>
    obtain ⟨hlow, hsorted'⟩ := pairwise_cons.mp hsorted
    rcases scanTable_spec (queueTest q)
      (fun j hj => hbound j (queueTest_eq_true.mp hj).1) with ⟨s, hs, hheld, hnone, hsome⟩
    rw [scanQueues, hs, bind_some]
    cases hsel : s.selected with
    | none =>
      rw [hsel] at hheld
      rcases ih hsorted' with ⟨sel, held, hrest, hchoice⟩
      -- nobody in this queue, so the next queues decide
      have hmem : ∀ j, (k.proc j).state = .runnable ∧ (k.proc j).queue ∈ q :: qs →
          (k.proc j).state = .runnable ∧ (k.proc j).queue ∈ qs := by
        rintro j ⟨hrun, hq⟩
        rcases mem_cons.mp hq with hq | hq
        · have htest := queueTest_eq_true.mpr ⟨hrun, hq⟩
          rw [hnone hsel j] at htest
          cases htest
        · exact ⟨hrun, hq⟩
      refine ⟨sel, held, ?_, hchoice.held, ?_, ?_⟩
      · dsimp only
        rw [hheld]
        exact hrest
      · intro h j hj
        exact hchoice.none h j (hmem j hj)
      intro i hi
      obtain ⟨⟨hrun, hq⟩, hle⟩ := hchoice.some i hi
      exact ⟨⟨hrun, mem_cons_of_mem q hq⟩, fun j hj => hle j (hmem j hj)⟩
    | some i =>
      rw [hsel] at hheld
      obtain ⟨htest, hle⟩ := hsome i hsel
      obtain ⟨hrun, hq⟩ := queueTest_eq_true.mp htest
      refine ⟨some i, s.held, rfl, hheld, ?_, ?_⟩
      · intro h
        cases h
      intro i' hi'
      cases hi'
      refine ⟨⟨hrun, by simp [hq]⟩, ?_⟩
      rintro j ⟨hrunj, hqj⟩
      -- a later queue comes after this one, whatever the numbers
      rcases mem_cons.mp hqj with hqj | hqj
      · exact .inr ⟨hq.trans hqj.symm, hle j (queueTest_eq_true.mpr ⟨hrunj, hqj⟩)⟩
      left
      rw [hq]
      exact hlow _ hqj

/-- Every process is in one of the four queues. -/
def Leveled (k : KernelState) : Prop := ∀ i, 0 ≤ (k.proc i).queue ∧ (k.proc i).queue ≤ 3

/-- The scheduler chooses a RUNNABLE process that no other comes before. -/
lemma select_choice (hpol : pol ≠ .rr) (hlevel : Leveled k)
    (hbound : ∀ j, (k.proc j).state = .runnable → (k.proc j).sequence < 2 ^ 64 - 1) :
    ∃ sel held, select pol k = some (sel, held) ∧
      Choice k (fun j => (k.proc j).state = .runnable) (notAfter pol) sel held := by
  cases pol with
  | rr => exact absurd rfl hpol
  | fcfs =>
    rcases scanTable_spec runnableTest
      (fun j hj => hbound j (runnableTest_eq_true.mp hj)) with ⟨s, hs, hheld, hnone, hsome⟩
    refine ⟨s.selected, s.held, ?_, hheld, ?_, ?_⟩
    · rw [select, hs]
      rfl
    · intro h j hj
      have htest := hnone h j
      rw [runnableTest_eq_true.mpr hj] at htest
      cases htest
    · intro i hi
      obtain ⟨htest, hle⟩ := hsome i hi
      exact ⟨runnableTest_eq_true.mp htest, fun j hj => hle j (runnableTest_eq_true.mpr hj)⟩
  | mlfq =>
    rcases scanQueues_choice hbound [0, 1, 2, 3] (by decide) with ⟨sel, held, hs, hchoice⟩
    have hall : ∀ j, (k.proc j).queue ∈ ([0, 1, 2, 3] : List Int) := by
      intro j
      have := hlevel j
      simp
      omega
    refine ⟨sel, held, hs, hchoice.held, ?_, ?_⟩
    · intro h j hj
      exact hchoice.none h j ⟨hj, hall j⟩
    intro i hi
    obtain ⟨hel, hle⟩ := hchoice.some i hi
    exact ⟨hel.1, fun j hj => hle j ⟨hj, hall j⟩⟩

end

/-! ## Queues in every reachable state -/

section

variable {pol : Policy} {l : Label} {k k' : KernelState} {ls : List Label} {q : Proc}

lemma expire_level (h : 0 ≤ p.queue ∧ p.queue ≤ 3) :
    0 ≤ (expire p).queue ∧ (expire p).queue ≤ 3 := by
  unfold expire
  split
  · have hlevels : mlfqLevels = 4 := rfl
    dsimp only
    split <;> omega
  · exact h

lemma Leveled.step (h : Leveled k) (hm : Move pol k l k') : Leveled k' := by
  intro j
  have he := hm.effect j
  generalize k'.proc j = p at he ⊢
  cases he with
  | boost _ | allocproc _ | allocFail _ | collect _ =>
    simp [Kernel.allocproc, collectProc, freeproc]
  | yield _ hlevel =>
    rcases hlevel with rfl | rfl
    · exact h j
    · exact expire_level (h j)
  | _ => exact h j

lemma Leveled.of_run (h : Run (Kernel.step pol) anyStep (Kernel.boot pol) ls k) : Leveled k := by
  refine h.invariant Leveled (fun i => ?_) (fun _ _ _ _ hs hk => hk.step (Move.of_step hs))
  rcases boot_proc pol i with ⟨-, hp⟩ | ⟨-, n, hp⟩
  all_goals
    rw [hp]
    exact ⟨le_rfl, zero_le_three⟩

/-- The process comes before the other one. -/
def ahead : Policy → Proc → Proc → Prop
  | .mlfq, p, q => p.queue < q.queue ∨ p.queue = q.queue ∧ p.sequence < q.sequence
  | .fcfs, p, q => p.sequence < q.sequence
  | .rr, _, _ => True

instance : (pol : Policy) → (p q : Proc) → Decidable (ahead pol p q)
  | .mlfq, _, _ => inferInstanceAs (Decidable (_ ∨ _))
  | .fcfs, p, q => inferInstanceAs (Decidable (p.sequence < q.sequence))
  | .rr, _, _ => inferInstanceAs (Decidable True)

lemma ahead_of_notAfter (h : notAfter pol p q) (hne : p.sequence ≠ q.sequence) : ahead pol p q := by
  cases pol with
  | rr => trivial
  | fcfs => exact lt_of_le_of_ne h hne
  | mlfq =>
    rcases h with h | ⟨hq, hs⟩
    · exact .inl h
    · exact .inr ⟨hq, lt_of_le_of_ne hs hne⟩

lemma not_notAfter_of_ahead (hpol : pol ≠ .rr) (h : ahead pol p q) : ¬ notAfter pol q p := by
  intro hle
  cases pol with
  | rr => exact hpol rfl
  | fcfs => exact absurd h (Nat.not_lt.mpr hle)
  | mlfq =>
    rcases h with h | ⟨hq, hs⟩ <;> rcases hle with hle | ⟨hq', hs'⟩ <;> omega

lemma Ordered.next_eq_enqueues (h : Ordered k) (hcount : k.enqueues < 2 ^ 64 - 1) :
    k.next = k.enqueues := by
  rw [h.next_eq, Nat.mod_eq_of_lt (by omega)]

/-- **What the MLFQ and FCFS schedulers choose.** In every reachable state with
fewer than `2 ^ 64 - 1` enqueues, the sequence numbers of the RUNNABLE
processes are different and below `next`; and a round of the scheduler
dispatches the process that comes before all other RUNNABLE processes, with
its lock held and no other, or, if there is none, it dispatches nothing and
holds no lock. -/
theorem selection_least (hpol : pol ≠ .rr) {ls : List Label}
    (hrun : Run (Kernel.step pol) anyStep (Kernel.boot pol) ls k)
    (hcount : k.enqueues < 2 ^ 64 - 1) (c : CpuId) :
    (∀ i j, (k.proc i).state = .runnable → (k.proc j).state = .runnable → i ≠ j →
      (k.proc i).sequence ≠ (k.proc j).sequence) ∧
    (∀ i, (k.proc i).state = .runnable → (k.proc i).sequence < k.next) ∧
    ((∃ i, (k.proc i).state = .runnable) →
      ∃ i, schedulerRound pol c k = some (switchTo c i k, {i}) ∧ (k.proc i).state = .runnable ∧
        ∀ j, (k.proc j).state = .runnable → j ≠ i → ahead pol (k.proc i) (k.proc j)) ∧
    ((¬ ∃ i, (k.proc i).state = .runnable) → schedulerRound pol c k = some (k, ∅)) := by
  have hord := Ordered.of_run hpol hrun
  have hvalid := hord.valid (by omega)
  have hnext := hord.next_eq_enqueues hcount
  have hdistinct : ∀ i j, (k.proc i).state = .runnable → (k.proc j).state = .runnable → i ≠ j →
      (k.proc i).sequence ≠ (k.proc j).sequence := by
    intro i j hi hj hij heq
    exact hij (hvalid.distinct i j (.inl hi) (.inl hj) heq)
  have hbelow : ∀ i, (k.proc i).state = .runnable → (k.proc i).sequence < k.next := by
    intro i hi
    rw [hnext]
    exact hvalid.below i (.inl hi)
  rcases select_choice hpol (Leveled.of_run hrun)
    (fun j hj => by have := hbelow j hj; omega) with ⟨sel, held, hsel, hchoice⟩
  refine ⟨hdistinct, hbelow, ?_, ?_⟩
  · rintro ⟨j, hj⟩
    cases sel with
    | none => exact absurd hj (hchoice.none rfl j)
    | some i =>
      obtain ⟨hi, hle⟩ := hchoice.some i rfl
      refine ⟨i, ?_, hi, ?_⟩
      · rw [schedulerRound, hsel, hchoice.held]
        rfl
      · intro j hj hji
        exact ahead_of_notAfter (hle j hj) (hdistinct i j hi hj (Ne.symm hji))
  · intro hnone
    cases sel with
    | none =>
      rw [schedulerRound, hsel, hchoice.held]
      rfl
    | some i => exact absurd ⟨i, (hchoice.some i rfl).1⟩ hnone

/-- Two processes in the first queue, and an idle CPU. -/
theorem selection_least_forked :
    ∃ ls k, Run (Kernel.step .mlfq) anyStep (Kernel.boot .mlfq) ls k ∧
      (k.proc 0).state = .runnable ∧ (k.proc 1).state = .runnable ∧
      ∃ i, schedulerRound .mlfq 0 k = some (switchTo 0 i k, {i}) ∧ (k.proc i).state = .runnable ∧
        ∀ j, (k.proc j).state = .runnable → j ≠ i → ahead .mlfq (k.proc i) (k.proc j) := by
  refine ⟨[.dispatch 0 0, .allocproc 1, .setParent 0 1, .ready 1, .yield 0],
    Run.exists_imp (P := fun k => (k.proc 0).state = .runnable ∧ (k.proc 1).state = .runnable ∧
      k.enqueues < 2 ^ 64 - 1) (by decide +kernel) ?_⟩
  rintro k hrun ⟨h0, h1, hcount⟩
  have hsel := selection_least (by decide) hrun hcount 0
  exact ⟨h0, h1, hsel.2.2.1 ⟨0, h0⟩⟩

end

end CshellXv6.Kernel
