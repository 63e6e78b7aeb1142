import CshellXv6.Kernel.Machine

/-! # Killing

`kkill` looks for a pid in the whole table, free slots included, and a free
slot has pid 0. `allocproc` does not reset `killed`, so whether a new process
starts with `killed = 0` is decided by what was done to the slot while it was
free.

A slot that is free has pid 0 in every run, and no kill pending in the runs in which
nobody calls `kill(0)`: both are instances of one invariant. From the first
`kill_touches_live_only` gets the calls for which `kkill` keeps its contract, from the
second that no process is born killed.
-/

namespace CshellXv6.Kernel

open Lib

/-- The loop of `kkill`: the first slot with the pid. -/
def findPid (pid : Int) (k : KernelState) : Option Slot :=
  (List.finRange 64).find? fun i => (k.proc i).pid = pid

/-- `kkill`, with its return value. -/
def kkill (pid : Int) (k : KernelState) : KernelState × Int :=
  match findPid pid k with
  | some i => (k.modify i killProc, 0)
  | none => (k, -1)

/-- `sys_kill`: `argint` keeps the low 32 bits of the register. -/
def sysKill (a0 : BitVec 64) (k : KernelState) : KernelState × Int :=
  kkill (a0.setWidth 32).toInt k

/-- Slot `i` has a process with this pid. -/
def Named (pid : Int) (k : KernelState) (i : Slot) : Prop :=
  (k.proc i).state ≠ .unused ∧ (k.proc i).pid = pid

instance (pid : Int) (k : KernelState) (i : Slot) : Decidable (Named pid k i) :=
  inferInstanceAs (Decidable (_ ∧ _))

/-- What `kkill(pid)` is to do. -/
structure KillContract (pid : Int) (k : KernelState) : Prop where
  found : (kkill pid k).2 = 0 ↔ ∃ i, Named pid k i
  missing : (kkill pid k).2 = -1 ↔ ¬ ∃ i, Named pid k i
  others : ∀ j, ¬ Named pid k j → (kkill pid k).1.proc j = k.proc j
  unchanged : (kkill pid k).2 = -1 → (kkill pid k).1 = k

/-! ## Free slots -/

/-- A free slot has a pid and a `killed` with the property. -/
def Proc.Free (Q : Int → Bool → Prop) (p : Proc) : Prop := p.state = .unused → Q p.pid p.killed

/-- The step is not part of a `kill(0)`. -/
def sparesZero : Label → KernelState → Prop
  | .kkill pid _, _ => pid ≠ 0
  | _, _ => True

instance (l : Label) (k : KernelState) : Decidable (sparesZero l k) := by
  unfold sparesZero
  apply @Label.casesOn _ l
  all_goals intros; infer_instance

section

variable {pol : Policy} {k k' : KernelState} {l : Label} {i : Slot} {Q : Int → Bool → Prop}
  {ls : List Label}

/-- There is nothing to show of a process. -/
lemma Proc.Free.of_inUse {p : Proc} (h : p.state ≠ .unused) : p.Free Q :=
  fun hu => absurd hu h

lemma Proc.Free.kill {p : Proc} (h : p.Free Q) (hkill : ∀ b, Q p.pid b → Q p.pid true) :
    (killProc p).Free Q := by
  intro hu
  simp only [killProc] at hu
  split at hu
  · cases hu
  · exact hkill _ (h hu)

lemma allocproc_self (i : Slot) (k : KernelState) :
    ((allocproc i k).proc i).state = .used ∧
      ((allocproc i k).proc i).killed = (k.proc i).killed := by
  simp [allocproc]

/-- `freeproc` is the one that makes slots free, and only `kkill` writes to a free slot a
field the property is about. -/
lemma free_step (h : ∀ i, (k.proc i).Free Q) (hseat : Seated k) (hzero : Q 0 false)
    (hkill : ∀ pid i, l = .kkill pid i → ∀ b, Q pid b → Q pid true)
    (hm : Move pol k l k') : ∀ i, (k'.proc i).Free Q := by
  intro j
  have he := hm.effect j
  generalize k'.proc j = p at he ⊢
  cases he with
  | same | charge | boost _ | clear _ | sleepPrepare _ _ | setParent _ | reparent => exact h j
  | dispatch _ | wake _ | yield _ _ | sleep _ _ | ready _ | exit _ =>
    exact .of_inUse (by simp [exitProc])
  | kkill hfound => exact (h j).kill (hfound ▸ hkill _ j rfl)
  -- what a CPU runs is not free
  | setkilled hon => exact .of_inUse (by simp [hseat.running hon])
  | allocproc _ => exact .of_inUse (by simp [allocproc])
  | allocFail _ | collect _ => exact fun _ => hzero

lemma free_boot (hzero : Q 0 false) (i : Slot) : ((boot pol).proc i).Free Q := by
  rcases boot_proc pol i with ⟨-, hp⟩ | ⟨-, n, hp⟩
  · rw [hp]
    exact fun _ => hzero
  · rw [hp]
    exact .of_inUse (by simp)

/-- What `freeproc` leaves in a free slot stays there in every run whose kills keep it. -/
lemma free_of_run {ok : Label → KernelState → Prop} (hzero : Q 0 false)
    (hkill : ∀ pid i k, ok (.kkill pid i) k → ∀ b, Q pid b → Q pid true)
    (h : Run (Kernel.step pol) ok (Kernel.boot pol) ls k) : ∀ i, (k.proc i).Free Q := by
  have hboth : Seated k ∧ ∀ i, (k.proc i).Free Q := by
    refine h.invariant (fun k => Seated k ∧ ∀ i, (k.proc i).Free Q)
      ⟨Seated.boot, free_boot hzero⟩ ?_
    intro l s s' hok hs hinv
    have hm := Move.of_step hs
    refine ⟨hinv.1.step hm, free_step hinv.2 hinv.1 hzero ?_ hm⟩
    rintro pid i rfl
    exact hkill pid i s hok
  exact hboth.2

end

/-! ## What a call of `kkill` does -/

section

variable {pid : Int} {k : KernelState} {i : Slot}

lemma findPid_eq_some_iff :
    findPid pid k = some i ↔ (k.proc i).pid = pid ∧ ∀ j < i, (k.proc j).pid ≠ pid := by
  rw [findPid, ← Fin.find?_eq_find?_finRange, Fin.find?_eq_some_iff]
  simp

lemma findPid_eq_none (h : findPid pid k = none) (i : Slot) : (k.proc i).pid ≠ pid := by
  have := List.find?_eq_none.mp h i (List.mem_finRange i)
  simpa using this

/-- A call that finds nothing. -/
lemma KillContract.of_none (hf : findPid pid k = none) : KillContract pid k := by
  have hk : kkill pid k = (k, -1) := by rw [kkill, hf]
  have hno : ¬ ∃ i, Named pid k i := fun ⟨i, _, hi⟩ => findPid_eq_none hf i hi
  constructor
  · simp [hk, hno]
  · simp [hk, hno]
  · intro j _
    rw [hk]
  · intro _
    rw [hk]

/-- A call that finds a slot keeps the contract if there is a process to find and the slot
is a process's, or has been marked before. -/
lemma contract_iff_of_some (hf : findPid pid k = some i) :
    KillContract pid k ↔
      (∃ j, Named pid k j) ∧ (Named pid k i ∨ killProc (k.proc i) = k.proc i) := by
  have hk : kkill pid k = (k.modify i killProc, 0) := by rw [kkill, hf]
  constructor
  · intro h
    refine ⟨h.found.mp (by rw [hk]), ?_⟩
    by_cases hi : Named pid k i
    · exact .inl hi
    · have hsame := h.others i hi
      rw [hk, modify_proc_self] at hsame
      exact .inr hsame
  rintro ⟨hex, hi⟩
  constructor
  · simp [hk, hex]
  · simp [hk, hex]
  · intro j hj
    rw [hk]
    by_cases hji : j = i
    · subst hji
      rw [modify_proc_self]
      exact hi.resolve_left hj
    · exact modify_proc_of_ne k killProc hji
  · intro h0
    rw [hk] at h0
    cases h0

/-- A kill leaves no mark on a free slot that has one. -/
lemma killProc_eq_self_iff {p : Proc} (h : p.state = .unused) :
    killProc p = p ↔ p.killed = true := by
  constructor
  · intro heq
    rw [← heq, killProc]
  · intro hk
    cases p
    simp_all [killProc]

/-- `kkill` keeps its contract exactly if it is not called with 0, or no free slot is the
first one with pid 0, unless it is marked and there is a process with pid 0. -/
lemma contract_iff (hfree : ∀ i, (k.proc i).state = .unused → (k.proc i).pid = 0) :
    KillContract pid k ↔ pid ≠ 0 ∨ ∀ i, (k.proc i).state = .unused →
      (∃ j < i, (k.proc j).pid = 0) ∨ (k.proc i).killed = true ∧ ∃ j, Named 0 k j := by
  cases hf : findPid pid k with
  | none =>
    refine iff_of_true (.of_none hf) (or_iff_not_imp_left.mpr ?_)
    intro h0 i hu
    rw [not_not.mp h0] at hf
    exact absurd (hfree i hu) (findPid_eq_none hf i)
  | some i =>
    obtain ⟨hi, hfirst⟩ := findPid_eq_some_iff.mp hf
    rw [contract_iff_of_some hf]
    by_cases hu : (k.proc i).state = .unused
    · have hpid : pid = 0 := hi ▸ hfree i hu
      subst hpid
      have hnot : ¬ Named 0 k i := fun h => h.1 hu
      simp only [hnot, false_or, killProc_eq_self_iff hu, ne_eq, not_true_eq_false]
      constructor
      · rintro ⟨hex, hk⟩ j hj
        rcases lt_trichotomy i j with hlt | rfl | hlt
        · exact .inl ⟨i, hlt, hi⟩
        · exact .inr ⟨hk, hex⟩
        · exact absurd (hfree j hj) (hfirst j hlt)
      · intro h
        rcases h i hu with ⟨j, hj, h0⟩ | ⟨hk, hex⟩
        · exact absurd h0 (hfirst j hj)
        · exact ⟨hex, hk⟩
    · have hin : Named pid k i := ⟨hu, hi⟩
      refine iff_of_true ⟨⟨i, hin⟩, .inl hin⟩ (or_iff_not_imp_left.mpr ?_)
      intro h0 j hj
      rw [not_not.mp h0] at hi hfirst
      -- the first slot with pid 0 has a process, so a free one comes later
      refine .inl ⟨i, ?_, hi⟩
      rcases lt_trichotomy i j with hlt | rfl | hlt
      · exact hlt
      · exact absurd hj hu
      · exact absurd (hfree j hj) (hfirst j hlt)

end

/-- In every run: a call `kkill(pid)` keeps its contract exactly if `pid` is not 0, or no
free slot comes before all processes with pid 0 (or the free slot that does is marked
already, and one of them is there). In every run without a `kill(0)`, no free slot has a
kill pending and no process is born killed. -/
theorem kill_touches_live_only (pol : Policy) (ls : List Label) (k : KernelState)
    (h : Run (step pol) anyStep (boot pol) ls k) :
    (∀ pid, KillContract pid k ↔ pid ≠ 0 ∨ ∀ i, (k.proc i).state = .unused →
      (∃ j < i, (k.proc j).pid = 0) ∨ (k.proc i).killed = true ∧ ∃ j, Named 0 k j) ∧
    (Run (step pol) sparesZero (boot pol) ls k →
      (∀ i, (k.proc i).state = .unused → (k.proc i).killed = false) ∧
      ∀ i k', step pol (.allocproc i) k = some k' → (k'.proc i).killed = false) := by
  have hpid : ∀ i, (k.proc i).Free fun pid _ => pid = 0 :=
    free_of_run rfl (fun _ _ _ _ _ h0 => h0) h
  refine ⟨fun pid => contract_iff hpid, fun hspares => ?_⟩
  have hunmarked : ∀ i, (k.proc i).Free fun pid killed => pid = 0 ∧ killed = false :=
    free_of_run ⟨rfl, rfl⟩ (fun pid i _ hok _ h0 => absurd h0.1 hok) hspares
  refine ⟨fun i hu => (hunmarked i hu).2, fun i k' hs => ?_⟩
  cases Move.of_step hs with
  | allocproc hfree =>
    rw [(allocproc_self i k).2]
    exact (hunmarked i hfree).2

/-- A run in which init kills itself: another such call keeps the contract, and no child is
born killed. -/
theorem kill_touches_live_only_init :
    ∃ k, Run (step .rr) sparesZero (boot .rr) [.dispatch 0 0, .kkill 1 0] k ∧
      KillContract 1 k ∧
      ∀ i k', step .rr (.allocproc i) k = some k' → (k'.proc i).killed = false := by
  refine Run.exists_imp (P := fun _ => True) (by decide +kernel) ?_
  intro k hk _
  have h := kill_touches_live_only .rr _ k (hk.mono fun _ _ _ => trivial)
  exact ⟨(h.1 1).mpr (.inl (by decide)), (h.2 hk).2⟩

/-- init calls `kill(0)`: it returns 0 although no process has pid 0, marks
slot 1, which is free, and the child allocated there is born killed. -/
theorem kill_zero_marks_free_slot :
    ∃ k, Run (step .rr) anyStep (boot .rr) [.dispatch 0 0] k ∧
      (sysKill 0 k).2 = 0 ∧ (¬ ∃ i, Named 0 k i) ∧ (k.proc 1).state = .unused ∧
      ((sysKill 0 k).1.proc 1).killed = true ∧
      ((allocproc 1 (sysKill 0 k).1).proc 1).killed = true := by
  decide +kernel

end CshellXv6.Kernel
