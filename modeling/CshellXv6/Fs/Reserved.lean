import CshellXv6.Fs.Reservation

/-! # The log is never too small

`begin_op` admits an operation only if the header would still have room for
`MAXOPBLOCKS` blocks of every operation in progress. So the blocks in the
header and the blocks that the operations may still log are together at most
`LOGBLOCKS`, in every reachable state: a budget that `log_write` only moves
from one side to the other.

One panic remains: `log_write` looks at the size of the header before it looks
for the block, so with a full header it refuses even a block that is already
there. The runs of `log_reserved` avoid that.
-/

namespace CshellXv6.Fs.Reservation

open Lib Function List

/-! ## Absorption -/

section

variable {b b' : Nat} {lh : List Nat}

@[simp] lemma mem_absorb : b' ∈ absorb b lh ↔ b' = b ∨ b' ∈ lh := by
  induction lh with
  | nil => simp [absorb]
  | cons c lh ih =>
    rw [absorb]
    split
    next hc => simp [hc]
    · simp [ih, or_left_comm]

lemma absorb_of_mem (h : b ∈ lh) : absorb b lh = lh := by
  induction lh with
  | nil => cases h
  | cons c lh ih =>
    rw [absorb]
    split
    next hc => rw [hc]
    next hc =>
      rw [ih]
      rcases mem_cons.mp h with rfl | h
      · exact absurd rfl hc
      · exact h

lemma length_absorb_of_notMem (h : b ∉ lh) : (absorb b lh).length = lh.length + 1 := by
  induction lh with
  | nil => rfl
  | cons c lh ih =>
    rw [mem_cons, not_or] at h
    rw [absorb, if_neg (Ne.symm h.1), length_cons, ih h.2, length_cons]

lemma nodup_absorb (h : lh.Nodup) : (absorb b lh).Nodup := by
  induction lh with
  | nil => simp [absorb]
  | cons c lh ih =>
    rw [nodup_cons] at h
    rw [absorb]
    split
    next hc =>
      subst hc
      exact nodup_cons.mpr h
    next hc =>
      rw [nodup_cons, mem_absorb, not_or]
      exact ⟨⟨hc, h.1⟩, ih h.2⟩

end

/-! ## The invariant -/

/-- The blocks that an operation may still log. -/
def Pc.reserve : Pc → Nat
  | .active op => maxOpBlocks - op.blocks.length
  | _ => 0

def Pc.inOp : Pc → Nat
  | .active _ => 1
  | _ => 0

def Pc.inCommit : Pc → Nat
  | .committing | .installing | .committed => 1
  | _ => 0

section

variable {P : Type} [Fintype P] {s s' : State P} {l : Label P} {p q : P} {op : Op} {pc : Pc}
  {b : Nat}

/-- Who is where, and how much room there is. -/
structure Reserved (s : State P) : Prop where
  calm : s.panicked = none
  room : s.lh.length + total Pc.reserve s.pc ≤ logBlocks
  distinct : s.lh.Nodup
  counted : s.outstanding = total Pc.inOp s.pc
  committer : total Pc.inCommit s.pc = s.committing.toNat
  exclusive : s.committing = true → s.outstanding = 0
  logged : ∀ p op, s.pc p = .active op → op.blocks ⊆ s.lh ∧ op.blocks.length ≤ maxOpBlocks

/-- While somebody commits, there are no operations. -/
lemma Reserved.no_op (h : Reserved s) (hp : (s.pc p).inCommit = 1) :
    s.committing = true ∧ s.outstanding = 0 ∧ ∀ q op, s.pc q ≠ .active op := by
  have hbusy : s.committing = true := by
    have hone := le_total (g := Pc.inCommit) (f := s.pc) p
    rw [hp, h.committer] at hone
    cases hc : s.committing with
    | true => rfl
    | false =>
      rw [hc] at hone
      cases hone
  have hzero := h.exclusive hbusy
  refine ⟨hbusy, hzero, ?_⟩
  intro q op hq
  have hnone : total Pc.inOp s.pc = 0 := by
    have := h.counted
    omega
  have := total_eq_zero.mp hnone q
  rw [hq] at this
  cases this

/-- No operation has more than `MAXOPBLOCKS` blocks to log. -/
lemma reserve_le (s : State P) : total Pc.reserve s.pc ≤ maxOpBlocks * total Pc.inOp s.pc := by
  rw [total, total, Finset.mul_sum]
  refine Finset.sum_le_sum ?_
  intro p _
  cases s.pc p with
  | active op => simp [Pc.reserve, Pc.inOp]
  | _ => simp [Pc.reserve]

/-- An operation within its budget finds room for a block. -/
lemma Reserved.room_for (h : Reserved s) (hpc : s.pc p = .active op)
    (hbudget : withinBudget (.logWrite p b) s) (hok : sparesLimits (.logWrite p b) s) :
    s.lh.length < logBlocks := by
  have hop : op ∈ (s.pc p).op := by
    rw [hpc]
    rfl
  by_cases hb : b ∈ op.blocks
  · exact hok op hop hb
  have hlen := hbudget op hop
  have hsum := le_total (g := Pc.reserve) (f := s.pc) p
  have hroom := h.room
  rw [length_absorb_of_notMem hb] at hlen
  rw [hpc, Pc.reserve] at hsum
  omega

lemma Reserved.in_op (h : Reserved s) (hpc : s.pc p = .active op) : 1 ≤ s.outstanding := by
  have hone := le_total (g := Pc.inOp) (f := s.pc) p
  have := h.counted
  rw [hpc, Pc.inOp] at hone
  omega

variable [DecidableEq P]

/-- One process moves, and the log changes in step with it. -/
lemma Reserved.move (h : Reserved s) (hpc : s'.pc = update s.pc p pc)
    (hcalm : s'.panicked = s.panicked)
    (hroom : s'.lh.length + total Pc.reserve s.pc + pc.reserve ≤ logBlocks + (s.pc p).reserve)
    (hdistinct : s'.lh.Nodup) (hcounted : s'.outstanding + (s.pc p).inOp = s.outstanding + pc.inOp)
    (hcommitter : s'.committing.toNat + (s.pc p).inCommit = s.committing.toNat + pc.inCommit)
    (hexclusive : s'.committing = true → s'.outstanding = 0)
    (hown : ∀ op, pc = .active op → op.blocks ⊆ s'.lh ∧ op.blocks.length ≤ maxOpBlocks)
    (hothers : ∀ q op, q ≠ p → s.pc q = .active op → op.blocks ⊆ s'.lh) : Reserved s' := by
  have hreserve := total_update Pc.reserve s.pc p pc
  have hop := total_update Pc.inOp s.pc p pc
  have hcommit := total_update Pc.inCommit s.pc p pc
  have hold := h.counted
  have holdc := h.committer
  constructor
  · rw [hcalm]
    exact h.calm
  · rw [hpc]
    omega
  · exact hdistinct
  · rw [hpc]
    omega
  · rw [hpc]
    omega
  · exact hexclusive
  intro q op hq
  rw [hpc] at hq
  by_cases hqp : q = p
  · subst hqp
    rw [update_self] at hq
    exact hown op hq
  · rw [update_of_ne hqp] at hq
    exact ⟨hothers q op hqp hq, (h.logged q op hq).2⟩

/-- The log stays as it is, and so do the counts. -/
lemma Reserved.goto (h : Reserved s) (hop : (s.pc p).inOp = pc.inOp)
    (hcommit : (s.pc p).inCommit = pc.inCommit) (hreserve : pc.reserve = 0)
    (hpc : ∀ op, pc ≠ .active op) : Reserved (s.goto p pc) := by
  refine h.move rfl rfl ?_ h.distinct ?_ ?_ h.exclusive ?_ ?_
  · have := h.room
    dsimp only [State.goto]
    omega
  · dsimp only [State.goto]
    omega
  · dsimp only [State.goto]
    omega
  · intro op hactive
    exact absurd hactive (hpc op)
  · intro q op _ hq
    exact (h.logged q op hq).1

/-- Only one process commits. -/
lemma Reserved.one_committer (h : Reserved s) (hp : (s.pc p).inCommit = 1)
    (hq : (s.pc q).inCommit = 1) : p = q := by
  by_contra hpq
  have htwo := add_le_total (g := Pc.inCommit) (f := s.pc) hpq
  have hone := Bool.toNat_le s.committing
  rw [hp, hq, h.committer] at htwo
  omega

/-- A block that is logged goes from the reserve of the operation into the
header, unless it is there. -/
lemma Reserved.log (h : Reserved s) (hpc : s.pc p = .active op)
    (hbudget : withinBudget (.logWrite p b) s) : Reserved ({ s with lh := absorb b s.lh }.goto p
      (.active { op with blocks := absorb b op.blocks })) := by
  have hroom := h.room
  have hlogged := h.logged p op hpc
  have hlen := hbudget op (by rw [hpc]; rfl)
  refine h.move rfl rfl ?_ (nodup_absorb h.distinct) ?_ ?_ h.exclusive ?_ ?_
  · simp only [State.goto, hpc, Pc.reserve]
    by_cases hop : b ∈ op.blocks
    · rw [absorb_of_mem hop, absorb_of_mem (hlogged.1 hop)]
      omega
    rw [length_absorb_of_notMem hop] at hlen ⊢
    by_cases hb : b ∈ s.lh
    · rw [absorb_of_mem hb]
      omega
    · rw [length_absorb_of_notMem hb]
      omega
  · simp [State.goto, hpc, Pc.inOp]
  · simp [State.goto, hpc, Pc.inCommit]
  · rintro op' ⟨⟩
    refine ⟨?_, hlen⟩
    intro b' hb'
    rcases mem_absorb.mp hb' with rfl | hb'
    · exact mem_absorb.mpr (.inl rfl)
    · exact mem_absorb.mpr (.inr (hlogged.1 hb'))
  · intro q op' _ hq b' hb'
    exact mem_absorb.mpr (.inr ((h.logged q op' hq).1 hb'))

/-- An operation ends. -/
lemma Reserved.endOp (h : Reserved s) (hp : s.pc p = .active op) (hfree : s.committing = false)
    (hpc : s'.pc = update s.pc p pc) (hlh : s'.lh = s.lh)
    (hcalm : s'.panicked = s.panicked) (hout : s'.outstanding = s.outstanding - 1)
    (hplace : pc.inOp = 0 ∧ pc.reserve = 0 ∧ pc.inCommit = s'.committing.toNat)
    (hlast : s'.committing = true → s.outstanding = 1) : Reserved s' := by
  have hroom := h.room
  obtain ⟨hop, hreserve, hcommit⟩ := hplace
  have hone : (s.pc p).inOp = 1 := by simp [hp, Pc.inOp]
  have hzero : (s.pc p).inCommit = 0 := by simp [hp, Pc.inCommit]
  refine h.move hpc hcalm ?_ ?_ ?_ ?_ ?_ ?_ ?_
  · rw [hlh]
    omega
  · rw [hlh]
    exact h.distinct
  · omega
  · rw [hfree, hcommit, hzero]
    simp
  · intro hbusy
    have := hlast hbusy
    omega
  · rintro op' rfl
    cases hop
  intro q op' _ hq
  rw [hlh]
  exact (h.logged q op' hq).1

lemma Reserved.step (h : Reserved s) (hbudget : withinBudget l s) (hok : sparesLimits l s)
    (hm : Move s l s') : Reserved s' := by
  have hroom := h.room
  cases hm with
  | blocked | stillSyncing => exact h
  | begin hpc | syncWait hpc _ | syncNow hpc _ _ | syncEnd hpc _ | syncReturn hpc =>
    exact h.goto (by rw [hpc]; rfl) (by rw [hpc]; rfl) rfl (by simp)
  | enter hpc hfree hbound =>
    refine h.move rfl rfl ?_ h.distinct ?_ ?_ ?_ ?_ ?_
    · have hsum := reserve_le s
      have hcounted := h.counted
      simp only [State.goto, Pc.reserve, length_nil, Nat.sub_zero, hpc, maxOpBlocks, logBlocks] at *
      omega
    · simp [State.goto, hpc, Pc.inOp]
    · simp [State.goto, hpc, Pc.inCommit]
    · intro hbusy
      exact absurd hbusy (by simp [State.goto, hfree])
    · rintro op ⟨⟩
      simp
    · intro q op _ hq
      exact (h.logged q op hq).1
  | tooBig hpc hfull =>
    have := h.room_for hpc hbudget hok
    omega
  | outside hpc hnone =>
    have := h.in_op hpc
    omega
  | log hpc _ => exact h.log hpc hbudget
  | endPanic hpc hbusy =>
    have := h.in_op hpc
    have := h.exclusive hbusy
    omega
  | last hpc hfree hone =>
    exact h.endOp hpc hfree rfl rfl rfl rfl ⟨rfl, rfl, rfl⟩ (fun _ => hone)
  | leave hpc hfree _ =>
    have hidle : Pc.idle.inCommit = s.committing.toNat := by
      rw [hfree]
      rfl
    exact h.endOp hpc hfree rfl rfl rfl rfl ⟨rfl, rfl, hidle⟩ (by simp [State.goto, hfree])
  | writeHead hpc =>
    have hgo : Reserved (s.goto _ .installing) :=
      h.goto (by rw [hpc]; rfl) (by rw [hpc]; rfl) rfl (by simp)
    obtain ⟨h1, h2, h3, h4, h5, h6, h7⟩ := hgo
    exact ⟨h1, h2, h3, h4, h5, h6, h7⟩
  | clear hpc =>
    have hno := h.no_op (p := _) (by rw [hpc]; rfl)
    refine h.move rfl rfl ?_ nodup_nil ?_ ?_ h.exclusive (by simp) ?_
    · simp only [State.goto, Pc.reserve, length_nil]
      omega
    · simp [State.goto, hpc, Pc.inOp]
    · simp [State.goto, hpc, Pc.inCommit]
    · intro q op _ hq
      exact absurd hq (hno.2.2 q op)
  | finish hpc =>
    have hno := h.no_op (p := _) (by rw [hpc]; rfl)
    refine h.move rfl rfl ?_ h.distinct ?_ ?_ (by simp [State.goto]) (by simp) ?_
    · simp only [State.goto, Pc.reserve]
      omega
    · simp [State.goto, hpc, Pc.inOp]
    · simp [State.goto, hpc, hno.1, Pc.inCommit]
    · intro q op _ hq
      exact (h.logged q op hq).1

end

/-! ## What `sys_sync` waits for -/

section

variable {P : Type} {s s' : State P} {l : Label P}

/-- The blocks of operations that have ended stay in the header until the
commit; there is somebody who will commit; and whoever waits in `sys_sync`
waits for the next commit, unless all that is owed has been committed. -/
structure Synced (s : State P) : Prop where
  waiting : ∀ op ∈ s.pending, op.blocks ⊆ s.lh
  settled : s.pending = [] ∨ 0 < s.outstanding ∨ ∃ p, s.pc p = .committing
  counter : -2 ^ 31 ≤ s.ncommit ∧ s.ncommit < 2 ^ 31
  syncing : ∀ p n owed, s.pc p = .syncing n owed →
    owed ⊆ s.ended ∧ (n = s.ncommit + 1 ∨ owed ⊆ s.durable)
  synced : ∀ p owed, s.pc p = .synced owed → owed ⊆ s.durable

variable [DecidableEq P] {p q : P} {pc : Pc}

/-- One process moves; commits may become known, and none is forgotten. -/
lemma Synced.move (h : Synced s) (hpc : s'.pc = update s.pc p pc)
    (hwaiting : ∀ op ∈ s'.pending, op.blocks ⊆ s'.lh)
    (hsettled : s'.pending = [] ∨ 0 < s'.outstanding ∨ ∃ q, s'.pc q = .committing)
    (hcounter : -2 ^ 31 ≤ s'.ncommit ∧ s'.ncommit < 2 ^ 31) (hdurable : s.durable ⊆ s'.durable)
    (hended : s.ended ⊆ s'.ended) (hncommit : s'.ncommit = s.ncommit ∨ s.ended ⊆ s'.durable)
    (hsyncing : ∀ n owed, pc = .syncing n owed → owed ⊆ s'.ended ∧ n = s'.ncommit + 1)
    (hsynced : ∀ owed, pc = .synced owed → owed ⊆ s'.durable) : Synced s' := by
  constructor
  · exact hwaiting
  · exact hsettled
  · exact hcounter
  · intro q n owed hq
    rw [hpc] at hq
    by_cases hqp : q = p
    · subst hqp
      rw [update_self] at hq
      exact ⟨(hsyncing n owed hq).1, .inl (hsyncing n owed hq).2⟩
    rw [update_of_ne hqp] at hq
    obtain ⟨hin, hn⟩ := h.syncing q n owed hq
    refine ⟨fun op hop => hended (hin hop), ?_⟩
    rcases hn with hn | hn
    · rcases hncommit with hsame | hall
      · exact .inl (by omega)
      · exact .inr fun op hop => hall (hin hop)
    · exact .inr fun op hop => hdurable (hn hop)
  · intro q owed hq
    rw [hpc] at hq
    by_cases hqp : q = p
    · subst hqp
      rw [update_self] at hq
      exact hsynced owed hq
    · rw [update_of_ne hqp] at hq
      exact fun op hop => hdurable (h.synced q owed hq hop)

/-- Who was about to commit still is. -/
lemma committing_of_goto (hq : s.pc q = .committing) (hp : s.pc p ≠ .committing) :
    update s.pc p pc q = .committing := by
  have hqp : q ≠ p := by
    rintro rfl
    exact hp hq
  rw [update_of_ne hqp]
  exact hq

/-- Only the place of the process changes. -/
lemma Synced.goto (h : Synced s) (hp : s.pc p ≠ .committing)
    (hsyncing : ∀ n owed, pc = .syncing n owed → owed ⊆ s.ended ∧ n = s.ncommit + 1)
    (hsynced : ∀ owed, pc = .synced owed → owed ⊆ s.durable) : Synced (s.goto p pc) := by
  refine h.move rfl h.waiting ?_ h.counter (List.Subset.refl _) (List.Subset.refl _)
    (.inl rfl) hsyncing hsynced
  rcases h.settled with hnil | hout | ⟨q, hq⟩
  · exact .inl hnil
  · exact .inr (.inl hout)
  · exact .inr (.inr ⟨q, committing_of_goto hq hp⟩)

variable [Fintype P] {ls : List (Label P)}

/-- Once the header is written, no operation waits. -/
lemma Synced.pending_eq_nil (h : Synced s) (hr : Reserved s) (hp : (s.pc p).inCommit = 1)
    (hne : s.pc p ≠ .committing) : s.pending = [] := by
  rcases h.settled with hnil | hout | ⟨q, hq⟩
  · exact hnil
  · have := (hr.no_op hp).2.1
    omega
  have hpq := hr.one_committer hp (q := q) (by rw [hq, Pc.inCommit])
  subst hpq
  exact absurd hq hne

omit [DecidableEq P] in
/-- An operation ends: its blocks are in the header. -/
lemma Synced.waiting_append {op : Op} (h : Synced s) (hr : Reserved s)
    (hpc : s.pc p = .active op) : ∀ op' ∈ s.pending ++ [op], op'.blocks ⊆ s.lh := by
  intro op' hop'
  rcases mem_append.mp hop' with hold | hnew
  · exact h.waiting op' hold
  · cases mem_singleton.mp hnew
    exact (hr.logged p op hpc).1

lemma Synced.step (h : Synced s) (hr : Reserved s) (hr' : Reserved s')
    (hok : sparesLimits l s) (hm : Move s l s') : Synced s' := by
  cases hm with
  | blocked | stillSyncing => exact h
  | begin hpc | syncReturn hpc => exact h.goto (by simp [hpc]) (by simp) (by simp)
  | enter hpc hfree hbound =>
    have hcounted := hr.counted
    refine h.move rfl h.waiting ?_ h.counter (List.Subset.refl _) (List.Subset.refl _)
      (.inl rfl) (by simp) (by simp)
    right
    left
    simp only [State.goto]
    omega
  | tooBig | outside | endPanic => cases hr'.calm
  | log hpc _ =>
    refine h.move rfl ?_ ?_ h.counter (List.Subset.refl _) (List.Subset.refl _)
      (.inl rfl) (by simp) (by simp)
    · intro op hop b' hb'
      exact mem_absorb.mpr (.inr (h.waiting op hop hb'))
    · exact .inr (.inl (hr.in_op hpc))
  | @last p op hpc hfree hone =>
    refine h.move rfl (h.waiting_append hr hpc) ?_ h.counter (List.Subset.refl _) ?_
      (.inl rfl) (by simp) (by simp)
    · exact .inr (.inr ⟨p, update_self _ _ _⟩)
    · simp [State.ended, State.goto]
  | leave hpc hfree hothers =>
    refine h.move rfl (h.waiting_append hr hpc) ?_ h.counter (List.Subset.refl _) ?_
      (.inl rfl) (by simp) (by simp)
    · have := hr.in_op hpc
      right
      left
      simp only [State.goto]
      omega
    · simp [State.ended, State.goto]
  | writeHead hpc =>
    -- the header has all blocks of the operations that wait
    have hall : ∀ op ∈ s.pending, decide (op.blocks ⊆ s.lh) = true := fun op hop =>
      decide_eq_true (h.waiting op hop)
    have hnone : s.pending.filter (fun op : Op => ¬ op.blocks ⊆ s.lh) = [] := by
      rw [filter_eq_nil_iff]
      intro op hop
      simpa using h.waiting op hop
    refine h.move rfl ?_ (.inl hnone) h.counter ?_ ?_ (.inl rfl) (by simp) (by simp)
    · simp only [State.writeHead, State.goto, hnone]
      simp
    · exact subset_append_left _ _
    · simp only [State.ended, State.writeHead, State.goto, filter_eq_self.mpr hall]
      exact subset_append_left _ _
  | clear hpc =>
    have hnil := h.pending_eq_nil hr (by rw [hpc, Pc.inCommit]) (by simp [hpc])
    refine h.move rfl ?_ (.inl hnil) h.counter (List.Subset.refl _) (List.Subset.refl _)
      (.inl rfl) (by simp) (by simp)
    simp [State.goto, hnil]
  | finish hpc =>
    have hnil := h.pending_eq_nil hr (by rw [hpc, Pc.inCommit]) (by simp [hpc])
    refine h.move rfl h.waiting (.inl hnil) ⟨le_toInt _, toInt_lt _⟩ (List.Subset.refl _)
      (List.Subset.refl _) ?_ (by simp) (by simp)
    right
    simp [State.ended, State.goto, hnil]
  | syncWait hpc hbusy =>
    refine h.goto (by simp [hpc]) ?_ (by simp)
    rintro n owed ⟨⟩
    refine ⟨List.Subset.refl _, ?_⟩
    have hlimit : s.ncommit < 2 ^ 31 - 1 := hok hbusy
    have hcounter := h.counter
    exact toInt_of_range (by omega) (by omega)
  | syncNow hpc hfree hquiet =>
    refine h.goto (by simp [hpc]) (by simp) ?_
    rintro owed ⟨⟩
    have hnil : s.pending = [] := by
      rcases h.settled with hnil | hout | ⟨q, hq⟩
      · exact hnil
      · omega
      have hbusy := (hr.no_op (p := q) (by rw [hq, Pc.inCommit])).1
      rw [hfree] at hbusy
      cases hbusy
    simp [State.ended, hnil]
  | syncEnd hpc hreached =>
    refine h.goto (by simp [hpc]) (by simp) ?_
    rintro owed ⟨⟩
    rcases (h.syncing _ _ _ hpc).2 with hn | hn
    · omega
    · exact hn

/-! ## Every run -/

omit [DecidableEq P] in
lemma Reserved.start : Reserved (State.start : State P) := by
  have hidle : ∀ p : P, (State.start : State P).pc p = .idle := fun _ => rfl
  constructor
  · rfl
  · rw [total_eq_zero.mpr fun p => by rw [hidle, Pc.reserve]; simp]
    exact Nat.zero_le _
  · exact nodup_nil
  · rw [total_eq_zero.mpr fun p => by rw [hidle, Pc.inOp]; simp]
    rfl
  · rw [total_eq_zero.mpr fun p => by simp [hidle, Pc.inCommit]]
    rfl
  · intro hbusy
    cases hbusy
  · intro p op hp
    cases hp

omit [DecidableEq P] [Fintype P] in
lemma Synced.start : Synced (State.start : State P) := by
  constructor
  · intro op hop
    cases hop
  · exact .inl rfl
  · simp [State.start]
  · intro p n owed hp
    cases hp
  · intro p owed hp
    cases hp

lemma Synced.of_run (h : Run Reservation.step careful State.start ls s) :
    Reserved s ∧ Synced s := by
  refine h.invariant (fun s => Reserved s ∧ Synced s) ⟨Reserved.start, Synced.start⟩ ?_
  rintro l s s' ⟨hbudget, hok⟩ hs ⟨hr, hsync⟩
  have hm := Move.of_step hs
  have hr' := hr.step hbudget hok hm
  exact ⟨hr', hsync.step hr hr' hok hm⟩

end

/-- Any number of processes begin, log, end and sync in any order, each
operation logging at most `MAXOPBLOCKS` distinct blocks. If none logs one of
its blocks again while the header is full, and `sys_sync` is not called at the
greatest `int`, then in every state: the header has at most `LOGBLOCKS` blocks,
all different; there has been no panic; whoever commits does so while no
operation is outstanding; and when `sys_sync` returns, every operation that had
ended when it was called is in a header that was written. -/
theorem log_reserved (P : Type) [Fintype P] [DecidableEq P] (ls : List (Label P)) (s : State P)
    (h : Run step careful State.start ls s) :
    s.lh.length ≤ logBlocks ∧ s.lh.Nodup ∧ s.panicked = none ∧
    (∀ p, (s.pc p = .committing ∨ s.pc p = .installing ∨ s.pc p = .committed) →
      s.outstanding = 0 ∧ ∀ q op, s.pc q ≠ .active op) ∧
    ∀ p owed, s.pc p = .synced owed → owed ⊆ s.durable := by
  obtain ⟨hr, hsync⟩ := Synced.of_run h
  have hroom := hr.room
  refine ⟨by omega, hr.distinct, hr.calm, ?_, hsync.synced⟩
  rintro p (hp | hp | hp) <;> exact (hr.no_op (p := p) (by rw [hp, Pc.inCommit])).2

/-- One process logs two blocks and commits them; another has called
`sys_sync` in between, and is about to return. -/
def commitAndSync : List (Label (Fin 2)) :=
  [.beginOp 0, .tryBegin 0, .logWrite 0 40, .logWrite 0 41, .logWrite 0 40, .endOp 0, .sync 1,
    .trySync 1, .writeHead 0, .clear 0, .finish 0, .trySync 1]

theorem log_reserved_commit_and_sync :
    ∃ s : State (Fin 2), Run step careful State.start commitAndSync s ∧
      s.pc 1 = .synced [⟨0, [40, 41]⟩] ∧ [⟨0, [40, 41]⟩] ⊆ s.durable := by
  refine Run.exists_imp (P := fun s => s.pc 1 = .synced [⟨0, [40, 41]⟩]) (by decide +kernel) ?_
  exact fun s hs hpc => ⟨hpc, (log_reserved (Fin 2) commitAndSync s hs).2.2.2.2 1 _ hpc⟩

/-- Three operations log ten blocks each, and the first of them logs one of its
blocks once more. -/
def threeFull : List (Label (Fin 3)) :=
  ([.beginOp 0, .tryBegin 0, .beginOp 1, .tryBegin 1, .beginOp 2, .tryBegin 2] :
      List (Label (Fin 3))) ++
    (List.range 10).map (fun i => .logWrite 0 (100 + i)) ++
    (List.range 10).map (fun i => .logWrite 1 (200 + i)) ++
    (List.range 10).map (fun i => .logWrite 2 (300 + i)) ++
    ([.logWrite 0 100] : List (Label (Fin 3)))

/-- The transaction fits the log, and `log_write` panics all the same. -/
theorem full_header_panics :
    ∃ s : State (Fin 3), Run step withinBudget State.start threeFull s ∧
      s.panicked = some .tooBigATransaction ∧ s.lh.length = logBlocks ∧ 100 ∈ s.lh := by
  decide +kernel

end CshellXv6.Fs.Reservation
