import CshellXv6.Shell.SessionRuns

/-! # One call of `resume`

Which call of `resume` the shell is in, and what a step can do to it: a call
begins with the lookup of its job, `resume fg` ends at its report, and in
between the entries of the job keep their pids.
-/

namespace CshellXv6.Shell.Session

open Wait

/-- The call of `resume` that the shell is in, also while it sends a signal or
updates the table. -/
def Mode.resuming : Mode → Option Resume
  | .resume r _ _ => some r
  | .signal _ _ next => next.resuming
  | .drain next => next.resuming
  | _ => none

lemma Mode.resuming_of_plain {m : Mode} (h : m.plain = true) : m.resuming = none := by
  induction m with
  | drain next ih => exact ih h
  | resume | signal => cases h
  | _ => rfl

lemma Mode.resuming_interrupt (m : Mode) : m.interrupt.resuming = m.resuming :=
  Mode.congr_interrupt Mode.resuming (fun _ _ _ => rfl) m

lemma Resume.resuming_resumed {r : Resume} {stopped : Bool} :
    (r.resumed stopped).resuming = if r.fg then some r else none := by
  unfold Resume.resumed
  split <;> rfl

variable {s s' : State} {l : Label} {r : Resume} {pt : Point} {k i j : Nat}

lemma Control.resuming (h : Control s l s') (hr : s'.mode.resuming = some r) :
    s.mode.resuming = some r ∨
      (l = .next ∧ ∃ job_id, s.mode = .lookup (.resume job_id r.fg r.timeout)) := by
  cases h with
  | plain _ _ hm =>
    rw [Mode.resuming_of_plain hm] at hr
    cases hr
  | command | aimJob | aimPid | aimHup | reported => cases hr
  | foreground hmode =>
    cases hr
    exact .inr ⟨rfl, _, hmode⟩
  | tested hmode =>
    simp only [Mode.resuming, Resume.resuming_resumed] at hr
    split at hr
    · cases hr
      exact .inl (hmode ▸ rfl)
    · cases hr
  | timedOut hmode =>
    cases hr
    rcases hmode with hmode | hmode
    all_goals exact .inl (hmode ▸ rfl)
  | drained hmode | kill hmode => exact .inl (by rw [hmode]; exact hr)
  | alarm => exact .inl (by rw [← Mode.resuming_interrupt]; exact hr)
  | _ hmode =>
    cases hr
    exact .inl (hmode ▸ rfl)

/-- A call of `resume` begins with the lookup. -/
lemma Move.resuming (h : Move s l s') (hr : s'.mode.resuming = some r) :
    s.mode.resuming = some r ∨
      (l = .next ∧ ∃ job_id, s.mode = .lookup (.resume job_id r.fg r.timeout)) := by
  cases h with
  | fail | finish => cases hr
  | background hmode =>
    cases hr
    exact .inr ⟨rfl, _, hmode⟩
  | store hmode | record hmode =>
    cases hr
    exact .inl (hmode ▸ rfl)
  | wait hmode =>
    cases hr
    rcases hmode with hmode | hmode
    all_goals exact .inl (hmode ▸ rfl)
  | interrupt | sigchld => exact .inl (by rw [← Mode.resuming_interrupt]; exact hr)
  | control hctl => exact hctl.resuming hr
  | _ => exact .inl hr

lemma Control.leaves (h : Control s l s') (hr : s.mode.resuming = some r) (hfg : r.fg = true) :
    s'.mode.resuming = some r ∨ ∃ stopped, s.mode = .resume r stopped .report := by
  cases h with
  | plain _ hrest =>
    rw [Mode.resuming_of_plain (Mode.plain_of_resting hrest)] at hr
    cases hr
  | tested hmode =>
    rw [hmode] at hr
    cases hr
    refine .inl ?_
    simp [Mode.resuming, Resume.resuming_resumed, hfg]
  | timedOut hmode =>
    rcases hmode with hmode | hmode <;>
    · rw [hmode] at hr
      cases hr
      exact .inl rfl
  | reported hmode =>
    rw [hmode] at hr
    cases hr
    exact .inr ⟨_, hmode⟩
  | drained hmode | kill hmode =>
    rw [hmode] at hr
    exact .inl hr
  | alarm => exact .inl ((Mode.resuming_interrupt s.mode).trans hr)
  | _ hmode =>
    rw [hmode] at hr
    cases hr
    try exact .inl rfl

/-- `resume fg` ends at its report only. -/
lemma Move.leaves (h : Move s l s') (hr : s.mode.resuming = some r) (hfg : r.fg = true) :
    s'.mode.resuming = some r ∨ ∃ stopped, s.mode = .resume r stopped .report := by
  cases h with
  | exec hmode | fail hmode | finish hmode | background hmode => simp [hmode, Mode.resuming] at hr
  | store hmode | record hmode =>
    rw [hmode] at hr
    exact .inl hr
  | wait hmode =>
    rcases hmode with hmode | hmode <;>
    · rw [hmode] at hr
      exact .inl hr
  | interrupt | sigchld => exact .inl ((Mode.resuming_interrupt s.mode).trans hr)
  | control hctl => exact hctl.leaves hr hfg
  | _ => exact .inl hr

/-! ## The entries of the job -/

lemma map_pid_entry (s : State) (i k : Nat) :
    (s.entry i k).map Process.pid = ((s.st.old.map frame)[i]?).bind (·.2.2[k]?) := by
  rw [State.entry, List.getElem?_map]
  cases s.st.old[i]? with
  | none => rfl
  | some j => simp [frame]

/-- Outside `execute` no entry gets another pid, and none appears or goes. -/
lemma Move.pid_entry (h : Move s l s') (hexec : ∀ pl bad, s.mode ≠ .execute pl bad)
    (i k : Nat) : (s'.entry i k).map Process.pid = (s.entry i k).map Process.pid := by
  rcases frames_of_move h with hframes | ⟨⟨pl, bad, hmode⟩, -⟩
  · rw [map_pid_entry, map_pid_entry, hframes]
  · exact absurd hmode (hexec pl bad)

/-- The steps of a call, its first included, are taken outside `execute`. -/
lemma Move.not_executing (h : Move s l s') (hr : s'.mode.resuming = some r) (pl : Plan)
    (bad : Nat) : s.mode ≠ .execute pl bad := by
  rcases h.resuming hr with hr | ⟨-, job_id, hlookup⟩
  · rintro hmode
    rw [hmode] at hr
    cases hr
  · simp [hlookup]

/-- A command is run outside `resume`. -/
lemma Move.ne_command (h : Move s l s') (hr : s.mode.resuming = some r)
    (hr' : s'.mode.resuming = some r) (sync : Bool) : l ≠ .command sync := by
  rintro rfl
  cases h with
  | control hctl =>
    cases hctl with
    | plain _ hrest =>
      rw [Mode.resuming_of_plain (Mode.plain_of_resting hrest)] at hr
      cases hr
    | command => cases hr'

/-! ## How far the loop has come -/

/-- The loop has come past process `k`. -/
def Point.passed : Point → Nat → Bool
  | .loop j, k => k < j
  | .call j, k => k < j
  | .blocked j, k => k < j
  | .interrupted j, k => k < j
  | .record j _ _, k => k ≤ j
  | .check j, k => k ≤ j
  | .disarm, _ => true
  | .expired, _ => true
  | .report, _ => true
  | _, _ => false

lemma Mode.exists_of_interrupt {m : Mode} {stopped : Bool}
    (h : m.interrupt = .resume r stopped pt) :
    ∃ pt0, m = .resume r stopped pt0 ∧
      (pt0 = pt ∨ ∃ k, pt0 = .blocked k ∧ pt = .interrupted k) := by
  unfold Mode.interrupt at h
  split at h
  next r0 stopped0 k =>
    cases h
    exact ⟨.blocked k, rfl, .inr ⟨k, rfl, rfl⟩⟩
  · exact ⟨pt, h, .inl rfl⟩

/-- Entries come before the end of the loop. -/
lemma lt_of_entry_none (hj : s.entry i j = none) (hk : (s.entry i k).isSome = true) : k < j := by
  unfold State.entry at hj hk
  cases hi : s.st.old[i]? with
  | none => simp [hi] at hk
  | some job =>
    simp only [hi, Option.bind_some] at hj hk
    rw [List.getElem?_eq_none_iff] at hj
    by_contra hcon
    rw [List.getElem?_eq_none (by omega)] at hk
    cases hk

/-- How `resume`, at `pt` after a step, can have come past process `k`: it was
past it before, it skips it, `waitpid` fails or returns, or it left the loop
on a timeout. -/
inductive Passing (s : State) (r : Resume) (stopped : Bool) (pt : Point) (k : Nat) : Prop where
  | past {stopped0 : Bool} {pt0 : Point} (hmode : s.mode = .resume r stopped0 pt0)
      (hk : pt0.passed k = true) (hflag : stopped0 = true → stopped = true)
      (hrec : ∀ q status, pt0 = .record k q status →
        pt = pt0 ∨ (WIFSTOPPED status = true → stopped = true))
  | skipped {e : Process} (hmode : s.mode = .resume r stopped (.loop k))
      (he : s.entry r.job k = some e) (hdead : e.state = .terminated)
  | lost {e : Process} (hmode : s.mode = .resume r stopped (.call k))
      (he : s.entry r.job k = some e) (hrem : s.remains e.pid = false)
  | returned {e : Process} {q : Int} {c : Child}
      (hmode : s.mode = .resume r stopped (.call k) ∨ s.mode = .resume r stopped (.blocked k))
      (he : s.entry r.job k = some e) (hc : s.st.kids q = some c) (hq : q ∈ s.asked e.pid)
      (hw : c.waitable = true) (hpt : pt = .record k q c.real.status)
  | timedOut (hr : s.mode.resuming = some r) (ht : s.timed_out = true)
  | nested (hmode : s.mode = .drain (.resume r stopped pt) ∨
      ∃ sig aim, s.mode = .signal sig aim (.resume r stopped pt))

section Passing

variable {stopped : Bool} {pt : Point} {k : Nat}

lemma passing_of_interrupt (hmode : s.mode.interrupt = .resume r stopped pt)
    (hk : pt.passed k = true) : Passing s r stopped pt k := by
  obtain ⟨pt0, hm, rfl | ⟨j, rfl, rfl⟩⟩ := Mode.exists_of_interrupt hmode
  · exact .past hm hk (fun h => h) (fun _ _ _ => .inl rfl)
  · exact .past hm hk (fun h => h) (fun _ _ h => by cases h)

lemma Control.passing (hctl : Control s l s') (hmode' : s'.mode = .resume r stopped pt)
    (hk : pt.passed k = true) (he : (s.entry r.job k).isSome = true) :
    Passing s r stopped pt k := by
  cases hctl with
  | plain _ _ hm => cases (Mode.resuming_of_plain hm).symm.trans (congrArg Mode.resuming hmode')
  | command | aimJob | aimPid | aimHup | tested | expired | reported => cases hmode'
  | foreground | testLive | testDead =>
    cases hmode'
    cases hk
  | armed | unarmed =>
    cases hmode'
    simp [Point.passed] at hk
  | loopDone hmode hnone =>
    cases hmode'
    exact .past hmode (by simpa [Point.passed] using lt_of_entry_none hnone he)
      (fun h => h) (fun _ _ h => by cases h)
  | loopSkip hmode hsome hdead =>
    cases hmode'
    rcases Nat.lt_succ_iff_lt_or_eq.mp (by simpa [Point.passed] using hk) with hlt | rfl
    · exact .past hmode (by simpa [Point.passed] using hlt) (fun h => h) (fun _ _ h => by cases h)
    · exact .skipped hmode hsome hdead
  | callLost hmode hsome hrem =>
    cases hmode'
    rcases Nat.lt_or_eq_of_le (by simpa [Point.passed] using hk) with hlt | rfl
    · exact .past hmode (by simpa [Point.passed] using hlt) (fun h => h) (fun _ _ h => by cases h)
    · exact .lost hmode hsome hrem
  | checked hmode =>
    cases hmode'
    exact .past hmode (by simpa [Point.passed, Nat.lt_succ_iff] using hk) (fun h => h)
      (fun _ _ h => by cases h)
  | timedOut hmode ht =>
    cases hmode'
    rcases hmode with hmode | hmode
    all_goals exact .timedOut (by rw [hmode]; rfl) ht
  | drained hmode =>
    cases hmode'
    exact .nested (.inl hmode)
  | kill hmode =>
    cases hmode'
    exact .nested (.inr ⟨_, _, hmode⟩)
  | alarm => exact passing_of_interrupt hmode' hk
  | _ hmode =>
    cases hmode'
    exact .past hmode hk (fun h => h) (fun _ _ h => by cases h)

lemma Move.passing (hmove : Move s l s') (hmode' : s'.mode = .resume r stopped pt)
    (hk : pt.passed k = true) (he : (s.entry r.job k).isSome = true) :
    Passing s r stopped pt k := by
  cases hmove with
  | fail | finish => cases hmode'
  | background | store =>
    cases hmode'
    cases hk
  | record hmode =>
    cases hmode'
    refine .past hmode hk (fun h => by simp [h]) (fun q status h => .inr (fun hstop => ?_))
    cases h
    simp [hstop]
  | wait hmode hsome hc hq hw =>
    cases hmode'
    rcases Nat.lt_or_eq_of_le (by simpa [Point.passed] using hk) with hlt | rfl
    · have hlt' := decide_eq_true hlt
      rcases hmode with hmode | hmode
      all_goals exact .past hmode hlt' (fun h => h) (fun _ _ h => by cases h)
    · exact .returned hmode hsome hc hq hw rfl
  | interrupt | sigchld => exact passing_of_interrupt hmode' hk
  | control hctl => exact hctl.passing hmode' hk he
  | _ => exact .past hmode' hk (fun h => h) (fun _ _ _ => .inl rfl)

end Passing

end CshellXv6.Shell.Session
