import CshellXv6.Shell.SessionRuns

/-! # The size of the job table

`jobs` has 2000 entries and `job_count` is the index of the next one.
`add_job` increments it and nothing ever decrements it, so the table is used
up after 2000 pipelines, however many of them have finished. The table of the
model is a list without a bound: an entry at index 2000 or above is one that
the program writes behind its array.
-/

namespace CshellXv6.Shell.Session

open Wait Lib Function List

/-- `job jobs[2000]`. -/
def tableSize : Nat := 2000

/-- `job_count`: the index that the next `add_job` writes to, and the bound of
every loop over the table. -/
def State.job_count (s : State) : Nat := s.jobs.length

/-- The calls of `add_job` in a session. -/
def recordings (ls : List Label) : Nat := ls.count (.exec .addJob)

/-! ## `job_count` counts the calls of `add_job` -/

variable {l : Label} {st' st : St} {pl : Plan} {s s' : State} {ok : Label → State → Prop}
  {ls : List Label} {prs_id p : Int} {kids : Int → Option Child} {old : List Job} {born : List Int}
  {n : Nat}

lemma job_count_of_exec {l : Wait.Label} (hvac : Vacant st) (hmove : Wait.Move pl st l st') :
    (st'.old ++ st'.job.toList).length =
      (st.old ++ st.job.toList).length + if l = .addJob then 1 else 0 := by
  cases hmove with
  | addJob hpc => simp [hvac _ hpc]
  | storeField | storeEntry => cases st.job <;> simp
  | update | reap =>
    cases hjob : st.job <;> simp [St.record, St.setChild, Shell.record, hjob]
  | _ => rfl

/-- Only `add_job` changes the count, and it adds one. -/
lemma job_count_of_move (hvac : Vacant s.st) (hmove : Move s l s') :
    s'.job_count = s.job_count + if l = .exec .addJob then 1 else 0 := by
  unfold State.job_count State.jobs
  cases hmove with
  | exec _ _ hmove =>
    rw [job_count_of_exec hvac hmove]
    simp
  | fail => simp [State.abandon, State.leave, State.jobs]
  | finish => simp [State.leave, State.jobs]
  | background | store => simp [State.goto, State.setRunning]
  | record | recorded | reap =>
    cases hjob : s.st.job <;> simp [State.goto, St.record, St.setChild, Shell.record, hjob]
  | control hctl =>
    rw [hctl.st_eq, if_neg (by rintro rfl; cases hctl.label)]
    rfl
  | _ => rfl

lemma job_count_eq (hrun : Run step ok State.start ls s) : s.job_count = recordings ls := by
  induction hrun with
  | nil => rfl
  | snoc hrun _ hstep ih =>
    rw [job_count_of_move (vacant_of_run hrun) (Move.of_step hstep), ih]
    simp [recordings, count_singleton]

/-- **The table holds 2000 jobs, finished or not.** In every session, all
calls of `add_job` write inside the table and all loops over it stay inside
it exactly when there are at most 2000 such calls. -/
theorem table_in_bounds_iff (ls : List Label) (s : State)
    (hrun : Run step anyStep State.start ls s) :
    ((∀ ls1 ls2 s1, ls = ls1 ++ .exec .addJob :: ls2 → Run step anyStep State.start ls1 s1 →
        s1.job_count < tableSize) ∧ s.job_count ≤ tableSize) ↔
      recordings ls ≤ tableSize := by
  constructor
  · intro h
    rw [← job_count_eq hrun]
    exact h.2
  intro hfew
  refine ⟨fun ls1 ls2 s1 hls hrun1 => ?_, ?_⟩
  · rw [job_count_eq hrun1]
    have hsplit : recordings ls = recordings ls1 + (1 + recordings ls2) := by
      rw [hls, recordings, count_append, count_cons_self, Nat.add_comm 1]
      rfl
    omega
  · rw [job_count_eq hrun]
    exact hfew

/-- The theorem at a session of one line. -/
theorem table_in_bounds_iff_one_line :
    ∃ s, Run step anyStep State.start
        [.next, .read "a &".toList, .command true, .exec (.fork 2), .exec .addJob] s ∧
      (∀ ls1 ls2 s1, [.next, .read "a &".toList, .command true, .exec (.fork 2), .exec .addJob] =
          ls1 ++ .exec .addJob :: ls2 → Run step anyStep State.start ls1 s1 →
        s1.job_count < tableSize) ∧ s.job_count ≤ tableSize := by
  refine Run.exists_imp (P := fun _ => True) (by decide +kernel) ?_
  exact fun s hrun _ => (table_in_bounds_iff _ s hrun).mpr (by decide)

/-! ## A session that runs out of entries -/

/-- The shell outside `execute`. -/
def outside (kids : Int → Option Child) (born : List Int) (old : List Job) (prs_id : Int)
    (todo : List Command) (mode : Mode) : State :=
  ⟨⟨kids, born, old, none, [], .fork 0, false, false⟩, prs_id, false, false, false, todo, mode,
    none⟩

/-- The shell at its prompt. -/
def idle (kids : Int → Option Child) (born : List Int) (old : List Job) (prs_id : Int) : State :=
  outside kids born old prs_id [] (.drain .prompt)

/-- The command of the line `a &`, its pipeline and the entry that it gets. -/
def aCommand : Command := ⟨[⟨.word, "a"⟩], true⟩

@[inherit_doc aCommand]
def aPlan (prs_id : Int) : Plan := ⟨[some "a"], true, true, prs_id, "a"⟩

@[inherit_doc aCommand]
def aJob (prs_id p : Int) : Job :=
  ⟨prs_id, true, true, p, [⟨p, "a", .running, true, false⟩], "a"⟩

/-- The shell right before `add_job`, in the line `a &`. -/
def launched (kids : Int → Option Child) (born : List Int) (old : List Job) (prs_id p : Int) :
    State :=
  ⟨⟨update kids p (some ⟨.running, false⟩), p :: born, old, none, [p], .fork 1, false,
    false⟩, prs_id, false, false, false, [], .execute (aPlan prs_id) 1, none⟩

lemma dispatch_aCommand (prs_id : Int) :
    dispatch aCommand true prs_id = .execute (aPlan prs_id) 1 := by
  have hstages : (stagesOf aCommand.input).map stageName = [some "a"] := by decide +kernel
  have hbad : badStage aCommand = 1 := by decide +kernel
  have hext : aCommand.builtin = false := by decide +kernel
  rw [dispatch, hext, hbad, if_neg Bool.false_ne_true, plan, hstages]
  rfl

lemma run_launch
    (hquiet : (idle kids born old prs_id).st.quiet = true) (hp : 1 < p) (hfree : kids p = none) :
    Run step anyStep (idle kids born old prs_id)
      [.next, .read "a &".toList, .command true, .exec (.fork p)]
      (launched kids born old prs_id p) := by
  have hdrain : step .next (idle kids born old prs_id) =
      some (outside kids born old prs_id [] .prompt) := by
    show (if (idle kids born old prs_id).st.quiet = true ∧ none = none then _ else none) = _
    rw [if_pos ⟨hquiet, rfl⟩]
    rfl
  have hread : step (.read "a &".toList) (outside kids born old prs_id [] .prompt) =
      some (outside kids born old prs_id [aCommand] .line) := by
    have hconv : convert "a &".toList = .ok [⟨.word, "a"⟩, ⟨.and, "&"⟩] := by decide +kernel
    have hsplit : splitLine Token.textType [⟨.word, "a"⟩, ⟨.and, "&"⟩] = [aCommand] := by
      decide +kernel
    show State.read "a &".toList _ = _
    rw [State.read, hconv]
    exact congrArg (fun todo => some (outside kids born old prs_id todo .line)) hsplit
  have hcmd : step (.command true) (outside kids born old prs_id [aCommand] .line) =
      some (outside kids born old prs_id [] (.execute (aPlan prs_id) 1)) :=
    congrArg (fun m => some (outside kids born old prs_id [] m)) (dispatch_aCommand prs_id)
  have hfork : step (.exec (.fork p))
      (outside kids born old prs_id [] (.execute (aPlan prs_id) 1)) =
        some (launched kids born old prs_id p) := by
    have hpos : 0 < p := by omega
    simp [step, mainStep, outside, State.exec, State.permits, shellStep, aPlan, St.free, hfree,
      hp, hpos, launched, St.spawn]
  exact (((Run.nil.snoc trivial hdrain).snoc trivial hread).snoc trivial hcmd).snoc trivial hfork

lemma run_record (kids : Int → Option Child) (born : List Int) (old : List Job) (prs_id p : Int) :
    Run step anyStep (launched kids born old prs_id p)
      ((.exec .addJob :: List.replicate 11 (.exec .store) : List Label) ++
        ([.exec .release, .finish, .command true] : List Label))
      (idle (update kids p (some ⟨.running, false⟩)) (p :: born)
        (old ++ [aJob prs_id p]) (prs_id + 1)) := by
  refine Run.of_replay ?_
  rfl

/-- The shell at its prompt after `n` lines `a &`. -/
structure Idle (n : Nat) (s : State) : Prop where
  exists_eq : ∃ kids born old, s = idle kids born old (n + 1) ∧ old.length = n ∧
    (∀ q ≥ (n : Int) + 2, kids q = none)
  quiet : s.st.quiet = true

lemma idle_start : Idle 0 State.start where
  exists_eq := ⟨fun _ => none, [], [], rfl, rfl, fun _ _ => rfl⟩
  quiet := rfl

lemma Idle.next (h : Idle n s) : ∃ ls s', Run step anyStep s ls s' ∧ Idle (n + 1) s' := by
  obtain ⟨⟨kids, born, old, rfl, hlen, hfree⟩, hquiet⟩ := h
  refine ⟨_, _, (run_launch hquiet (by omega) (hfree (n + 2) le_rfl)).append
    (run_record kids born old (n + 1) (n + 2)), ⟨_, _, _, rfl, ?_, ?_⟩, ?_⟩
  · simp [hlen]
  · intro q hq
    rw [update_of_ne (by push_cast at hq; omega)]
    exact hfree q (by push_cast at hq; omega)
  simp only [St.quiet, idle, outside, all_eq_true] at hquiet ⊢
  intro q hq
  by_cases hqn : q = (n : Int) + 2
  · simp [hqn]
  · rw [update_of_ne hqn]
    exact hquiet q (mem_of_ne_of_mem hqn hq)

/-- A session may record any number of jobs. -/
lemma exists_idle (n : Nat) : ∃ ls s, Run step anyStep State.start ls s ∧ Idle n s := by
  induction n with
  | zero => exact ⟨[], _, .nil, idle_start⟩
  | succ n ih =>
    obtain ⟨ls, s, hrun, hidle⟩ := ih
    obtain ⟨ls', s', hrun', hidle'⟩ := hidle.next
    exact ⟨ls ++ ls', s', hrun.append hrun', hidle'⟩

/-- After 2000 lines `a &` the next one calls `add_job` with `job_count` 2000,
which is no index of the table. -/
theorem job_table_overflows :
    ∃ ls s s', Run step anyStep State.start ls s ∧ step (.exec .addJob) s = some s' ∧
      s.job_count = tableSize ∧ s'.job_count = tableSize + 1 := by
  obtain ⟨ls, s, hrun, ⟨kids, born, old, rfl, hlen, hfree⟩, hquiet⟩ := exists_idle tableSize
  have hlaunch := run_launch (p := tableSize + 2) hquiet (by omega) (hfree _ le_rfl)
  have hadd : ∃ s', step (.exec .addJob) (launched kids born old (tableSize + 1) (tableSize + 2)) =
      some s' := ⟨_, rfl⟩
  obtain ⟨s', hs'⟩ := hadd
  have hcount : (launched kids born old (tableSize + 1) (tableSize + 2)).job_count = tableSize := by
    simp [State.job_count, State.jobs, launched, hlen]
  refine ⟨_, _, s', hrun.append hlaunch, hs', hcount, ?_⟩
  rw [job_count_of_move (vacant_of_run (hrun.append hlaunch)) (Move.of_step hs'), hcount]
  rfl

end CshellXv6.Shell.Session
