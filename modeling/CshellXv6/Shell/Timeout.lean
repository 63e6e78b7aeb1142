import CshellXv6.Shell.Resume

/-! # The timeout of `resume`

`resume fg --timeout n` sets an alarm, whose handler sets the global
`timed_out`; the wait loop looks at it after every `waitpid`, and `resume`
once more before it sends `SIGTERM`. Only a call with `--timeout` clears the
flag before it starts to wait. So a call without one depends on what earlier
calls left behind: `stale_timeout_terminates`. When each of them starts with
the flag clear, it waits for every process of its job and never sends
`SIGTERM`: `untimed_resume_waits`.
-/

namespace CshellXv6.Shell.Session

open Wait Lib List

/-- A `resume fg` without `--timeout` starts with `timed_out` clear. -/
def startsClear (l : Label) (s : State) : Prop :=
  match l, s.mode with
  | .next, .lookup (.resume _ true timeout) => 0 < timeout ∨ s.timed_out = false
  | _, _ => True

instance (l : Label) (s : State) : Decidable (startsClear l s) := by
  unfold startsClear
  generalize s.mode = m
  apply @Label.casesOn _ l
  case next =>
    apply @Mode.casesOn _ m
    case lookup =>
      intro req
      apply @Request.casesOn _ req
      case resume =>
        intro _ fg _
        apply @Bool.casesOn _ fg <;> infer_instance
      all_goals intros; infer_instance
    all_goals intros; infer_instance
  all_goals intros; infer_instance

/-! ## The flag and the alarm -/

/-- The points of `resume` between `alarm(timeout)` and `alarm(0)`. -/
def Point.timing : Point → Bool
  | .test _ => false
  | .store _ => false
  | .arm => false
  | .expired => false
  | .report => false
  | _ => true

/-- The shell waits in a call of `resume` with `--timeout`. -/
def Mode.timed : Mode → Bool
  | .resume r _ pt => pt.timing && 0 < r.timeout
  | _ => false

/-- A call of `resume fg` without `--timeout`. -/
def Resume.untimed (r : Resume) : Prop := r.fg = true ∧ ¬ 0 < r.timeout

/-- The alarm is set in a call with `--timeout` only, and during a call
without one the flag is clear and no signal but `SIGCONT` is due. -/
structure Clear (s : State) : Prop where
  alarm : s.alarm = true → s.mode.timed = true
  flag : ∀ r : Resume, s.mode.resuming = some r → r.untimed → s.timed_out = false
  points : ∀ r : Resume, s.mode.resuming = some r → r.untimed →
    (∃ stopped pt, s.mode = .resume r stopped pt) ∨
      ∃ aim stopped, s.mode = .signal .cont aim (.resume r stopped .arm)

variable {s s' : State} {l : Label} {r : Resume} {ls : List Label} {k j : Nat} {c : Child}
  {e : Process} {q : Int} {pt : Point}

lemma Mode.timed_interrupt (m : Mode) : m.interrupt.timed = m.timed :=
  Mode.congr_interrupt Mode.timed (fun _ _ _ => rfl) m

/-- The two places where the flag is written. -/
lemma Move.timed_out_eq (h : Move s l s') :
    s'.timed_out = s.timed_out ∨ s'.timed_out = false ∨ s.alarm = true := by
  cases h with
  | control hctl =>
    cases hctl with
    | armed => exact .inr (.inl rfl)
    | alarm ha => exact .inr (.inr ha)
    | _ => exact .inl rfl
  | _ => exact .inl rfl

lemma Clear.alarm_of_move (h : Clear s) (hmove : Move s l s') (ha' : s'.alarm = true) :
    s'.mode.timed = true := by
  cases hmove with
  | exec => exact h.alarm ha'
  | fail hmode | finish hmode | background hmode | store hmode =>
    have ht := h.alarm ha'
    simp [hmode, Mode.timed, Point.timing] at ht
  | record hmode =>
    have ht := h.alarm ha'
    rwa [hmode] at ht
  | wait hmode =>
    have ht := h.alarm ha'
    rcases hmode with hmode | hmode <;> rwa [hmode] at ht
  | interrupt | sigchld => exact (Mode.timed_interrupt s.mode).trans (h.alarm ha')
  | control hctl =>
    cases hctl with
    | plain _ hplain =>
      have ht := h.alarm ha'
      cases hm : s.mode <;> simp_all [Mode.timed, Mode.resting, Mode.plain]
    | armed _ ht => simpa [State.goto, Mode.timed, Point.timing] using ht
    | timedOut hmode =>
      have ht := h.alarm ha'
      rcases hmode with hmode | hmode <;> rwa [hmode] at ht
    | disarm | alarm => cases ha'
    | _ hmode =>
      have ht := h.alarm ha'
      simp_all [Mode.timed, Point.timing, State.goto]
  | _ => exact h.alarm ha'

lemma Clear.flag_of_move (h : Clear s) (hok : startsClear l s) (hmove : Move s l s')
    (hr : s'.mode.resuming = some r) (hun : r.untimed) : s'.timed_out = false := by
  have hbefore : s.timed_out = false := by
    rcases hmove.resuming hr with hr' | ⟨rfl, job_id, hmode⟩
    · exact h.flag r hr' hun
    rw [hun.1] at hmode
    simp only [startsClear, hmode] at hok
    exact hok.resolve_left hun.2
  rcases hmove.timed_out_eq with heq | hclear | halarm
  · exact heq.trans hbefore
  · exact hclear
  -- an alarm is set: the call has a timeout
  exfalso
  have ht := h.alarm halarm
  rcases hmove.resuming hr with hr' | ⟨rfl, job_id, hmode⟩
  · cases hm : s.mode with
    | resume r0 stopped pt =>
      rw [hm] at hr' ht
      cases hr'
      simp only [Mode.timed, Bool.and_eq_true, decide_eq_true_eq] at ht
      exact hun.2 ht.2
    | _ =>
      rw [hm] at ht
      cases ht
  · rw [hmode] at ht
    cases ht

/-- A signal handler does not move the call on. -/
lemma Mode.points_interrupt {m : Mode}
    (h : (∃ stopped pt, m = .resume r stopped pt) ∨
      ∃ aim stopped, m = .signal .cont aim (.resume r stopped .arm)) :
    (∃ stopped pt, m.interrupt = .resume r stopped pt) ∨
      ∃ aim stopped, m.interrupt = .signal .cont aim (.resume r stopped .arm) := by
  rcases h with ⟨stopped, pt, rfl⟩ | ⟨aim, stopped, rfl⟩
  · cases pt with
    | blocked k => exact .inl ⟨stopped, .interrupted k, rfl⟩
    | _ => exact .inl ⟨stopped, _, rfl⟩
  · exact .inr ⟨aim, stopped, rfl⟩

lemma Clear.points_of_control (h : Clear s) (hctl : Control s l s')
    (hr : s'.mode.resuming = some r) (hun : r.untimed) :
    (∃ stopped pt, s'.mode = .resume r stopped pt) ∨
      ∃ aim stopped, s'.mode = .signal .cont aim (.resume r stopped .arm) := by
  cases hctl with
  | plain _ _ hm =>
    rw [Mode.resuming_of_plain hm] at hr
    cases hr
  | tested =>
    rename_i r0 stopped k hmode he
    simp only [Mode.resuming, Resume.resuming_resumed] at hr
    split at hr
    next hfg =>
      cases hr
      exact .inr ⟨.job r.job, stopped, by simp [Resume.resumed, hfg]⟩
    · cases hr
  | expired hmode ht =>
    -- the flag is clear in such a call
    cases hr
    rw [h.flag r (by rw [hmode]; rfl) hun] at ht
    cases ht
  | drained hmode =>
    rcases h.points r (by rw [hmode]; exact hr) hun with ⟨_, _, hm⟩ | ⟨_, _, hm⟩ <;>
    · rw [hmode] at hm
      cases hm
  | kill hmode =>
    rcases h.points r (by rw [hmode]; exact hr) hun with ⟨_, _, hm⟩ | ⟨_, stopped, hm⟩
    · rw [hmode] at hm
      cases hm
    rw [hmode] at hm
    cases hm
    exact .inl ⟨stopped, .arm, rfl⟩
  | alarm =>
    rw [Mode.resuming_interrupt] at hr
    exact Mode.points_interrupt (h.points r hr hun)
  | command | aimJob | aimPid | aimHup | reported => cases hr
  | _ =>
    cases hr
    exact .inl ⟨_, _, rfl⟩

lemma Clear.points_of_move (h : Clear s) (hmove : Move s l s') (hr : s'.mode.resuming = some r)
    (hun : r.untimed) :
    (∃ stopped pt, s'.mode = .resume r stopped pt) ∨
      ∃ aim stopped, s'.mode = .signal .cont aim (.resume r stopped .arm) := by
  cases hmove with
  | fail | finish => cases hr
  | background | store | record | wait =>
    cases hr
    exact .inl ⟨_, _, rfl⟩
  | interrupt | sigchld =>
    rw [Mode.resuming_interrupt] at hr
    exact Mode.points_interrupt (h.points r hr hun)
  | control hctl => exact h.points_of_control hctl hr hun
  | _ => exact h.points r hr hun

lemma clear_of_run (hrun : Run step startsClear State.start ls s) : Clear s := by
  refine hrun.invariant Clear ?_ (fun l s s' hok hstep h => ?_)
  · exact ⟨(fun ha => by cases ha), (fun _ hr => by cases hr), fun _ hr => by cases hr⟩
  have hmove := Move.of_step hstep
  exact ⟨h.alarm_of_move hmove, fun r => h.flag_of_move hok hmove, fun r => h.points_of_move hmove⟩

/-! ## What the loop has waited for -/

/-- The loop is at process `k`: at the test of its state or at its `waitpid`. -/
def Mode.loopsAt (r : Resume) (k : Nat) (m : Mode) : Prop :=
  ∃ stopped, m = .resume r stopped (.loop k) ∨ m = .resume r stopped (.call k) ∨
    m = .resume r stopped (.blocked k)

/-- The loop is past process `k`. -/
def Mode.loopsPast (r : Resume) (k : Nat) (m : Mode) : Prop :=
  ∃ stopped pt, m = .resume r stopped pt ∧ pt.passed k = true

/-- Process `k` of the job has terminated according to the table, or `waitpid` has a stop
or an end of it to return, or there is no such child any more. -/
def AtRest (s : State) (r : Resume) (k : Nat) : Prop :=
  ∃ e, s.entry r.job k = some e ∧ (e.state = .terminated ∨
    ∀ c, s.st.kids e.pid = some c → c.waitable = true ∨ c.reaped = true)

/-- The loop of this call of `resume` has left process `k` when that was at rest. The call
is the current one: `main` has run no command since. -/
def Waited (ls : List Label) (s : State) (r : Resume) (k : Nat) : Prop :=
  ∃ ls1 l ls2 s0 s1, ls = ls1 ++ l :: ls2 ∧ Run step startsClear State.start ls1 s0 ∧
    step l s0 = some s1 ∧ Run step startsClear s1 ls2 s ∧
    s0.mode.loopsAt r k ∧ AtRest s0 r k ∧ s1.mode.loopsPast r k ∧
    ∀ sync, .command sync ∉ l :: ls2

lemma Waited.snoc (h : Waited ls s r k) (hok : startsClear l s) (hstep : step l s = some s')
    (hl : ∀ sync, l ≠ .command sync) : Waited (ls ++ [l]) s' r k := by
  obtain ⟨ls1, l1, ls2, s0, s1, rfl, hrun1, hstep1, hrun2, hat, hrest, hpast, hcmd⟩ := h
  refine ⟨ls1, l1, ls2 ++ [l], s0, s1, by simp, hrun1, hstep1, hrun2.snoc hok hstep, hat, hrest,
    hpast, fun sync hmem => ?_⟩
  rw [← cons_append] at hmem
  rcases mem_append.mp hmem with hmem | hmem
  · exact hcmd sync hmem
  · exact hl sync (mem_singleton.mp hmem).symm

/-- `waitpid` returned a change of process `j`. -/
lemma atRest_of_wait (hkids : Children s.st)
    (he : s.entry r.job j = some e) (hc : s.st.kids q = some c) (hq : q ∈ s.asked e.pid)
    (hw : c.waitable = true) : AtRest s r j := by
  refine ⟨e, he, .inr (fun c' hc' => ?_)⟩
  unfold State.asked at hq
  split at hq
  next hneg =>
    -- no child has pid -1
    have := (hkids _ _ hc').1
    omega
  · rw [mem_singleton] at hq
    rw [← hq, hc] at hc'
    cases hc'
    exact .inl hw

/-- `waitpid` failed: the child of process `j` is gone. -/
lemma atRest_of_lost (hkids : Children s.st)
    (he : s.entry r.job j = some e) (hrem : s.remains e.pid = false) : AtRest s r j := by
  refine ⟨e, he, .inr (fun c hc => .inr ?_)⟩
  unfold State.remains State.asked at hrem
  split at hrem
  next hneg =>
    have := (hkids _ _ hc).1
    omega
  · simpa [hc] using hrem

/-- A process that the loop of a call without a timeout is past: it was so
before the step, or the process is at rest now. -/
lemma atRest_of_passing {stopped : Bool} (hclear : Clear s) (hkids : Children s.st)
    (hun : r.untimed) (hk : pt.passed k = true) (h : Passing s r stopped pt k) :
    (∃ stopped0 pt0, s.mode = .resume r stopped0 pt0 ∧ pt0.passed k = true) ∨
      (s.mode.loopsAt r k ∧ AtRest s r k) := by
  cases h with
  | past hmode hk0 => exact .inl ⟨_, _, hmode, hk0⟩
  | skipped hmode he hdead => exact .inr ⟨⟨_, .inl hmode⟩, _, he, .inl hdead⟩
  | lost hmode he hrem => exact .inr ⟨⟨_, .inr (.inl hmode)⟩, atRest_of_lost hkids he hrem⟩
  | returned hmode he hc hq hw =>
    exact .inr ⟨⟨_, .inr hmode⟩, atRest_of_wait hkids he hc hq hw⟩
  | timedOut hr ht =>
    rw [hclear.flag r hr hun] at ht
    cases ht
  | nested hmode =>
    -- such a call is nowhere but at a point of its own or before its `SIGCONT`
    exfalso
    have hr : s.mode.resuming = some r := by
      rcases hmode with hmode | ⟨_, _, hmode⟩ <;> rw [hmode] <;> rfl
    rcases hclear.points r hr hun with ⟨_, _, hm⟩ | ⟨_, _, hm⟩
    · rcases hmode with hmode | ⟨_, _, hmode⟩ <;>
      · rw [hmode] at hm
        cases hm
    rcases hmode with hmode | ⟨_, _, hmode⟩
    · rw [hmode] at hm
      cases hm
    rw [hmode] at hm
    cases hm
    cases hk

lemma waited_of_run (hrun : Run step startsClear State.start ls s) {stopped : Bool}
    (hmode : s.mode = .resume r stopped pt) (hun : r.untimed) (hk : pt.passed k = true)
    (he : (s.entry r.job k).isSome = true) : Waited ls s r k := by
  induction hrun generalizing stopped pt with
  | nil => cases hmode
  | @snoc ls s s' l hrun hok hstep ih =>
    have hmove := Move.of_step hstep
    have hr' : s'.mode.resuming = some r := by rw [hmode]; rfl
    have he0 : (s.entry r.job k).isSome = true := by
      have hpid := hmove.pid_entry (hmove.not_executing hr') r.job k
      rw [← Option.isSome_map (f := Process.pid), ← hpid, Option.isSome_map]
      exact he
    rcases atRest_of_passing (clear_of_run hrun) (children_of_run hrun) hun hk
      (hmove.passing hmode hk he0) with ⟨stopped0, pt0, hmode0, hk0⟩ | ⟨hat, hrest⟩
    · have hr : s.mode.resuming = some r := by rw [hmode0]; rfl
      exact (ih hmode0 hk0 he0).snoc hok hstep (hmove.ne_command hr hr')
    -- this step leaves the process
    have hr : s.mode.resuming = some r := by
      obtain ⟨_, hm | hm | hm⟩ := hat <;> rw [hm] <;> rfl
    have hcmd : ∀ sync, .command sync ∉ [l] := fun sync hmem =>
      hmove.ne_command hr hr' sync (mem_singleton.mp hmem).symm
    exact ⟨ls, l, [], s, s', rfl, hrun, hstep, .nil, hat, hrest, ⟨stopped, pt, hmode, hk⟩, hcmd⟩

/-- **A call without a timeout waits.** In every session in which each
`resume fg` without `--timeout` starts with the flag clear, such a call never
comes to its `SIGTERM` and its message, it ends only at its report, and by then its loop
has come to every process of the job and has left it when it had terminated or stopped. -/
theorem untimed_resume_waits (ls : List Label) (s : State)
    (hrun : Run step startsClear State.start ls s) (r : Resume)
    (hr : s.mode.resuming = some r) (hfg : r.fg = true) (hun : ¬ 0 < r.timeout) :
    (∀ aim next, s.mode ≠ .signal .term aim next) ∧
      (∀ l s', step l s = some s' → s'.mode.resuming ≠ some r →
        ∃ stopped, s.mode = .resume r stopped .report) ∧
      (∀ stopped, s.mode = .resume r stopped .report →
        s.timed_out = false ∧ ∀ k e, s.entry r.job k = some e → Waited ls s r k) := by
  have hclear := clear_of_run hrun
  refine ⟨?_, ?_, ?_⟩
  · intro aim next hterm
    rcases hclear.points r hr ⟨hfg, hun⟩ with ⟨_, _, hm⟩ | ⟨_, _, hm⟩ <;>
    · rw [hterm] at hm
      cases hm
  · intro l s' hstep hleft
    exact ((Move.of_step hstep).leaves hr hfg).resolve_left hleft
  · intro stopped hmode
    refine ⟨hclear.flag r hr ⟨hfg, hun⟩, fun k e he => ?_⟩
    exact waited_of_run hrun hmode ⟨hfg, hun⟩ rfl (by rw [he]; rfl)

/-- A job of two processes is resumed without `--timeout`: the first one
exits, the second one stops, and the call comes to its report. -/
def untimedLabels : List Label :=
  pipelineLine ++ resumeLine "resume %1 fg" ++
    ([.next, .change 2 (.exited 0), .wait 2, .next, .next, .next, .next, .change 3 (.stopped 20),
      .wait 3, .next, .next, .next, .next, .next] : List Label)

/-- The theorem at that session. -/
theorem untimed_resume_waits_pipeline :
    ∃ s, Run step startsClear State.start untimedLabels s ∧
      s.mode = .resume ⟨0, true, 0⟩ true .report ∧
      ∀ k e, s.entry 0 k = some e → Waited untimedLabels s ⟨0, true, 0⟩ k := by
  refine Run.exists_imp (P := fun s => s.mode = .resume ⟨0, true, 0⟩ true .report)
    (by decide +kernel) fun s hrun hmode => ?_
  have hwaits := untimed_resume_waits untimedLabels s hrun ⟨0, true, 0⟩ (by rw [hmode]; rfl) rfl
    (by decide)
  exact ⟨hmode, (hwaits.2.2 true hmode).2⟩

/-- A `resume fg --timeout 1` times out and leaves the flag set. The next
`resume fg`, without `--timeout`, gives up after the first process, and is
about to send `SIGTERM` while the second one is running. -/
theorem stale_timeout_terminates :
    ∃ ls s, Run step anyStep State.start ls s ∧
      s.mode = .signal .term (.job 0) (.drain (.resume ⟨0, true, 0⟩ false .report)) ∧
      s.entry 0 1 = some ⟨3, "b", .running, true, false⟩ ∧
      s.st.kids 3 = some ⟨.running, false⟩ := by
  refine ⟨pipelineLine ++ resumeLine "resume %1 fg --timeout 1" ++
    ([.next, .sigalrm, .next, .next, .next, .kill, .next, .next, .next, .command true] :
      List Label) ++ resumeLine "resume %1 fg" ++
    ([.next, .change 2 (.exited 0), .wait 2, .next, .next, .next, .next] : List Label), ?_⟩
  decide +kernel

end CshellXv6.Shell.Session
