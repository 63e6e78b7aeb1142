import CshellXv6.Shell.Resume

/-! # The wait loop of `resume` and the handler

While `resume fg` waits for the processes of its job one after the other, the
`SIGCHLD` handler reaps with `WUNTRACED` as well. A stop is reported once: if
the handler takes the stop of a process that the loop has still to wait for,
the entry shows it, but the loop skips terminated entries only and blocks in
`waitpid` for an event that will not come: `resume_blocks_for_taken_stop`.

When the handler leaves these stops to the loop, the loop never blocks for a
process whose change is in the table, and it reports the job as stopped when
one of its processes is: `resume_waits_for_untaken`.
-/

namespace CshellXv6.Shell.Session

open Wait Lib List Option

/-! ## The processes still to be waited for -/

/-- Entry `k` has been set to running and the loop has not come to it yet. -/
def Point.due : Point → Nat → Bool
  | .test j, k => k < j
  | .store j, k => k < j
  | .arm, _ => true
  | .loop j, k => j ≤ k
  | .call j, k => j ≤ k
  | .blocked j, k => j ≤ k
  | .interrupted j, k => j ≤ k
  | .record j _ _, k => j < k
  | .check j, k => j < k
  | .disarm, _ => false
  | .expired, _ => false
  | .report, _ => false

/-- The same, also while the call sends a signal or updates the table. -/
def Mode.due : Mode → Nat → Bool
  | .resume _ _ pt, k => pt.due k
  | .signal _ _ next, k => next.due k
  | .drain next, k => next.due k
  | _, _ => false

/-- A `resume fg` has still to wait for a process with pid `p`. -/
def State.awaits (s : State) (p : Int) : Bool :=
  s.mode.resuming.any (fun r => r.fg && (s.st.old[r.job]?).any (fun j =>
    (List.range j.prs.length).any (fun k =>
      s.mode.due k && (j.prs[k]?).any (fun e => e.pid = p))))

/-- The job that `resume` will find: its pids are positive and pairwise
different, and the processes it shows as terminated have been reaped. -/
def State.sound (s : State) (job_id : Int) : Bool :=
  (findJob job_id s.st.old).all (fun i => (s.st.old[i]?).all (fun j =>
    j.prs.all (fun e => 0 < e.pid) && (j.prs.map Process.pid).Nodup &&
      j.prs.all (fun e => e.state ≠ .terminated || s.st.free e.pid)))

/-- The handler records no stop of a process that `resume` has still to wait
for, and `resume fg` is used on sound jobs. -/
def leavesStops (l : Label) (s : State) : Prop :=
  match l, s.mode with
  | .reap p, _ => s.awaits p = true → (s.st.kids p).all (fun c => !WIFSTOPPED c.real.status) = true
  | .next, .lookup (.resume job_id true _) => s.sound job_id = true
  | _, _ => True

instance (l : Label) (s : State) : Decidable (leavesStops l s) := by
  unfold leavesStops
  generalize s.mode = m
  apply @Label.casesOn _ l
  case next =>
    apply @Mode.casesOn _ m
    case lookup =>
      intro req
      apply @Request.casesOn _ req
      case resume =>
        intro _ fg _
        apply @Bool.casesOn _ fg <;> infer_instance
      all_goals intros; infer_instance
    all_goals intros; infer_instance
  all_goals intros; infer_instance

variable {s s' : State} {l : Label} {r : Resume} {k i : Nat} {p timeout job_id : Int}
  {e e' : Process} {c : Child} {pt : Point} {ls : List Label}

lemma awaits_of_entry (hr : s.mode.resuming = some r) (hfg : r.fg = true)
    (he : s.entry r.job k = some e) (hdue : s.mode.due k = true) : s.awaits e.pid = true := by
  unfold State.entry at he
  cases hj : s.st.old[r.job]? with
  | none => simp [hj] at he
  | some j =>
    simp only [hj, bind_some] at he
    have hlt : k < j.prs.length := (List.getElem?_eq_some_iff.mp he).1
    simp only [State.awaits, hr, hfg, hj, any_some, Bool.true_and, List.any_eq_true,
      mem_range, Bool.and_eq_true]
    exact ⟨k, hlt, hdue, by simp [he]⟩

/-! ## What `resume` knows of its job -/

/-- Where a call of `resume` is: at a point of its own, at its `SIGCONT`, or at its `SIGTERM`
and the update after it, if its time is up. -/
inductive Within (r : Resume) (timed_out : Bool) : Mode → Prop where
  | point (stopped : Bool) (pt : Point) : Within r timed_out (.resume r stopped pt)
  | cont (aim : Aim) (stopped : Bool) :
      Within r timed_out (.signal .cont aim (.resume r stopped .arm))
  | update (stopped : Bool) (ht : timed_out = true) :
      Within r timed_out (.drain (.resume r stopped .report))
  | term (aim : Aim) (stopped : Bool) (ht : timed_out = true) :
      Within r timed_out (.signal .term aim (.drain (.resume r stopped .report)))

/-- The state of a call of `resume fg` and of its job. `gone`: an entry shows
a termination only of a process that has been reaped. `due`: no stop is shown
of a process still to be waited for. `took`: the status that `waitpid` has
just returned. `flag`: what the loop has come past, unless it times out. -/
structure Tracking (s : State) (r : Resume) : Prop where
  pos : ∀ k e, s.entry r.job k = some e → 0 < e.pid
  inj : ∀ k k' e e', s.entry r.job k = some e → s.entry r.job k' = some e' → e.pid = e'.pid → k = k'
  gone : ∀ k e, s.entry r.job k = some e → e.state = .terminated → s.st.free e.pid = true
  due : ∀ k e, s.mode.due k = true → s.entry r.job k = some e → e.state ≠ .stopped
  took : ∀ stopped k q status, s.mode = .resume r stopped (.record k q status) →
    (∃ e, s.entry r.job k = some e ∧ e.pid = q) ∧ (terminates status = true → s.st.free q = true)
  flag : s.timed_out = false → ∀ stopped pt k e, s.mode = .resume r stopped pt →
    pt.passed k = true → s.entry r.job k = some e →
    stopped = true ∨ (∃ q status, pt = .record k q status ∧ WIFSTOPPED status = true) ∨
      s.st.free e.pid = true
  nested : Within r s.timed_out s.mode
  blocked : ∀ stopped k, s.mode = .resume r stopped (.blocked k) →
    s.st.handler = false ∧ ∀ e, s.entry r.job k = some e → e.state = .running

/-! ## Children of the job -/

/-- No pid is given away during a call of `resume`. -/
lemma Move.free_resuming (h : Move s l s') (hr : s.mode.resuming = some r)
    (hp : s.st.free p = true) : s'.st.free p = true := by
  by_cases hborn : l.newborn = some p
  · rcases h.of_newborn hborn with ⟨pl, bad, hmode⟩ | hmode <;>
    · rw [hmode] at hr
      cases hr
  · exact h.free hborn hp

/-- During a call the entries are touched in the known ways. -/
lemma Move.touch_of_resuming (h : Move s l s') (hr : s'.mode.resuming = some r)
    (he' : s'.entry i k = some e') : ∃ e, s.entry i k = some e ∧ Touch s l i e e' := by
  have hpid := h.pid_entry (h.not_executing hr) i k
  rw [he'] at hpid
  have hi : i < s.st.old.length := by
    by_contra hcon
    rw [State.entry, List.getElem?_eq_none (by omega)] at hpid
    cases hpid
  exact h.touch hi he'

/-! ## One step of a call -/

lemma Mode.due_interrupt (m : Mode) (k : Nat) : m.interrupt.due k = m.due k :=
  Mode.congr_interrupt (fun m => m.due k) (fun _ _ _ => rfl) m

/-- The handler has recorded a termination: the pid is free. -/
lemma free_of_reap (h : Move s (.reap p) s') (hc : s.st.kids p = some c)
    (hterm : terminates c.real.status = true) (hvalid : c.real.valid = true) :
    s'.st.free p = true := by
  cases h with
  | reap _ hk =>
    rw [hc] at hk
    cases hk
    exact free_reported s.st hvalid hterm
  | control hctl => cases hctl.label

/-- Along a control step an entry becomes due only when it is terminated. -/
lemma Control.due (hctl : Control s l s') (hr' : s'.mode.resuming = some r)
    (hr : s.mode.resuming = some r) (he : (s.entry r.job k).isSome = true)
    (hdue : s'.mode.due k = true) :
    s.mode.due k = true ∨ ∃ e, s.entry r.job k = some e ∧ e.state = .terminated := by
  cases hctl with
  | plain _ _ hm =>
    rw [Mode.resuming_of_plain hm] at hr'
    cases hr'
  | command | aimJob | aimPid | aimHup | reported => cases hr'
  | foreground hmode =>
    rw [hmode] at hr
    cases hr
  | tested hmode hnone =>
    rw [hmode] at hr ⊢
    cases hr
    exact .inl (decide_eq_true (lt_of_entry_none hnone he))
  | testDead hmode hsome hdead =>
    rw [hmode] at hr ⊢
    cases hr
    rcases Nat.lt_succ_iff_lt_or_eq.mp (of_decide_eq_true hdue) with hlt | rfl
    · exact .inl (decide_eq_true hlt)
    · exact .inr ⟨_, hsome, hdead⟩
  | armed hmode | unarmed hmode =>
    rw [hmode]
    exact .inl rfl
  | loopSkip hmode =>
    rw [hmode]
    exact .inl (decide_eq_true (Nat.le_of_succ_le (of_decide_eq_true hdue)))
  | callLost hmode =>
    rw [hmode]
    exact .inl (decide_eq_true (Nat.le_of_lt (of_decide_eq_true hdue)))
  | loopDone | timedOut | disarm | expired | inTime => cases hdue
  | drained hmode | kill hmode =>
    rw [hmode]
    exact .inl hdue
  | alarm => exact .inl ((Mode.due_interrupt s.mode k).symm.trans hdue)
  | _ hmode =>
    rw [hmode]
    exact .inl hdue

/-- A status that is no stop leaves no entry stopped that was not. -/
lemma apply_ne_stopped {status : Int} (hstop : WIFSTOPPED status = false)
    (h : e.state ≠ .stopped) : (e.apply status).state ≠ .stopped := by
  unfold Process.apply
  split_ifs <;> simp_all

/-- `waitpid` asks about one child, unless the pid is -1. -/
lemma asked_of_pos (hp : 0 < p) : s.asked p = [p] := by
  rw [State.asked, if_neg (by omega)]

lemma free_of_not_remains (hp : 0 < p) (hrem : s.remains p = false) : s.st.free p = true := by
  rw [State.remains, asked_of_pos hp] at hrem
  unfold St.free
  cases hk : s.st.kids p with
  | none => rfl
  | some c => simpa [hk] using hrem

lemma not_free_of_remains (hp : 0 < p) (hrem : s.remains p = true) : s.st.free p = false := by
  rw [State.remains, asked_of_pos hp] at hrem
  unfold St.free
  cases hk : s.st.kids p with
  | none => simp [hk] at hrem
  | some c => simpa [hk] using hrem

lemma Mode.interrupt_ne_blocked (m : Mode) (r : Resume) (stopped : Bool) (k : Nat) :
    m.interrupt ≠ .resume r stopped (.blocked k) := by
  unfold Mode.interrupt
  split
  · simp
  next hm =>
    rintro rfl
    exact hm _ _ _ rfl

/-- What `waitpid` returns to the loop is a stop or an end. -/
lemma stop_or_end (hw : c.waitable = true) (hvalid : c.real.valid = true) :
    WIFSTOPPED c.real.status = true ∨ terminates c.real.status = true := by
  rw [terminates_status hvalid]
  cases hreal : c.real with
  | running => simp [Child.waitable, hreal] at hw
  | stopped sig =>
    refine .inl (decide_eq_true ?_)
    simp only [Real.status]
    omega
  | exited code | killed sig => exact .inr rfl

/-- Past the beginning of the loop the flag is not cleared. -/
lemma Move.timed_out_before {stopped : Bool} (hmove : Move s l s')
    (hmode' : s'.mode = .resume r stopped pt) (hk : pt.passed k = true)
    (ht : s'.timed_out = false) : s.timed_out = false := by
  cases hmove with
  | control hctl =>
    cases hctl with
    | armed =>
      cases hmode'
      simp [Point.passed] at hk
    | alarm => cases ht
    | _ => exact ht
  | _ => exact ht

/-- From a signal or an update back to the points of the call. -/
lemma Tracking.of_nested {stopped : Bool} (h : Tracking s r)
    (hmode : s.mode = .drain (.resume r stopped pt) ∨
      ∃ sig aim, s.mode = .signal sig aim (.resume r stopped pt)) :
    pt = .arm ∨ (pt = .report ∧ s.timed_out = true) := by
  have hin := h.nested
  rcases hmode with hmode | ⟨_, _, hmode⟩
  · rw [hmode] at hin
    cases hin with
    | update _ ht => exact .inr ⟨rfl, ht⟩
  · rw [hmode] at hin
    cases hin
    exact .inl rfl

/-- A handler interrupts nothing but a blocked `waitpid`. -/
lemma Within.interrupt {timed_out timed_out' : Bool} {m : Mode} (h : Within r timed_out m)
    (ht : timed_out = true → timed_out' = true) : Within r timed_out' m.interrupt := by
  cases h with
  | point stopped pt => cases pt <;> exact .point stopped _
  | cont => exact .cont ..
  | update _ htimed => exact .update _ (ht htimed)
  | term _ _ htimed => exact .term _ _ (ht htimed)

section Step

variable (h : Tracking s r) (hr : s.mode.resuming = some r) (hr' : s'.mode.resuming = some r)
    (hmove : Move s l s') {k : Nat} {e' : Process} {stopped : Bool}

include h hr hr' hmove

lemma Tracking.gone_of_move (hkids : Children s.st)
    (hends : ∀ p status, s.taken = some (p, status) → terminates status = true →
      s.st.free p = true)
    (he' : s'.entry r.job k = some e') (hdead : e'.state = .terminated) :
    s'.st.free e'.pid = true := by
  obtain ⟨e, he, htouch⟩ := hmove.touch_of_resuming hr' he'
  rw [htouch.pid_eq]
  -- the entry was terminated before
  have hbefore : e.state = .terminated → s'.st.free e.pid = true :=
    fun hd => hmove.free_resuming hr (h.gone k e he hd)
  cases htouch with
  | same => exact hbefore hdead
  | running => cases hdead
  | reaped hl _ hc =>
    subst hl
    rcases (terminates_iff_apply e _).mp hdead with hterm | ⟨hd, -⟩
    · exact free_of_reap hmove hc hterm (hkids _ _ hc).2.2
    · exact hbefore hd
  | drained htaken =>
    rcases (terminates_iff_apply e _).mp hdead with hterm | ⟨hd, -⟩
    · exact hmove.free_resuming hr (hends _ _ htaken hterm)
    · exact hbefore hd
  | recorded hmode =>
    rcases (terminates_iff_apply e _).mp hdead with hterm | ⟨hd, -⟩
    · rw [hmode] at hr
      cases hr
      exact hmove.free_resuming (by rw [hmode]; rfl) ((h.took _ _ _ _ hmode).2 hterm)
    · exact hbefore hd
  | updated hmode =>
    rw [hmode] at hr
    cases hr

lemma Tracking.due_of_move (hfg : r.fg = true) (hstowed : Stowed s) (hok : leavesStops l s)
    (hdue : s'.mode.due k = true) (he' : s'.entry r.job k = some e') : e'.state ≠ .stopped := by
  obtain ⟨e, he, htouch⟩ := hmove.touch_of_resuming hr' he'
  have hsome : (s.entry r.job k).isSome = true := by rw [he]; rfl
  have hnot : e.state = .terminated → e.state ≠ .stopped := fun hd => by rw [hd]; decide
  cases hmove with
  | exec hmode | fail hmode | finish hmode | background hmode | spawn hmode | collect hmode =>
    rw [hmode] at hr
    cases hr
  | store hmode =>
    rw [hmode] at hr
    cases hr
    rw [entry_goto, entry_setRunning, he] at he'
    cases he'
    split
    · simp
    next hne =>
      refine h.due k e ?_ he
      rw [hmode]
      refine decide_eq_true ?_
      have hlt := of_decide_eq_true hdue
      have : k ≠ _ := fun heq => hne ⟨rfl, heq⟩
      omega
  | record hmode =>
    rw [hmode] at hr
    cases hr
    -- the recorded event is the one of process `j`, which is not due any more
    obtain ⟨⟨e0, he0, hq⟩, -⟩ := h.took _ _ _ _ hmode
    have hlt := of_decide_eq_true hdue
    have hsame : e' = e := by
      rcases record_of_entry rfl he he' with heq | ⟨-, hpid, -⟩
      · exact heq
      · have hk := h.inj _ _ _ _ he he0 (hpid.trans hq.symm)
        omega
    rw [hsame]
    refine h.due k e ?_ he
    rw [hmode]
    exact decide_eq_true hlt
  | wait hmode =>
    cases he.symm.trans he'
    refine h.due k _ ?_ he
    have hlt : _ < k := of_decide_eq_true hdue
    rcases hmode with hmode | hmode <;>
    · rw [hmode]
      exact decide_eq_true (Nat.le_of_lt hlt)
  | recorded htaken =>
    -- only a call that has timed out is in an `update_state(-1, 0)`, and nothing is due then
    have hin := h.nested
    have hdue : s.mode.due k = true := hdue
    rcases hstowed.place htaken with ⟨next, hm, -⟩ | ⟨⟨_, _, hm⟩, -⟩
    · rw [hm] at hin hdue
      cases hin
      cases hdue
    · rw [hm] at hin
      cases hin
  | reap _ hc hpend =>
    have hd := h.due k e hdue he
    rcases record_of_entry rfl he he' with rfl | ⟨-, hpid, rfl⟩
    · exact hd
    -- a stop of a process that is due is left alone
    have hno := hok (by rw [← hpid]; exact awaits_of_entry hr hfg he hdue)
    rw [hc] at hno
    exact apply_ne_stopped (by simpa using hno) hd
  | interrupt | sigchld =>
    cases he.symm.trans he'
    rw [Mode.due_interrupt] at hdue
    exact h.due k _ hdue he
  | control hctl =>
    rw [State.entry, hctl.st_eq] at he'
    cases he.symm.trans he'
    rcases hctl.due hr' hr hsome hdue with hd | ⟨e1, he1, hd⟩
    · exact h.due k _ hd he
    · cases he.symm.trans he1
      exact hnot hd
  | _ =>
    cases he.symm.trans he'
    exact h.due k _ hdue he

lemma Tracking.took_of_move {q status : Int} (hkids : Children s.st)
    (hmode' : s'.mode = .resume r stopped (.record k q status)) :
    (∃ e, s'.entry r.job k = some e ∧ e.pid = q) ∧
      (terminates status = true → s'.st.free q = true) := by
  -- the call was at this point already
  have hstay : s.mode = .resume r stopped (.record k q status) →
      (∃ e, s'.entry r.job k = some e ∧ e.pid = q) ∧
        (terminates status = true → s'.st.free q = true) := by
    intro hmode
    obtain ⟨⟨e, he, hq⟩, hfree⟩ := h.took stopped k q status hmode
    refine ⟨?_, fun hterm => hmove.free_resuming hr (hfree hterm)⟩
    have hpid := hmove.pid_entry (hmove.not_executing hr') r.job k
    rw [he] at hpid
    obtain ⟨e', he', heq⟩ := map_eq_some_iff.mp hpid
    exact ⟨e', he', heq.trans hq⟩
  have hintr : s.mode.interrupt = .resume r stopped (.record k q status) →
      s.mode = .resume r stopped (.record k q status) := by
    intro hm
    obtain ⟨pt0, hm0, rfl | ⟨_, _, hcon⟩⟩ := Mode.exists_of_interrupt hm
    · exact hm0
    · cases hcon
  cases hmove with
  | fail | finish | background | store | record => cases hmode'
  | wait hmode he hc hq hw =>
    cases hmode'
    have hpos := h.pos _ _ he
    rw [asked_of_pos hpos, mem_singleton] at hq
    subst hq
    refine ⟨⟨_, he, rfl⟩, fun hterm => ?_⟩
    rw [terminates_status (hkids _ _ hc).2.2] at hterm
    show (Option.all _ ((s.st.setChild _ _).kids _)) = true
    rw [show (s.st.setChild _ _).kids _ = _ from Function.update_self ..]
    simpa [Child.reaped] using hterm
  | interrupt | sigchld => exact hstay (hintr hmode')
  | control hctl =>
    cases hctl with
    | plain _ _ hm => cases (Mode.resuming_of_plain hm).symm.trans hr'
    | drained hmode =>
      cases hmode'
      rcases h.of_nested (.inl hmode) with hcon | ⟨hcon, -⟩ <;> cases hcon
    | kill hmode =>
      cases hmode'
      rcases h.of_nested (.inr ⟨_, _, hmode⟩) with hcon | ⟨hcon, -⟩ <;> cases hcon
    | alarm => exact hstay (hintr hmode')
    | _ => cases hmode'
  | _ => exact hstay hmode'

lemma Tracking.flag_of_move (hkids : Children s.st) (ht : s'.timed_out = false)
    (hmode' : s'.mode = .resume r stopped pt) (hk : pt.passed k = true)
    (he' : s'.entry r.job k = some e') :
    stopped = true ∨ (∃ q status, pt = .record k q status ∧ WIFSTOPPED status = true) ∨
      s'.st.free e'.pid = true := by
  obtain ⟨e, he, htouch⟩ := hmove.touch_of_resuming hr' he'
  rw [htouch.pid_eq]
  have ht0 := hmove.timed_out_before hmode' hk ht
  cases hmove.passing hmode' hk (by rw [he]; rfl) with
  | past hmode hk0 hflag hrec =>
    rcases h.flag ht0 _ _ k e hmode hk0 he with hst | ⟨q, status, hpt, hstop⟩ | hfree
    · exact .inl (hflag hst)
    · rcases hrec q status hpt with hsame | hst
      · exact .inr (.inl ⟨q, status, hsame.trans hpt, hstop⟩)
      · exact .inl (hst hstop)
    · exact .inr (.inr (hmove.free_resuming hr hfree))
  | skipped _ he0 hdead =>
    cases he.symm.trans he0
    exact .inr (.inr (hmove.free_resuming hr (h.gone _ _ he hdead)))
  | lost _ he0 hrem =>
    cases he.symm.trans he0
    exact .inr (.inr (hmove.free_resuming hr (free_of_not_remains (h.pos _ _ he) hrem)))
  | returned _ he0 hc hq hw hpt =>
    cases he.symm.trans he0
    rw [asked_of_pos (h.pos _ _ he), mem_singleton] at hq
    subst hq
    rcases stop_or_end hw (hkids _ _ hc).2.2 with hstop | hterm
    · exact .inr (.inl ⟨_, _, hpt, hstop⟩)
    · subst hpt
      exact .inr (.inr ((h.took_of_move hr hr' hmove hkids hmode').2 hterm))
  | timedOut _ htimed =>
    rw [ht0] at htimed
    cases htimed
  | nested hmode =>
    rcases h.of_nested hmode with rfl | ⟨-, htimed⟩
    · cases hk
    · rw [ht0] at htimed
      cases htimed

lemma Tracking.nested_of_move (hfg : r.fg = true) : Within r s'.timed_out s'.mode := by
  have hin := h.nested
  cases hmove with
  | fail | finish => cases hr'
  | background | store | record | wait =>
    cases hr'
    exact .point ..
  | interrupt | sigchld => exact hin.interrupt id
  | control hctl =>
    cases hctl with
    | plain _ _ hm => cases (Mode.resuming_of_plain hm).symm.trans hr'
    | command | aimJob | aimPid | aimHup | reported => cases hr'
    | @tested r0 stopped k hmode he =>
      rw [hmode] at hr
      cases hr
      rw [Resume.resumed, if_pos hfg]
      exact .cont ..
    | expired hmode ht =>
      cases hr'
      exact .term _ _ ht
    | drained hmode =>
      rw [hmode] at hin
      cases hin
      exact .point ..
    | kill hmode =>
      rw [hmode] at hin
      cases hin with
      | cont => exact .point ..
      | term _ stopped ht => exact .update stopped ht
    | alarm => exact hin.interrupt fun _ => rfl
    | _ =>
      cases hr'
      exact .point ..
  | _ => exact hin

lemma Tracking.blocked_of_move (hstowed : Stowed s) (hhandler : l = .next → s.st.handler = false)
    (hmode' : s'.mode = .resume r stopped (.blocked k)) :
    s'.st.handler = false ∧ ∀ e, s'.entry r.job k = some e → e.state = .running := by
  cases hmove with
  | fail | finish | background | store | record | wait => cases hmode'
  | exec hmode =>
    rw [hmode] at hr
    cases hr
  -- a blocked shell is in no handler and in no update of its own
  | reap hrun => cases (h.blocked stopped k hmode').1.symm.trans hrun
  | recorded htaken =>
    have hmode : s.mode = .resume r stopped (.blocked k) := hmode'
    have hdrain := hstowed.draining htaken
    simp [State.draining, hmode] at hdrain
  | handlerDone => exact ⟨rfl, (h.blocked stopped k hmode').2⟩
  | interrupt | sigchld => exact absurd hmode' (Mode.interrupt_ne_blocked _ _ _ _)
  | control hctl =>
    cases hctl with
    | plain _ _ hm => cases (Mode.resuming_of_plain hm).symm.trans hr'
    | callBlock hmode hsome hret hrem =>
      cases hmode'
      refine ⟨hhandler rfl, fun e he => ?_⟩
      obtain rfl := Option.some.inj (he.symm.trans hsome)
      have hlive : e.state ≠ .terminated := by
        intro hdead
        have hfree := h.gone _ e hsome hdead
        rw [not_free_of_remains (h.pos _ e hsome) hrem] at hfree
        cases hfree
      have hdue := h.due _ e (by rw [hmode]; exact decide_eq_true le_rfl) hsome
      cases hs : e.state with
      | running => rfl
      | stopped => exact absurd hs hdue
      | terminated => exact absurd hs hlive
    | drained hmode =>
      cases hmode'
      rcases h.of_nested (.inl hmode) with hcon | ⟨hcon, -⟩ <;> cases hcon
    | kill hmode =>
      cases hmode'
      rcases h.of_nested (.inr ⟨_, _, hmode⟩) with hcon | ⟨hcon, -⟩ <;> cases hcon
    | alarm => exact absurd hmode' (Mode.interrupt_ne_blocked _ _ _ _)
    | _ => cases hmode'
  | _ => exact h.blocked stopped k hmode'

end Step

/-! ## The first step of a call -/

lemma tracking_of_lookup (hfind : findJob job_id s.st.old = some i) (hsound : s.sound job_id = true)
    : Tracking (s.goto ⟨i, true, timeout⟩ false (.test 0)) ⟨i, true, timeout⟩ := by
  have hjob : ∀ k e, s.entry i k = some e → ∃ j, s.st.old[i]? = some j ∧ j.prs[k]? = some e := by
    intro k e he
    exact bind_eq_some_iff.mp he
  have hall : ∀ j, s.st.old[i]? = some j → (∀ e ∈ j.prs, 0 < e.pid) ∧
      (j.prs.map Process.pid).Nodup ∧
      ∀ e ∈ j.prs, e.state = .terminated → s.st.free e.pid = true := by
    intro j hj
    simp only [State.sound, hfind, hj, all_some, Bool.and_eq_true, decide_eq_true_eq,
      List.all_eq_true] at hsound
    refine ⟨hsound.1.1, hsound.1.2, fun e he hdead => ?_⟩
    simpa [hdead] using hsound.2 e he
  constructor
  · intro k e he
    obtain ⟨j, hj, hk⟩ := hjob k e he
    exact (hall j hj).1 e (mem_of_getElem? hk)
  · intro k k' e e' he he' hpid
    obtain ⟨j, hj, hk⟩ := hjob k e he
    obtain ⟨j', hj', hk'⟩ := hjob k' e' he'
    cases hj.symm.trans hj'
    have hlt := (List.getElem?_eq_some_iff.mp hk).1
    refine (List.getElem?_inj (by simpa using hlt) (hall j hj).2.1).mp ?_
    rw [List.getElem?_map, List.getElem?_map, hk, hk']
    exact congrArg some hpid
  · intro k e he hdead
    obtain ⟨j, hj, hk⟩ := hjob k e he
    exact (hall j hj).2.2 e (mem_of_getElem? hk) hdead
  · intro k e hdue
    simp [State.goto, Mode.due, Point.due] at hdue
  · intro stopped k q status hmode
    cases hmode
  · intro _ stopped pt k e hmode hk
    cases hmode
    cases hk
  · exact .point ..
  · intro stopped k hmode
    cases hmode

/-- While the handler runs the shell does not. -/
lemma handler_of_next (hstep : step .next s = some s') : s.st.handler = false := by
  by_contra hcon
  simp [step, hcon] at hstep

lemma tracking_of_run (hrun : Run step leavesStops State.start ls s)
    (hr : s.mode.resuming = some r) (hfg : r.fg = true) : Tracking s r := by
  induction hrun with
  | nil => cases hr
  | @snoc ls s s' l hrun hok hstep ih =>
    have hmove := Move.of_step hstep
    rcases hmove.resuming hr with hr0 | ⟨rfl, job_id, hlookup⟩
    · have h := ih hr0
      have hkids := children_of_run hrun
      have hstowed := stowed_of_run hrun
      exact {
        pos := by
          intro k e' he'
          obtain ⟨e, he, htouch⟩ := hmove.touch_of_resuming hr he'
          rw [htouch.pid_eq]
          exact h.pos k e he
        inj := by
          intro k k' e1 e2 he1 he2 hpid
          obtain ⟨e, he, ht⟩ := hmove.touch_of_resuming hr he1
          obtain ⟨e', he', ht'⟩ := hmove.touch_of_resuming hr he2
          rw [ht.pid_eq, ht'.pid_eq] at hpid
          exact h.inj k k' e e' he he' hpid
        gone := fun k e' => h.gone_of_move hr0 hr hmove hkids fun _ _ => free_of_taken hrun
        due := fun k e' => h.due_of_move hr0 hr hmove hfg hstowed hok
        took := fun stopped k q status => h.took_of_move hr0 hr hmove hkids
        flag := fun ht stopped pt k e' => h.flag_of_move hr0 hr hmove hkids ht
        nested := h.nested_of_move hr0 hr hmove hfg
        blocked := fun stopped k => h.blocked_of_move hr0 hr hmove hstowed
          (fun hl => handler_of_next (by rw [← hl]; exact hstep)) }
    · rw [hfg] at hlookup
      simp only [leavesStops, hlookup] at hok
      cases hmove with
      | background hmode =>
        rw [hlookup] at hmode
        cases hmode
      | control hctl =>
        cases hctl with
        | plain _ _ hm => cases (Mode.resuming_of_plain hm).symm.trans hr
        | foreground hmode hfind =>
          rw [hlookup] at hmode
          cases hmode
          exact Eq.mp (congrArg (Tracking _) (Option.some.inj hr)) (tracking_of_lookup hfind hok)
        | _ => simp_all [Mode.resuming]
      | _ => simp_all [Mode.resuming]

/-- **No wait for an event that is in the table.** In every session in which
the handler leaves the stops of the processes still to be waited for to the
loop, `resume fg` blocks for running processes only: no stop or termination of
the process it waits for has been recorded. And when it comes to its report
without a timeout while one of the processes is stopped, it reports the job as
stopped. -/
theorem resume_waits_for_untaken (ls : List Label) (s : State)
    (hrun : Run step leavesStops State.start ls s) (r : Resume) (hfg : r.fg = true)
    (stopped : Bool) :
    (∀ k e, s.mode = .resume r stopped (.blocked k) → s.entry r.job k = some e →
        e.state = .running) ∧
      (s.mode = .resume r stopped .report → s.timed_out = false →
        ∀ k e c sig, s.entry r.job k = some e → s.st.kids e.pid = some c → c.real = .stopped sig →
          stopped = true) := by
  constructor
  · intro k e hmode he
    have h := tracking_of_run hrun (by rw [hmode]; rfl) hfg
    exact (h.blocked stopped k hmode).2 e he
  intro hmode ht k e c sig he hc hreal
  have h := tracking_of_run hrun (by rw [hmode]; rfl) hfg
  rcases h.flag ht stopped .report k e hmode rfl he with hst | ⟨_, _, hpt, -⟩ | hfree
  · exact hst
  · cases hpt
  · simp [St.free, hc, Child.reaped, hreal, Real.ended] at hfree

/-- Both processes of a resumed job are stopped from the terminal, and the
loop takes both stops. -/
def stoppedLabels : List Label :=
  pipelineLine ++ resumeLine "resume %1 fg" ++
    ([.next, .change 2 (.stopped 20), .change 3 (.stopped 20), .wait 2, .next, .next, .next,
      .wait 3, .next, .next, .next, .next, .next] : List Label)

/-- The theorem at that session: the job is reported as stopped. -/
theorem resume_waits_for_untaken_stopped :
    ∃ s stopped, Run step leavesStops State.start stoppedLabels s ∧
      s.mode = .resume ⟨0, true, 0⟩ stopped .report ∧ stopped = true := by
  have hrun : ∃ s, Run step leavesStops State.start stoppedLabels s ∧
      s.mode = .resume ⟨0, true, 0⟩ true .report ∧ s.timed_out = false ∧
      s.entry 0 1 = some ⟨3, "b", .stopped, true, false⟩ ∧
      s.st.kids 3 = some ⟨.stopped 20, false⟩ := by decide +kernel
  obtain ⟨s, hrun, hmode, ht, he, hc⟩ := hrun
  have hwaits := resume_waits_for_untaken stoppedLabels s hrun ⟨0, true, 0⟩ rfl true
  exact ⟨s, true, hrun, hmode, hwaits.2 hmode ht 1 _ _ 20 he hc rfl⟩

/-- Both processes are stopped from the terminal, and the handler takes both
stops. The table shows them, but `resume` goes on to wait for the first
process: nothing is left to be reported. -/
theorem resume_blocks_for_taken_stop :
    ∃ ls s, Run step anyStep State.start ls s ∧ s.mode = .resume ⟨0, true, 0⟩ false (.blocked 0) ∧
      s.entry 0 0 = some ⟨2, "a", .stopped, true, false⟩ ∧
      s.entry 0 1 = some ⟨3, "b", .stopped, true, false⟩ ∧
      s.st.kids 2 = some ⟨.stopped 20, false⟩ ∧ s.st.kids 3 = some ⟨.stopped 20, false⟩ := by
  refine ⟨pipelineLine ++ resumeLine "resume %1 fg" ++
    ([.next, .change 2 (.stopped 20), .change 3 (.stopped 20), .sigchld 0, .reap 2, .reap 3,
      .handlerDone, .next, .next] : List Label), ?_⟩
  decide +kernel

end CshellXv6.Shell.Session
