import CshellXv6.Shell.Filling

/-! # Wait events and the job table

The shell learns what its children do from wait events, each a pid and a
status, and records them with `update_state`: in an `update_state(-1, 0)` of
the handler or of its own, in the wait loop of `execute` and in that of
`resume`. Apart from these events the table changes by the stores of `add_job`
and `resume` only, and none of them ends a process, renames an entry or makes
a job active again: `Move.changes`.
-/

namespace CshellXv6.Shell.Session

open Wait Lib List Option

variable {s s' : State} {l : Label} {p status : Int} {j j' : Job} {k i : Nat} {e e' : Process}
  {f : Job → Job} {st : St}

/-- The wait event that a step records. -/
def State.event (s : State) : Label → Option (Int × Int)
  | .reap p => (s.st.kids p).map (fun k => (p, k.real.status))
  | .record => s.taken
  | .exec .update =>
    match s.st.pc with
    | .update c status _ => (s.st.pids[c]?).map (fun p => (p, status))
    | _ => none
  | .next =>
    match s.mode with
    | .resume _ _ (.record _ q status) => some (q, status)
    | _ => none
  | _ => none

/-- `jobs[i].prs[k]`, in the table with the entry under construction. -/
def State.slot (s : State) (i k : Nat) : Option Process := (s.jobs[i]?).bind (·.prs[k]?)

lemma slot_eq_some : s.slot i k = some e ↔ ∃ j, s.jobs[i]? = some j ∧ j.prs[k]? = some e :=
  bind_eq_some_iff

/-! ## What an event does -/

/-- The points at which an event is recorded. -/
inductive Event (s : State) (l : Label) (p status : Int) (s' : State) : Prop where
  | reap {c : Child} (hl : l = .reap p) (hk : s.st.kids p = some c) (hpend : c.pending = true)
      (hstatus : status = c.real.status)
      (hs' : s' = { s with st := (s.st.setChild p { c with pending := false }).record p status })
  | drained (hl : l = .record) (htaken : s.taken = some (p, status))
      (hs' : s' = { s with st := s.st.record p status, taken := none })
  | update {pl : Plan} {bad c : Nat} {res : Option Int} (hl : l = .exec .update)
      (hmode : s.mode = .execute pl bad) (hpc : s.st.pc = .update c status res)
      (hc : s.st.pids[c]? = some p)
      (hs' : s' = { s with st := { s.st.record p status with pc := .helpers c } })
  | record {r : Resume} {stopped : Bool} {k : Nat} (hl : l = .next)
      (hmode : s.mode = .resume r stopped (.record k p status))
      (hs' : s' =
        { s with st := s.st.record p status }.goto r (stopped || WIFSTOPPED status) (.check k))

lemma Event.of_step (hevent : s.event l = some (p, status)) (hstep : step l s = some s') :
    Event s l p status s' := by
  unfold State.event at hevent
  split at hevent
  next q =>
    obtain ⟨c, hk, hpair⟩ := map_eq_some_iff.mp hevent
    cases hpair
    simp only [step, hk] at hstep
    obtain ⟨hrun, hs'⟩ := of_guard hstep
    exact .reap rfl hk hrun.2 rfl hs'.symm
  · obtain ⟨-, hmain⟩ := ite_none_left_eq_some.mp hstep
    simp only [mainStep, hevent, map_some] at hmain
    exact .drained rfl hevent (Option.some.inj hmain).symm
  · split at hevent
    next c st res hpc =>
      obtain ⟨q, hq, hpair⟩ := map_eq_some_iff.mp hevent
      cases hpair
      cases Move.of_step hstep with
      | exec hmode hok hexec =>
        cases hexec with
        | update hpc' hc =>
          cases hpc.symm.trans hpc'
          cases hq.symm.trans hc
          exact .update rfl hmode hpc hc rfl
      | control hctl => cases hctl.label
    · cases hevent
  · split at hevent
    next r stopped k q st hmode =>
      cases hevent
      obtain ⟨-, hmain⟩ := ite_none_left_eq_some.mp hstep
      simp only [mainStep, State.advance, hmode, State.resume] at hmain
      exact .record rfl hmode (Option.some.inj hmain).symm
    · cases hevent
  · cases hevent

lemma jobs_record (hold : s'.st.old = Shell.record p status s.st.old)
    (hjob : s'.st.job = s.st.job.map (Job.record p status)) :
    s'.jobs = Shell.record p status s.jobs := by
  unfold State.jobs
  rw [hold, hjob, Shell.record, Shell.record, map_append]
  cases s.st.job <;> rfl

/-- A step with an event is an `update_state` on the whole table. -/
lemma Event.jobs_eq (h : Event s l p status s') : s'.jobs = Shell.record p status s.jobs := by
  cases h with
  | reap _ _ _ _ hs' | drained _ _ hs' | update _ _ _ _ hs' | record _ _ hs' =>
    subst hs'
    exact jobs_record rfl rfl

/-- An entry before and after an event. -/
lemma slot_record (hjobs : s'.jobs = Shell.record p status s.jobs) (he' : s'.slot i k = some e') :
    ∃ j e, s.jobs[i]? = some j ∧ j.prs[k]? = some e ∧
      (e' = e ∨ (j.active = true ∧ e.pid = p ∧ e' = e.apply status)) := by
  obtain ⟨j', hj', hprs'⟩ := slot_eq_some.mp he'
  rw [hjobs, Shell.record, List.getElem?_map] at hj'
  obtain ⟨j, hj, rfl⟩ := map_eq_some_iff.mp hj'
  obtain ⟨e, he, hcase⟩ := Wait.Job.getElem?_record hprs'
  exact ⟨j, e, hj, he, hcase⟩

/-! ## What the other steps do -/

/-- A store into a job: an entry that has a pid keeps it, its job does not
become active, and no process ends. -/
structure Edit (j j' : Job) : Prop where
  pid : ∀ (k : Nat) (e : Process), j.prs[k]? = some e → e.pid ≠ 0 →
    ∃ e', j'.prs[k]? = some e' ∧ e'.pid = e.pid
  active : ∀ e ∈ j.prs, e.pid ≠ 0 → j'.active = true → j.active = true
  ended : ∀ (k : Nat) (e' : Process), j'.prs[k]? = some e' → e'.state = .terminated →
    ∃ e, j.prs[k]? = some e ∧ e.state = .terminated

/-- The ways in which a step can change the table. -/
inductive Change (s : State) (l : Label) : List Job → Prop where
  | same : Change s l s.jobs
  | event {p status : Int} (hevent : s.event l = some (p, status)) :
      Change s l (Shell.record p status s.jobs)
  | opened : Change s l (s.jobs ++ [zeroJob])
  | edited {i : Nat} {f : Job → Job} (hedit : ∀ j, s.jobs[i]? = some j → Edit j (f j)) :
      Change s l (s.jobs.modify i f)

lemma edit_of_prs (hprs : j'.prs = j.prs) (hactive : j'.active = j.active) :
    Edit j j' where
  pid k e he _ := ⟨e, by rw [hprs]; exact he, rfl⟩
  active _ _ _ ha := by rw [← hactive]; exact ha
  ended k e' he' hdead := ⟨e', by rw [← hprs]; exact he', hdead⟩

lemma edit_setRunning (k0 : Nat) (j : Job) :
    Edit j { j with prs := j.prs.modify k0 (fun e => { e with state := .running }) } where
  pid k e he _ := by
    refine ⟨if k0 = k then { e with state := .running } else e, ?_, ?_⟩
    · rw [List.getElem?_modify, he]
      rfl
    · split <;> rfl
  active _ _ _ ha := ha
  ended k e' he' hdead := by
    rw [List.getElem?_modify] at he'
    obtain ⟨e, he, rfl⟩ := map_eq_some_iff.mp he'
    refine ⟨e, he, ?_⟩
    split at hdead
    · cases hdead
    · exact hdead

section Stores

variable {pl : Plan} {pids : List Int} {j : Job}

/-- Before the stores into the entries no entry has a pid. -/
lemma edit_storeField {f : JobField} (h : Stored pl (.header f) pids j) (a : NewJob) :
    Edit j (a.storeField f j) where
  pid k e he hpid := absurd ((h.pid k e he).2 rfl) hpid
  active e he hpid := by
    obtain ⟨k, hk⟩ := mem_iff_getElem?.mp he
    exact absurd ((h.pid k e hk).2 rfl) hpid
  ended k e' he' hdead := by
    cases f with
    | num =>
      rw [eq_of_mem_replicate (mem_of_getElem? he')] at hdead
      cases hdead
    | _ => exact ⟨e', he', hdead⟩

/-- Each entry gets its pid once. -/
lemma edit_storeEntry {f : EntryField} (h : Stored pl (.entry i f) pids j) (proc : Int × String) :
    Edit j (j.storeEntry i proc f) where
  pid k e he hpid := by
    refine ⟨if i = k then Process.storeField proc f e else e, ?_, ?_⟩
    · rw [Wait.Job.getElem?_storeEntry, he]
      rfl
    split
    next hik =>
      rw [Wait.Process.pid_storeField]
      refine if_neg (fun hf => hpid ((h.pid k e he).2 ?_))
      subst hf hik
      simp [named]
    · rfl
  active _ _ _ ha := ha
  ended k e' he' hdead := by
    rw [Wait.Job.getElem?_storeEntry] at he'
    obtain ⟨e, he, rfl⟩ := map_eq_some_iff.mp he'
    refine ⟨e, he, ?_⟩
    by_contra halive
    split at hdead
    · exact Wait.Process.alive_storeField halive hdead
    · exact halive hdead

end Stores

/-- A store into the entry under construction. -/
lemma change_job (hjob : s.st.job = some j) (hedit : Edit j (f j))
    (hold : s'.st.old = s.st.old) (hjob' : s'.st.job = s.st.job.map f) : Change s l s'.jobs := by
  have hjobs : s.jobs = s.st.old ++ [j] := by rw [State.jobs, hjob]; rfl
  have hjobs' : s'.jobs = s.jobs.modify s.st.old.length f := by
    rw [hjobs, modify_length_append, State.jobs, hold, hjob', hjob]
    rfl
  rw [hjobs']
  refine .edited (fun j0 hj0 => ?_)
  rw [hjobs, List.getElem?_concat_length] at hj0
  cases hj0
  exact hedit

/-- A store into a job of the finished part. -/
lemma change_old (hnone : s.st.job = none) (hold : s'.st.old = s.st.old.modify i f)
    (hjob' : s'.st.job = s.st.job) (hedit : ∀ j, Edit j (f j)) : Change s l s'.jobs := by
  have hjobs' : s'.jobs = s.jobs.modify i f := by
    rw [State.jobs, State.jobs, hold, hjob', hnone]
    simp
  rw [hjobs']
  exact .edited (fun j _ => hedit j)

lemma change_same (hold : s'.st.old = s.st.old) (hjob : s'.st.job = s.st.job) :
    Change s l s'.jobs := by
  have hjobs : s'.jobs = s.jobs := by rw [State.jobs, hold, hjob, State.jobs]
  rw [hjobs]
  exact .same

lemma change_event (hevent : s.event l = some (p, status))
    (hold : s'.st.old = Shell.record p status s.st.old)
    (hjob : s'.st.job = s.st.job.map (Job.record p status)) : Change s l s'.jobs := by
  rw [jobs_record hold hjob]
  exact .event hevent

lemma changes_of_exec {pl : Plan} {bad : Nat} {l : Wait.Label}
    (hvac : Vacant s.st) (hfill : Filling pl s.st) (hok : s.permits bad l = true)
    (h : Wait.Move pl s.st l st) : Change s (.exec l) { s with st := st }.jobs := by
  cases h with
  | addJob hpc =>
    have hjobs : s.jobs = s.st.old := by
      rw [State.jobs, hvac _ hpc]
      exact append_nil _
    show Change s _ (s.st.old ++ [zeroJob])
    rw [← hjobs]
    exact .opened
  | storeField hpc =>
    obtain ⟨-, j, hj, hstored⟩ := hfill.forked (by simp [hpc])
    rw [hpc] at hstored
    exact change_job hj (edit_storeField hstored _) rfl rfl
  | storeEntry hpc =>
    obtain ⟨-, j, hj, hstored⟩ := hfill.forked (by simp [hpc])
    rw [hpc] at hstored
    exact change_job hj (edit_storeEntry hstored _) rfl rfl
  | update hpc hc =>
    refine change_event ?_ rfl rfl
    simp [State.event, hpc, hc]
  | reap => cases hok
  | _ => exact change_same rfl rfl

/-- Every step. -/
lemma Move.changes (h : Move s l s') (htidy : Tidy s) (hvac : Vacant s.st)
    (hfill : Filled s) : Change s l s'.jobs := by
  cases h with
  | exec hmode hok hexec => exact changes_of_exec hvac (hfill _ _ hmode) hok hexec
  | fail | finish =>
    have hjobs : s.leave.jobs = s.jobs := append_nil _
    show Change s _ s.leave.jobs
    rw [hjobs]
    exact .same
  | background hmode =>
    exact change_old (htidy.calm (by rw [hmode]; rfl)).1 rfl rfl (fun _ => edit_of_prs rfl rfl)
  | store hmode =>
    exact change_old (htidy.calm (by rw [hmode]; rfl)).1 rfl rfl (edit_setRunning _)
  | record hmode =>
    exact change_event (by simp [State.event, hmode]) rfl rfl
  | recorded htaken => exact change_event htaken rfl rfl
  | reap _ hk => exact change_event (by simp [State.event, hk]) rfl rfl
  | control hctl => exact change_same (by rw [hctl.st_eq]) (by rw [hctl.st_eq])
  | _ => exact change_same rfl rfl

/-! ## What follows for one entry -/

lemma active_of_record (h : (j.record p status).active = true) : j.active = true := by
  cases hactive : j.active with
  | true => rfl
  | false =>
    rw [Wait.Job.record_of_inactive hactive] at h
    exact hactive.symm.trans h

/-- An entry with a pid keeps it, and its job does not become active. -/
lemma Change.keeps {jobs : List Job} (h : Change s l jobs)
    (hj : s.jobs[i]? = some j) (he : j.prs[k]? = some e) (hpid : e.pid ≠ 0) :
    ∃ j' e', jobs[i]? = some j' ∧ j'.prs[k]? = some e' ∧ e'.pid = e.pid ∧
      (j'.active = true → j.active = true) := by
  cases h with
  | same => exact ⟨j, e, hj, he, rfl, fun ha => ha⟩
  | event =>
    rename_i p status _
    have hpids : (j.record p status).prs.map Process.pid = j.prs.map Process.pid :=
      congrArg (fun fr => fr.2.2) (frame_record p status j)
    have hk := congrArg (fun pids => pids[k]?) hpids
    simp only [List.getElem?_map, he, map_some] at hk
    obtain ⟨e', he', hpid'⟩ := map_eq_some_iff.mp hk
    refine ⟨j.record p status, e', ?_, he', hpid', active_of_record⟩
    rw [Shell.record, List.getElem?_map, hj]
    rfl
  | opened =>
    exact ⟨j, e, getElem?_append_of_some hj _, he, rfl, fun ha => ha⟩
  | @edited i0 f hedit =>
    by_cases hi : i0 = i
    · subst hi
      have hed := hedit j hj
      obtain ⟨e', he', hpid'⟩ := hed.pid k e he hpid
      refine ⟨f j, e', ?_, he', hpid', hed.active e (mem_of_getElem? he) hpid⟩
      rw [List.getElem?_modify, hj]
      simp
    · refine ⟨j, e, ?_, he, rfl, fun ha => ha⟩
      rw [List.getElem?_modify, hj]
      simp [hi]

/-- A terminated entry was terminated before, or an event has just ended it. -/
lemma Change.ended {jobs : List Job} (h : Change s l jobs)
    (hj' : jobs[i]? = some j') (he' : j'.prs[k]? = some e') (hdead : e'.state = .terminated) :
    ∃ j e, s.jobs[i]? = some j ∧ j.prs[k]? = some e ∧
      (e.state = .terminated ∨ (j.active = true ∧
        ∃ status, s.event l = some (e.pid, status) ∧ terminates status = true)) := by
  cases h with
  | same => exact ⟨j', e', hj', he', .inl hdead⟩
  | event hevent =>
    rw [Shell.record, List.getElem?_map] at hj'
    obtain ⟨j, hj, rfl⟩ := map_eq_some_iff.mp hj'
    obtain ⟨e, he, rfl | ⟨hactive, rfl, rfl⟩⟩ := Wait.Job.getElem?_record he'
    · exact ⟨j, e', hj, he, .inl hdead⟩
    refine ⟨j, e, hj, he, ?_⟩
    rcases (terminates_iff_apply e _).mp hdead with hterm | ⟨hdead, -⟩
    · exact .inr ⟨hactive, _, hevent, hterm⟩
    · exact .inl hdead
  | opened =>
    rcases getElem?_concat_eq_some.mp hj' with hj | ⟨-, rfl⟩
    · exact ⟨j', e', hj, he', .inl hdead⟩
    · cases he'
  | @edited i0 f hedit =>
    rw [List.getElem?_modify] at hj'
    obtain ⟨j, hj, rfl⟩ := map_eq_some_iff.mp hj'
    refine ⟨j, ?_⟩
    split at he'
    next hi =>
      subst hi
      obtain ⟨e, he, hdead'⟩ := (hedit j hj).ended k e' he' hdead
      exact ⟨e, hj, he, .inl hdead'⟩
    · exact ⟨e', hj, he', .inl hdead⟩

section Runs

variable {ok : Label → State → Prop} {ls : List Label}

/-- The next step of a session. -/
lemma changes_of_run (hrun : Run step ok State.start ls s) (hstep : step l s = some s') :
    Change s l s'.jobs :=
  (Move.of_step hstep).changes (tidy_of_run hrun) (vacant_of_run hrun)
    (fun _ _ => filling_of_run hrun)

end Runs

end CshellXv6.Shell.Session
