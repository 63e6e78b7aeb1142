import CshellXv6.Shell.SessionRuns

/-! # The new entry

While `execute` runs, its fork loop collects the pids of the pipeline and
`add_job` copies them, with the job id and the group, into a new entry of the
table. Handlers and children interleave with every store; none of them changes
what has been stored. So when `execute` returns the entry holds exactly what
the fork loop collected: `Filling.frame_eq`.
-/

namespace CshellXv6.Shell.Session

open Wait List

/-- The entry as far as `add_job` has come. -/
structure Stored (pl : Plan) (pc : Pc) (pids : List Int) (j : Job) : Prop where
  length : j.prs.length = if sized pc then pids.length else 0
  pid : ∀ c e, j.prs[c]? = some e →
    (named pc c = true → pids[c]? = some e.pid) ∧ (named pc c = false → e.pid = 0)
  job_id : pc ≠ .header .job_id → j.job_id = pl.job_id
  pgid : pc ≠ .header .job_id → pc ≠ .header .pgid → j.pgid = pids.headD (-1)
  blank : armed pc = false → j.active = false ∧ ∀ e ∈ j.prs, e.state ≠ .terminated

namespace Stored

variable {pl : Plan} {pc pc' : Pc} {pids : List Int} {j : Job} {f : EntryField} {i : Nat}

lemma zeroJob (pl : Plan) (pids : List Int) :
    Stored pl (.header .job_id) pids zeroJob where
  length := rfl
  pid := by simp [Shell.zeroJob]
  job_id := fun h => absurd rfl h
  pgid := fun h => absurd rfl h
  blank := fun _ => ⟨rfl, by simp [Shell.zeroJob]⟩

/-- `update_state` changes none of this. -/
lemma record (h : Stored pl pc pids j) (p status : Int) :
    Stored pl pc pids (j.record p status) := by
  have hframe := frame_record p status j
  simp only [frame, Prod.mk.injEq] at hframe
  obtain ⟨hid, hpgid, hpids⟩ := hframe
  refine ⟨?_, ?_, ?_, ?_, ?_⟩
  · have hlen := congrArg List.length hpids
    rw [length_map, length_map] at hlen
    rw [hlen]
    exact h.length
  · intro c e' he'
    obtain ⟨e, he, rfl | ⟨-, -, rfl⟩⟩ := Wait.Job.getElem?_record he'
    · exact h.pid c e' he
    · rw [Wait.Process.pid_apply]
      exact h.pid c e he
  · rw [hid]
    exact h.job_id
  · rw [hpgid]
    exact h.pgid
  · intro hpc
    obtain ⟨hactive, hprs⟩ := h.blank hpc
    rw [Wait.Job.record_of_inactive hactive]
    exact ⟨hactive, hprs⟩

/-- After `add_job` the control point does not matter. -/
lemma toPc (h : Stored pl pc pids j) (hpc : registered pc = true)
    (hpc' : registered pc' = true) : Stored pl pc' pids j := by
  refine ⟨?_, ?_, ?_, ?_, ?_⟩
  · have hlen := h.length
    rw [sized_of_registered hpc] at hlen
    rw [sized_of_registered hpc', hlen]
  · intro c e he
    have hpid := h.pid c e he
    rw [named_of_registered hpc] at hpid
    rwa [named_of_registered hpc']
  · intro _
    refine h.job_id ?_
    rintro rfl
    cases hpc
  · intro _ _
    refine h.pgid ?_ ?_ <;>
    · rintro rfl
      cases hpc
  · intro harmed
    rw [armed_of_registered hpc'] at harmed
    cases harmed

lemma storeField {f : JobField} (hlen : pids.length = pl.stages.length)
    (h : Stored pl (.header f) pids j) :
    Stored pl (headerNext f) pids ((pl.newJob pids).storeField f j) := by
  cases f with
  | job_id => exact ⟨h.length, h.pid, fun _ => rfl, fun _ hcon => absurd rfl hcon, h.blank⟩
  | pgid => exact ⟨h.length, h.pid, fun _ => h.job_id (by simp), fun _ _ => rfl, h.blank⟩
  | num =>
    refine ⟨?_, ?_, fun _ => h.job_id (by simp), fun _ _ => h.pgid (by simp) (by simp), ?_⟩
    · simp [NewJob.storeField, Plan.newJob, headerNext, sized, hlen]
    · intro c e he
      rw [eq_of_mem_replicate (mem_of_getElem? he)]
      simp [headerNext, named, zeroProcess]
    intro _
    refine ⟨(h.blank rfl).1, fun e he => ?_⟩
    rw [eq_of_mem_replicate he]
    decide
  | bg =>
    exact ⟨h.length, h.pid, fun _ => h.job_id (by simp),
      fun _ _ => h.pgid (by simp) (by simp), h.blank⟩
  | active =>
    exact ⟨h.length, h.pid, fun _ => h.job_id (by simp),
      fun _ _ => h.pgid (by simp) (by simp), fun harmed => by cases harmed⟩
  | cmd =>
    refine ⟨h.length, fun c e he => ?_, fun _ => h.job_id (by simp),
      fun _ _ => h.pgid (by simp) (by simp), fun harmed => by cases harmed⟩
    simpa [headerNext, named] using h.pid c e he

lemma storeEntry (hlen : pids.length = pl.stages.length) (h : Stored pl (.entry i f) pids j) :
    Stored pl (entryNext pl i f) pids
      (j.storeEntry i ((pl.newJob pids).procs.getD i (0, "")) f) := by
  have hprs : j.prs.length = pids.length := h.length
  refine ⟨?_, ?_, fun _ => h.job_id (by simp), fun _ _ => h.pgid (by simp) (by simp), ?_⟩
  · simpa [Job.storeEntry, sized_entryNext] using hprs
  · intro c e' he'
    rw [Wait.Job.getElem?_storeEntry] at he'
    obtain ⟨e, he, rfl⟩ := Option.map_eq_some_iff.mp he'
    have hc : c < pl.stages.length := by
      have hlt := (List.getElem?_eq_some_iff.mp he).1
      omega
    exact pid_storeEntry hlen hc (h.pid c e he)
  · intro harmed
    rw [armed_entryNext] at harmed
    cases harmed

end Stored

/-- The variables of `execute` and the new entry. -/
structure Filling (pl : Plan) (st : St) : Prop where
  stages : pl.stages ≠ []
  forking : ∀ c, st.pc = .fork c → st.pids.length = c ∧ c ≤ pl.stages.length ∧ st.job = none
  forked : (∀ c, st.pc ≠ .fork c) → st.pids.length = pl.stages.length ∧
    ∃ j, st.job = some j ∧ Stored pl st.pc st.pids j
  pids : ∀ (c : Nat) (p : Int), st.pids[c]? = some p → 1 < p ∨ (p = -1 ∧ pl.stages[c]? = some none)

variable {bad : Nat} {l : Label} {pl : Plan} {c : Command} {prs_id : Int} {s : State}
  {ls : List Label} {ok : Label → State → Prop}

namespace Filling

variable {pl : Plan} {st st' : St} {p : Int}

/-- A step after `add_job`: the entry stays, up to `update_state`. -/
lemma registered_step (h : Filling pl st) (hpc : registered st.pc = true)
    (hpc' : registered st'.pc = true) (hpids : st'.pids = st.pids)
    (hjob : st'.job = st.job ∨ ∃ p status, st'.job = st.job.map (Job.record p status)) :
    Filling pl st' := by
  obtain ⟨hlen, j, hj, hstored⟩ := h.forked (ne_fork_of_registered hpc)
  refine ⟨h.stages, fun c hc => absurd hc (ne_fork_of_registered hpc' c), fun _ => ?_, ?_⟩
  · rw [hpids]
    refine ⟨hlen, ?_⟩
    rcases hjob with hjob | ⟨p, status, hjob⟩
    · exact ⟨j, hjob.trans hj, hstored.toPc hpc hpc'⟩
    · exact ⟨j.record p status, by rw [hjob, hj]; rfl, (hstored.record p status).toPc hpc hpc'⟩
  · rw [hpids]
    exact h.pids

/-- A step that leaves `execute` where it is. -/
lemma same_pc (h : Filling pl st) (hpc : st'.pc = st.pc) (hpids : st'.pids = st.pids)
    (hjob : st'.job = st.job ∨ ∃ p status, st'.job = st.job.map (Job.record p status)) :
    Filling pl st' := by
  refine ⟨h.stages, ?_, ?_, ?_⟩
  · intro c hc
    rw [hpc] at hc
    obtain ⟨hlen, hle, hnone⟩ := h.forking c hc
    rw [hpids]
    refine ⟨hlen, hle, ?_⟩
    rcases hjob with hjob | ⟨p, status, hjob⟩
    · exact hjob.trans hnone
    · rw [hjob, hnone]
      rfl
  · intro hno
    rw [hpc] at hno ⊢
    obtain ⟨hlen, j, hj, hstored⟩ := h.forked hno
    rw [hpids]
    refine ⟨hlen, ?_⟩
    rcases hjob with hjob | ⟨p, status, hjob⟩
    · exact ⟨j, hjob.trans hj, hstored⟩
    · exact ⟨j.record p status, by rw [hjob, hj]; rfl, hstored.record p status⟩
  · rw [hpids]
    exact h.pids

/-- The fork loop has dealt with stage `c`. -/
lemma collect {c : Nat} (h : Filling pl st) (hpc : st.pc = .fork c) (hc : c < pl.stages.length)
    (hp : 1 < p ∨ (p = -1 ∧ pl.stages[c]? = some none)) (hpids : st'.pids = st.pids ++ [p])
    (hpc' : st'.pc = .fork (c + 1)) (hjob : st'.job = st.job) : Filling pl st' := by
  obtain ⟨hlen, -, hnone⟩ := h.forking c hpc
  refine ⟨h.stages, ?_, fun hno => absurd hpc' (hno _), ?_⟩
  · intro c' hc'
    rw [hpc'] at hc'
    cases hc'
    exact ⟨by rw [hpids, length_append, hlen]; rfl, hc, hjob.trans hnone⟩
  intro c' p' hp'
  rw [hpids] at hp'
  rcases Lib.getElem?_concat_eq_some.mp hp' with hp' | ⟨rfl, rfl⟩
  · exact h.pids c' p' hp'
  · rw [hlen]
    exact hp

/-- Every step of `execute`. -/
lemma of_exec {l : Wait.Label} (h : Filling pl s.st)
    (hok : s.permits bad l = true) (hmove : Wait.Move pl s.st l st) : Filling pl st := by
  cases hmove with
  | fork hpc hstage =>
    refine h.collect hpc (List.getElem?_eq_some_iff.mp hstage).1 (.inl ?_) rfl rfl rfl
    simpa using (Bool.and_eq_true_iff.mp hok).1
  | skip hpc hstage =>
    exact h.collect hpc (List.getElem?_eq_some_iff.mp hstage).1 (.inr ⟨rfl, hstage⟩) rfl rfl rfl
  | helper => exact h.same_pc rfl rfl (.inl rfl)
  | addJob hpc =>
    obtain ⟨hlen, -, -⟩ := h.forking _ hpc
    refine ⟨h.stages, fun c hc => ?_, fun _ => ⟨hlen, _, rfl, Stored.zeroJob pl _⟩, h.pids⟩
    cases hc
  | @storeField f hpc =>
    obtain ⟨hlen, j, hj, hstored⟩ := h.forked (by simp [hpc])
    rw [hpc] at hstored
    refine ⟨h.stages, fun c hc => ?_, fun _ => ⟨hlen, _, ?_, hstored.storeField hlen⟩, h.pids⟩
    · cases f <;> cases hc
    show s.st.job.map _ = _
    rw [hj]
    rfl
  | @storeEntry i f hpc =>
    obtain ⟨hlen, j, hj, hstored⟩ := h.forked (by simp [hpc])
    rw [hpc] at hstored
    refine ⟨h.stages, fun c hc => ?_, fun _ => ⟨hlen, _, ?_, hstored.storeEntry hlen⟩, h.pids⟩
    · cases f with
      | printed =>
        simp only [entryNext] at hc
        split_ifs at hc
      | _ => cases hc
    · show s.st.job.map _ = _
      rw [hj]
      rfl
  | release hpc | callSkip hpc | callLost hpc | callReturn hpc | callBlock hpc | wake hpc
  | reapHelper hpc | ret hpc =>
    -- the pids are fixed, and only `update_state` may still write to the entry
    exact h.registered_step (by rw [hpc]; rfl) (by first | rfl | (rw [St.setChild, hpc]; rfl)) rfl
      (.inl rfl)
  | update hpc => exact h.registered_step (by rw [hpc]; rfl) rfl rfl (.inr ⟨_, _, rfl⟩)
  | next hpc =>
    refine h.registered_step (by rw [hpc]; rfl) ?_ rfl (.inl rfl)
    show registered (if _ then _ else _) = true
    split <;> rfl
  | change | interrupt | sigchld | reap | handlerDone => cases hok

/-- After `add_job` the entry holds what the fork loop has collected. -/
lemma frame_eq (h : Filling pl st) (hpc : registered st.pc = true) :
    ∃ j, st.job = some j ∧ frame j = (pl.job_id, st.pids.headD (-1), st.pids) := by
  obtain ⟨hlen, j, hj, hstored⟩ := h.forked (ne_fork_of_registered hpc)
  have hheader : ∀ f, st.pc ≠ .header f := by
    intro f hf
    rw [hf] at hpc
    cases hpc
  refine ⟨j, hj, ?_⟩
  have hprs : j.prs.length = st.pids.length := by
    rw [hstored.length, sized_of_registered hpc]
    rfl
  have hpids : j.prs.map Process.pid = st.pids := by
    refine ext_getElem? (fun c => ?_)
    rw [List.getElem?_map]
    cases he : j.prs[c]? with
    | none =>
      rw [List.getElem?_eq_none_iff] at he
      exact (List.getElem?_eq_none (by omega)).symm
    | some e => exact ((hstored.pid c e he).1 (named_of_registered hpc c)).symm
  rw [frame, hstored.job_id (hheader _), hstored.pgid (hheader _) (hheader _), hpids]

end Filling

/-! ## Along a session -/

lemma Mode.execute_of_interrupt {m : Mode}
    (h : m.interrupt = .execute pl bad) : m = .execute pl bad := by
  unfold Mode.interrupt at h
  split at h
  · cases h
  · exact h

/-- `main` enters `execute` with nothing forked. -/
lemma filling_start {sync : Bool}
    (h : s.st.job = none ∧ s.st.pids = [] ∧ s.st.pc = .fork 0) :
    Filling (plan c sync prs_id) s.st where
  stages := by simp [plan, stagesOf, splitOnP_ne_nil]
  forking := by
    intro c' hc'
    rw [h.2.2] at hc'
    cases hc'
    exact ⟨by rw [h.2.1]; rfl, Nat.zero_le _, h.1⟩
  forked := fun hno => absurd h.2.2 (hno 0)
  pids := by simp [h.2.1]

/-- Inside `execute` the entry under construction is the one of its plan. -/
def Filled (s : State) : Prop := ∀ pl bad, s.mode = .execute pl bad → Filling pl s.st

lemma filling_of_move {s s' : State} (htidy : Tidy s) (h : Filled s) (hmove : Move s l s')
    (hmode' : s'.mode = .execute pl bad) : Filling pl s'.st := by
  cases hmove with
  | exec hmode hok hexec =>
    cases hmode.symm.trans hmode'
    exact (h _ _ hmode).of_exec hok hexec
  | fail | finish | background | store | record | wait => cases hmode'
  | spawn | collect | take | change | handlerDone =>
    exact (h _ _ hmode').same_pc rfl rfl (.inl rfl)
  | reap | recorded => exact (h _ _ hmode').same_pc rfl rfl (.inr ⟨_, _, rfl⟩)
  | interrupt hpc =>
    exact (h _ _ (Mode.execute_of_interrupt hmode')).registered_step (by rw [hpc]; rfl) rfl rfl
      (.inl rfl)
  | sigchld => exact (h _ _ (Mode.execute_of_interrupt hmode')).same_pc rfl rfl (.inl rfl)
  | control hctl =>
    rw [hctl.st_eq]
    rcases htidy with ⟨pl0, bad0, hmode⟩ | ⟨hcalm, hst⟩
    · cases (hctl.executing hmode).symm.trans hmode'
      exact h _ _ hmode
    rcases hctl.calm hcalm with hcalm' | ⟨sync, c, todo, -, -, -, hm⟩
    · rw [hmode'] at hcalm'
      cases hcalm'
    · cases hm.symm.trans hmode'
      exact filling_start hst

lemma filling_of_run (hrun : Lib.Run step ok State.start ls s) (hmode : s.mode = .execute pl bad) :
    Filling pl s.st := by
  induction hrun generalizing pl bad with
  | nil => cases hmode
  | snoc hrun _ hstep ih =>
    exact filling_of_move (tidy_of_run hrun) (fun _ _ => ih) (Move.of_step hstep) hmode

end CshellXv6.Shell.Session
