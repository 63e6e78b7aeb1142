import CshellXv6.Shell.Execute

/-! # Failed calls of `execute`

A call that returns 0 should leave no trace: no child, no open descriptor, no
change of the job table. Each early return does some cleanup of its own, and
it covers a failure of the first stage only, before anything but files has
been opened. `failed_execute_clean_iff` says exactly when a failed call is
clean.
-/

namespace CshellXv6.Shell

open Lib List

/-- The call left a trace: a child, or a descriptor that was free before. The
sync pipe does not count, as every early return closes it. -/
def Dirty (t0 : Table Desc) (sync : PipeFds) (st : Loop) : Prop :=
  st.procs ≠ [] ∨ ∃ x d, t0.get x = none ∧ ¬ InPair x sync ∧ st.fds.get x = some d

/-- The call left no trace. -/
def Clean (t0 : Table Desc) (sync : PipeFds) (st : Loop) : Prop :=
  st.procs = [] ∧ Table.Same (closePair sync st.fds) t0

variable {t1 t0 : Table Desc} {k : PipeId} {fd : PipeFds} {st' : Loop} {e : ExecError}
  {input : List Token} {env : Env}

section Traces

variable {env : Env} {n c x : Nat} {sync : PipeFds} {words : List Token}
  {stages : List (List Token)} {t0 t' : Table Desc} {st st' : Loop} {e : ExecError} {d : Desc}

lemma Dirty.not_clean (h : Dirty t0 sync st) : ¬ Clean t0 sync st := by
  rintro ⟨hprocs, hsame⟩
  rcases h with hne | ⟨x, d, hfree, hsync, hopen⟩
  · exact hne hprocs
  have hx := hsame x
  rw [(get_closePair sync st.fds x).2 hsync, hopen, hfree] at hx
  cases hx

/-- A trace stays when the table and the children only grow. -/
lemma Dirty.mono (h : Dirty t0 sync st) (hfds : Extends st.fds st'.fds)
    (hprocs : ∀ p ∈ st.procs, p ∈ st'.procs) : Dirty t0 sync st' := by
  rcases h with hne | ⟨x, d, hfree, hsync, hopen⟩
  · rcases exists_mem_of_ne_nil _ hne with ⟨p, hp⟩
    exact .inl (ne_nil_of_mem (hprocs p hp))
  · exact .inr ⟨x, d, hfree, hsync, hfds x d hopen⟩

/-- No later stage removes a trace, whether it succeeds or fails. -/
lemma runStage_dirty (h : Dirty t0 sync st) :
    (∀ st', runStage env n sync c words st = .ok st' → Dirty t0 sync st') ∧
      ∀ e st', runStage env n sync c words st = .error (e, st') → Dirty t0 sync st' := by
  have hsame : ∀ {t' t1 : Table Desc}, Table.Same t' t1 → Extends t1 t' :=
    fun hs x d hx => (hs x).trans hx
  generalize hr : runStage env n sync c words st = r
  have hcase : StageCase env n sync c words st r := hr ▸ runStage_case env n sync c words st
  cases hcase with
  | early hearly =>
    refine ⟨nofun, ?_⟩
    rintro e st' ⟨⟩
    exact h
  | stopped hlate hpiped hfd hs hnot =>
    refine ⟨nofun, ?_⟩
    rintro e st' ⟨⟩
    exact h.mono (hpiped.keeps.trans (hsame hs)) (fun p hp => hp)
  | skip hlate hpiped hfd harg =>
    refine ⟨?_, nofun⟩
    rintro st' ⟨⟩
    exact h.mono hpiped.keeps (fun p hp => hp)
  | forkFails hready hfork =>
    refine ⟨nofun, ?_⟩
    rintro e st' ⟨⟩
    exact h.mono hready.keeps hready.procs_subset
  | forked hready hfork =>
    refine ⟨?_, nofun⟩
    rintro st' ⟨⟩
    exact .inl (by simp)

lemma runStages_dirty (h : Dirty t0 sync st)
    (hrun : runStages env n sync c stages st = .error (e, st')) : Dirty t0 sync st' := by
  induction stages generalizing c st with
  | nil => cases hrun
  | cons words stages ih =>
    rw [runStages] at hrun
    split at hrun
    next e' hstage =>
      cases hrun
      exact (runStage_dirty h).2 e st' hstage
    next st1 hstage => exact ih ((runStage_dirty h).1 st1 hstage) hrun

/-- A descriptor that is opened after the sync pipe leaves a trace. -/
lemma dirty_of_open (hsync : Piped .sync t0 sync st.fds) (hfree : st.fds.get x = none)
    (hopen : t'.get x = some d) : Dirty t0 sync { st with fds := t' } := by
  refine .inr ⟨x, d, ?_, fun hx => ?_, hopen⟩
  · by_contra hcon
    rcases Option.ne_none_iff_exists'.mp hcon with ⟨d', hd'⟩
    rw [hsync.keeps x d' hd'] at hfree
    cases hfree
  · rcases (hsync.get_of_inPair hx).2 with ⟨d', hd'⟩
    rw [hfree] at hd'
    cases hd'

/-- The pipe to the next stage leaves a trace as long as it is open. -/
lemma dirty_of_pipe (hsync : Piped .sync t0 sync st.fds) (hpiped : Piped k st.fds fd t1)
    (hfd : fd.isSome = true) (hkeep : Extends t1 t') : Dirty t0 sync { st with fds := t' } := by
  rcases Option.isSome_iff_exists.mp hfd with ⟨⟨r, w⟩, rfl⟩
  rcases hpiped.get_of_inPair ⟨r, w, rfl, .inl rfl⟩ with ⟨hfree, d, hd⟩
  exact dirty_of_open hsync hfree (hkeep r d hd)

/-- Nothing but the sync pipe is open. -/
lemma clean_of_same (hsync : Piped .sync t0 sync st.fds) (hprocs : st.procs = [])
    (hsame : Table.Same t' st.fds) : Clean t0 sync { st with fds := t' } := by
  refine ⟨hprocs, fun x => ?_⟩
  by_cases hx : InPair x sync
  · rw [(get_closePair sync t' x).1 hx, (hsync.get_of_inPair hx).1]
  · rw [(get_closePair sync t' x).2 hx, hsame x, hsync.get_of_not_inPair hx]

end Traces

/-! ## The first stage -/

section FirstStage

variable {env : Env} {n c : Nat} {sync : PipeFds} {words : List Token}
  {t0 t : Table Desc} {st st' : Loop} {e : ExecError}

/-- The last stage has no pipe to a next stage. -/
lemma Piped.eq_of_last (hpiped : Piped k t fd t1) (hfd : fd.isSome = decide (c + 1 < n))
    (hlast : n ≤ c + 1) : t1 = t := by
  cases hpiped with
  | failed => rfl
  | opened =>
    have := of_decide_eq_true hfd.symm
    omega

section ForkFails

variable {c : Nat} {v : Locals} {t1 t2 t3 t4 t5 : Table Desc} {procs1 procs2 : List Forked}

/-- Without redirections, a stage comes to its `fork` with no helper and no
file. -/
lemma Ready.same_of_plain (hready : Ready env n c sync words st v t1 t2 t3 t4 t5 procs1 procs2)
    (hprocs : st.procs = []) (hin : (scanText words).files = [])
    (hout : (scanText words).out_files = []) : procs2 = [] ∧ Table.Same t5 t1 := by
  have hstored : v.stored = [] := length_eq_zero_iff.mp (by rw [hready.inlen, hin]; rfl)
  have hout_stored : v.out_stored = [] :=
    length_eq_zero_iff.mp (by rw [hready.outlen, hout]; rfl)
  have hpf := hready.feeder.isSome
  have hwf := hready.writer.isSome
  rw [hstored] at hpf
  rw [hout_stored] at hwf
  constructor
  · refine eq_nil_iff_forall_not_mem.mpr (fun p hp => ?_)
    rw [hready.writer.procs, hready.feeder.procs, hprocs, hstored, hout_stored] at hp
    simp at hp
  intro x
  rw [hready.writer.piped.get_of_not_inPair (fun ⟨_, _, h, _⟩ => by simp [h] at hwf),
    hready.feeder.piped.get_of_not_inPair (fun ⟨_, _, h, _⟩ => by simp [h] at hpf),
    hready.outs.get x (by simp [hout_stored]), hready.ins.get x (by simp [hstored])]

/-- With redirections, a stage comes to its `fork` with an open file. -/
lemma Ready.file_of_redirected (hready : Ready env n c sync words st v t1 t2 t3 t4 t5 procs1 procs2)
    (hredir : ¬ ((scanText words).files = [] ∧
      (scanText words).out_files = [])) :
    ∃ x f, t1.get x = none ∧ t5.get x = some (.file f) := by
  have hfile : ∃ x f, t1.get x = none ∧ t3.get x = some (.file f) := by
    by_cases hin : v.stored = []
    · have hout : v.out_stored ≠ [] := by
        intro hcon
        refine hredir ⟨length_eq_zero_iff.mp ?_, length_eq_zero_iff.mp ?_⟩
        · rw [← hready.inlen, hin]
          rfl
        · rw [← hready.outlen, hcon]
          rfl
      rcases exists_mem_of_ne_nil _ hout with ⟨x, hx⟩
      have hfree := hready.outs.fresh x hx
      rw [hready.ins.get x (by simp [hin])] at hfree
      obtain ⟨f, hf⟩ := hready.outs.get_mem hx
      exact ⟨x, f, hfree, hf⟩
    · rcases exists_mem_of_ne_nil _ hin with ⟨x, hx⟩
      obtain ⟨f, hf⟩ := hready.ins.get_mem hx
      exact ⟨x, f, hready.ins.fresh x hx, hready.outs.keeps x _ hf⟩
  rcases hfile with ⟨x, f, hfree, hopen⟩
  exact ⟨x, f, hfree, hready.writer.piped.keeps x _ (hready.feeder.piped.keeps x _ hopen)⟩

end ForkFails

/-- The only stage of a pipeline fails: without redirections, or before its
`fork`, it leaves nothing. -/
lemma single_stage_clean_iff (hsync : Piped .sync t0 sync st.fds) (hprocs : st.procs = [])
    (hrun : runStage env 1 sync 0 words st = .error (e, st')) :
    Clean t0 sync st' ↔ (Startable env 0 words →
      (scanText words).files = [] ∧
        (scanText words).out_files = []) := by
  have hcase := runStage_case env 1 sync 0 words st
  rw [hrun] at hcase
  cases hcase with
  | early hearly =>
    refine iff_of_true (clean_of_same hsync hprocs (fun _ => rfl)) (fun hstart => ?_)
    rcases hearly with hnil | hpipe
    · rw [hnil]
      exact ⟨rfl, rfl⟩
    · exact absurd hpipe.1 (by omega)
  | stopped hlate hpiped hfd hsame hnot =>
    rw [hpiped.eq_of_last hfd le_rfl] at hsame
    exact iff_of_true (clean_of_same hsync hprocs hsame) (fun hstart => absurd hstart hnot)
  | forkFails hready hfork =>
    have ht1 := hready.piped.eq_of_last hready.fd le_rfl
    by_cases hredir : (scanText words).files = [] ∧
        (scanText words).out_files = []
    · obtain ⟨hempty, hsame⟩ := hready.same_of_plain hprocs hredir.1 hredir.2
      rw [ht1] at hsame
      refine iff_of_true ?_ (fun _ => hredir)
      rw [hempty]
      have hclean := clean_of_same hsync hprocs hsame
      rw [hprocs] at hclean
      exact hclean
    -- an open file stays open
    refine iff_of_false (Dirty.not_clean ?_) (fun h => hredir (h hready.start))
    rcases hready.file_of_redirected hredir with ⟨x, f, hfree, hopen⟩
    rw [ht1] at hfree
    rcases dirty_of_open hsync hfree hopen with hne | hleak
    · exact absurd hprocs hne
    · exact .inr hleak

/-- The first of several stages fails: it leaves nothing only when it had not
opened its pipe yet. -/
lemma first_stage_clean_iff (hn : 1 < n) (hsync : Piped .sync t0 sync st.fds)
    (hprocs : st.procs = []) (hrun : runStage env n sync 0 words st = .error (e, st')) :
    Clean t0 sync st' ↔ words = [] ∨ env.stagePipe 0 = false := by
  have hpipe : PipeFails env n 0 ↔ env.stagePipe 0 = false := by
    simp [PipeFails, hn]
  have hsome : decide (0 + 1 < n) = true := by simpa using hn
  have hcase := runStage_case env n sync 0 words st
  rw [hrun] at hcase
  cases hcase with
  | early hearly =>
    rw [hpipe] at hearly
    exact iff_of_true (clean_of_same hsync hprocs (fun _ => rfl)) hearly
  | stopped hlate hpiped hfd hsame hnot =>
    rw [hpipe] at hlate
    refine iff_of_false (Dirty.not_clean ?_) hlate
    exact dirty_of_pipe hsync hpiped (hfd.trans hsome) (fun x d hx => (hsame x).trans hx)
  | @forkFails v t1 t2 t3 t4 t5 procs1 procs2 hready hfork =>
    have hlate := hready.late
    rw [hpipe] at hlate
    refine iff_of_false (Dirty.not_clean ?_) hlate
    have hkeep : Extends t1 t5 :=
      ((hready.ins.keeps.trans hready.outs.keeps).trans hready.feeder.piped.keeps).trans
        hready.writer.piped.keeps
    rcases dirty_of_pipe hsync hready.piped (hready.fd.trans hsome) hkeep with hne | hleak
    · exact absurd hprocs hne
    · exact .inr hleak

/-- The first of several stages succeeds: it leaves a trace. -/
lemma first_stage_dirty (hn : 1 < n) (hsync : Piped .sync t0 sync st.fds)
    (hrun : runStage env n sync 0 words st = .ok st') :
    Dirty t0 sync st' ∧ ¬ (words = [] ∨ env.stagePipe 0 = false) := by
  have hpipe : PipeFails env n 0 ↔ env.stagePipe 0 = false := by
    simp [PipeFails, hn]
  have hsome : decide (0 + 1 < n) = true := by simpa using hn
  have hcase := runStage_case env n sync 0 words st
  rw [hrun] at hcase
  cases hcase with
  | skip hlate hpiped hfd harg =>
    rw [hpipe] at hlate
    refine ⟨?_, hlate⟩
    rcases dirty_of_pipe hsync hpiped (hfd.trans hsome) (fun _ _ hx => hx) with hne | hleak
    · exact .inl hne
    · exact .inr hleak
  | forked hready hfork =>
    have hlate := hready.late
    rw [hpipe] at hlate
    exact ⟨.inl (by simp), hlate⟩

end FirstStage

/-! ## The whole call -/

/-- The failures that leave no trace: of a single stage all but a failing
`fork` after a redirection, and of several stages only an empty first stage
and a failing first `pipe`. -/
def CleanFailure (env : Env) (input : List Token) : Prop :=
  match stagesOf input with
  | [] => True
  | [words] => Startable env 0 words →
      (scanText words).files = [] ∧ (scanText words).out_files = []
  | words :: _ => words = [] ∨ env.stagePipe 0 = false

/-- The loop over the stages fails. -/
lemma runStages_clean_iff {sync : PipeFds} (st : Loop)
    (hsync : Piped .sync t0 sync st.fds) (hprocs : st.procs = [])
    (hrun : runStages env (stagesOf input).length sync 0 (stagesOf input) st = .error (e, st')) :
    Clean t0 sync st' ↔ CleanFailure env input := by
  unfold CleanFailure
  split
  next hstages =>
    rw [hstages] at hrun
    cases hrun
  next words hstages =>
    rw [hstages, runStages] at hrun
    split at hrun
    next hstage =>
      cases hrun
      exact single_stage_clean_iff hsync hprocs hstage
    · cases hrun
  next words stages hne hstages =>
    have hlen : 1 < (stagesOf input).length := by
      rw [hstages]
      rcases exists_cons_of_ne_nil hne with ⟨w, ws, rfl⟩
      simp
    rw [hstages, runStages, ← hstages] at hrun
    split at hrun
    next hstage =>
      cases hrun
      exact first_stage_clean_iff hlen hsync hprocs hstage
    next st1 hstage =>
      rcases first_stage_dirty hlen hsync hstage with ⟨hdirty, hlate⟩
      exact iff_of_false (runStages_dirty hdirty hrun).not_clean hlate

/-- **When a failed `execute` is clean.** A call that returns 0 leaves no
child, no open descriptor and an unchanged job table exactly in the cases of
`CleanFailure`. -/
theorem failed_execute_clean_iff (env : Env) (input : List Token) (bg : Bool) (sh sh' : ShellState)
    (e : ExecError) (procs : List Forked) (h : execute env input bg sh = .failed e sh' procs) :
    (procs = [] ∧ (∀ fd, sh'.fds.get fd = sh.fds.get fd) ∧ sh'.jobs = sh.jobs ∧
      sh'.prs_id = sh.prs_id) ↔ CleanFailure env input := by
  unfold execute at h
  split at h
  · cases h
  dsimp only at h
  split at h
  next e' st hrun =>
    cases h
    have hsync := openPipe_piped .sync (bg && env.syncPipe) sh.fds
    have hclean := runStages_clean_iff ⟨(openSync env bg sh.fds).2, 0, [], [], []⟩ hsync rfl hrun
    rw [← hclean]
    exact ⟨fun h => ⟨h.1, h.2.1⟩, fun h => ⟨h.1, h.2, rfl, rfl⟩⟩
  · cases h

/-- A command that is not found, with an input file: everything is as before. -/
theorem failed_execute_clean_iff_notFound :
    let env : Env := { Env.fine with path := fun _ => false }
    let input : List Token := [⟨.word, "nosuch"⟩, ⟨.less, "<"⟩, ⟨.word, "f"⟩]
    execute env input false .start = .failed (.notFound "nosuch") ⟨[some (.other 0),
      some (.other 1), some (.other 2), none], [], 1⟩ [] ∧ CleanFailure env input := by
  have hrun : execute { Env.fine with path := fun _ => false }
      [⟨.word, "nosuch"⟩, ⟨.less, "<"⟩, ⟨.word, "f"⟩] false .start =
        .failed (.notFound "nosuch") ⟨[some (.other 0), some (.other 1), some (.other 2), none],
          [], 1⟩ [] := by decide
  refine ⟨hrun, (failed_execute_clean_iff _ _ _ _ _ _ _ hrun).mp ⟨rfl, fun fd => ?_, rfl, rfl⟩⟩
  match fd with
  | 0 | 1 | 2 | 3 | fd + 4 => rfl

/-- The second of two commands is not found: the first one is running, no
entry knows it, and the read end of its pipe is still open in the shell. -/
theorem late_failure_leaves_child :
    ∃ sh procs, execute { Env.fine with path := fun c => c = 0 }
        [⟨.word, "cat"⟩, ⟨.pipe, "|"⟩, ⟨.word, "nosuch"⟩] false .start =
          .failed (.notFound "nosuch") sh procs ∧
      sh.jobs = [] ∧ procs.map (fun p => (p.role, p.pid)) = [(.command, 100)] ∧
      sh.fds.get 3 = some (.readEnd (.stage 0)) ∧ ShellState.start.fds.get 3 = none :=
  ⟨_, _, rfl, rfl, rfl, rfl, rfl⟩

end CshellXv6.Shell
