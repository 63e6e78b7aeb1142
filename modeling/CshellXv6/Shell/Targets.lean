import CshellXv6.Shell.Filling

/-! # What `kill` is aimed at

`resume` and `ping` look up a job or a pid and signal it, `send_sighup`
signals the groups of all active jobs. What they hand to `kill` comes from the
table: `-jobs[i].pgid` or `prs[j].pid`. `execute` skips a stage without a
command word and leaves its pid at -1, so a job may have the group -1, and a
`kill` of that group goes to pid 1: `ping_signals_init`.

When every stage has a command word, the entries are well formed, and as long
as no end of a process is recorded between the lookup and the `kill`, every
signal goes to a live process or to the group of an active job:
`kill_addresses_own`.
-/

namespace CshellXv6.Shell.Session

open Wait Lib List Option

/-- Every stage of the command has a command word. -/
def worded (c : Command) : Bool := (stagesOf c.input).all (fun words => (stageName words).isSome)

/-- What a command is about to signal, from its lookup on. -/
def Mode.aimed : Mode → Option Aim
  | .resume r _ (.test _) => some (.job r.job)
  | .resume r _ (.store _) => some (.job r.job)
  | .signal _ aim _ => some aim
  | _ => none

/-- `p` is one of the processes that are meant. -/
def State.among (s : State) (p : Int) : Aim → Bool
  | .job i => (s.st.old[i]?).any (fun j => j.prs.any (fun e => e.pid = p))
  | .pid q => p = q

/-- Pipelines have a command word in every stage. -/
def runsWorded (l : Label) (s : State) : Prop :=
  match l with
  | .command _ => s.todo.head?.all (fun c => c.builtin || worded c) = true
  | _ => True

/-- Moreover no end is recorded of a process that a command is about to
signal, and a `resume` that has timed out finds its job still active. -/
def aimsTrue (l : Label) (s : State) : Prop :=
  runsWorded l s ∧
    match l, s.mode with
    | .reap p, m => (m.aimed.any (s.among p) && (s.st.kids p).any (fun k => k.real.ended)) = false
    | .next, .resume r _ .expired => s.timed_out = true → s.active r.job = true
    | _, _ => True

instance (l : Label) (s : State) : Decidable (runsWorded l s) := by
  unfold runsWorded
  apply @Label.casesOn _ l <;> intros <;> infer_instance

instance (l : Label) (s : State) : Decidable (aimsTrue l s) := by
  unfold aimsTrue
  refine @instDecidableAnd _ _ inferInstance ?_
  generalize s.mode = m
  apply @Label.casesOn _ l
  case next =>
    apply @Mode.casesOn _ m
    case resume =>
      intro _ _ pt
      apply @Point.casesOn _ pt <;> intros <;> infer_instance
    all_goals intros; infer_instance
  all_goals intros; infer_instance

variable {s s' : State} {l : Label} {j : Job} {pl : Plan} {st st' : St} {ls : List Label}
  {bad i k i0 : Nat} {pids : List Int} {f : Job → Job} {ok : Label → State → Prop} {c : Command}
  {job_id p : Int} {e : Process} {a : Aim}

/-! ## Active jobs have a live process -/

/-- An active job has a live process. -/
def Lively (j : Job) : Prop := j.active = true → j.live = true

lemma lively_record (p status : Int) (j : Job) : Lively (j.record p status) := by
  intro hactive
  unfold Job.record at hactive ⊢
  split at hactive
  next hin => simp [hactive] at hin
  next hin =>
    rw [if_neg hin]
    simp only at hactive ⊢
    split at hactive
    next hlive =>
      rw [if_pos hlive]
      exact hlive
    · cases hactive

lemma live_storeEntry {f : EntryField} {proc : Int × String} (h : j.live = true) :
    (j.storeEntry i proc f).live = true := by
  obtain ⟨e, hmem, hlive⟩ := List.any_eq_true.mp h
  obtain ⟨c, he⟩ := mem_iff_getElem?.mp hmem
  refine Wait.Job.live_of_entry (c := c) (by rw [Wait.Job.getElem?_storeEntry, he]; rfl) ?_
  have hne : e.state ≠ .terminated := by simpa using hlive
  split
  · exact Process.alive_storeField hne
  · exact hne

/-- The stores of `add_job`. -/
lemma lively_storeField {f : JobField} (hn : pl.stages ≠ []) (hlen : pids.length = pl.stages.length)
    (hstored : Stored pl (.header f) pids j) (h : Lively j) :
    Lively ((pl.newJob pids).storeField f j) := by
  have hpos : 0 < pids.length := by
    rw [hlen]
    exact length_pos_iff.mpr hn
  cases f with
  | num =>
    intro hactive
    rw [show ((pl.newJob pids).storeField .num j).active = j.active from rfl,
      (hstored.blank rfl).1] at hactive
    cases hactive
  | active =>
    intro _
    -- all entries are still as they were zeroed
    have hprs : 0 < j.prs.length := by
      rw [hstored.length]
      exact hpos
    exact Wait.Job.live_of_entry (List.getElem?_eq_getElem hprs)
      ((hstored.blank rfl).2 _ (getElem_mem hprs))
  | job_id | pgid | bg | cmd => exact h

lemma lively_setRunning (h : Lively j) :
    Lively { j with prs := j.prs.modify k (fun e => { e with state := .running }) } := by
  intro hactive
  obtain ⟨e, hmem, hlive⟩ := List.any_eq_true.mp (h hactive)
  obtain ⟨c, he⟩ := mem_iff_getElem?.mp hmem
  refine Wait.Job.live_of_entry (c := c) (by rw [List.getElem?_modify, he]; rfl) ?_
  split
  · simp
  · simpa using hlive

lemma forall_modify (hf : ∀ j, Lively j → Lively (f j)) {jobs : List Job}
    (h : ∀ j ∈ jobs, Lively j) (i : Nat) : ∀ j ∈ jobs.modify i f, Lively j := by
  intro j hj
  obtain ⟨k, hk⟩ := mem_iff_getElem?.mp hj
  rw [List.getElem?_modify] at hk
  obtain ⟨j0, hj0, rfl⟩ := map_eq_some_iff.mp hk
  have h0 := h j0 (mem_of_getElem? hj0)
  split
  · exact hf j0 h0
  · exact h0

/-- Every active job of the table, the new one included, has a live process. -/
def LivelyTable (st : St) : Prop := ∀ j ∈ st.old ++ st.job.toList, Lively j

lemma livelyTable_record (p status : Int) (st : St) : LivelyTable (st.record p status) := by
  intro j hj
  rcases mem_append.mp hj with hj | hj
  · obtain ⟨j0, -, rfl⟩ := List.mem_map.mp hj
    exact lively_record p status j0
  rw [show (st.record p status).job = st.job.map (Job.record p status) from rfl] at hj
  cases hjob : st.job with
  | none => simp [hjob] at hj
  | some j0 =>
    rw [hjob] at hj
    rw [mem_singleton.mp hj]
    exact lively_record p status j0

lemma LivelyTable.of_exec {l : Wait.Label} (h : LivelyTable st) (hfill : Filling pl st)
    (hmove : Wait.Move pl st l st') : LivelyTable st' := by
  have hnew : ∀ f : Job → Job, (∀ j, st.job = some j → Lively j → Lively (f j)) →
      ∀ j ∈ st.old ++ (st.job.map f).toList, Lively j := by
    intro f hf j hj
    rcases mem_append.mp hj with hj | hj
    · exact h j (mem_append_left _ hj)
    cases hjob : st.job with
    | none => simp [hjob] at hj
    | some j0 =>
      rw [hjob] at hj
      rw [mem_singleton.mp hj]
      exact hf j0 hjob (h j0 (mem_append_right _ (by simp [hjob])))
  cases hmove with
  | addJob =>
    intro j hj
    rcases mem_append.mp hj with hj | hj
    · exact h j (mem_append_left _ hj)
    · rw [mem_singleton.mp hj]
      exact fun hactive => by cases hactive
  | storeField hpc =>
    obtain ⟨hlen, j0, hj0, hstored⟩ := hfill.forked (by simp [hpc])
    refine hnew _ (fun j hj hl => ?_)
    cases hj0.symm.trans hj
    rw [hpc] at hstored
    exact lively_storeField hfill.stages hlen hstored hl
  | storeEntry => exact hnew _ (fun j _ hl hactive => live_storeEntry (hl hactive))
  | update => exact livelyTable_record _ _ st
  | reap => exact livelyTable_record _ _ (st.setChild _ _)
  | _ => exact h

lemma LivelyTable.of_move (h : LivelyTable s.st) (hfill : Filled s)
    (hmove : Move s l s') : LivelyTable s'.st := by
  have hold : ∀ (i : Nat) (f : Job → Job), (∀ j, Lively j → Lively (f j)) →
      ∀ j ∈ s.st.old.modify i f ++ s.st.job.toList, Lively j := by
    intro i f hf j hj
    rcases mem_append.mp hj with hj | hj
    · exact forall_modify hf (fun j hj => h j (mem_append_left _ hj)) i j hj
    · exact h j (mem_append_right _ hj)
  cases hmove with
  | exec hmode _ hexec => exact h.of_exec (hfill _ _ hmode) hexec
  | fail | finish =>
    intro j hj
    exact h j (by simpa [State.abandon, State.leave, State.jobs] using hj)
  | background => exact hold _ _ (fun j hl => hl)
  | store => exact hold _ _ (fun j hl => lively_setRunning hl)
  | record | recorded => exact livelyTable_record _ _ s.st
  | reap => exact livelyTable_record _ _ (s.st.setChild _ _)
  | control hctl =>
    rw [hctl.st_eq]
    exact h
  | _ => exact h

lemma lively_of_run (hrun : Run step ok State.start ls s) : LivelyTable s.st := by
  induction hrun with
  | nil => simp [LivelyTable, State.start, St.start]
  | snoc hrun _ hstep ih =>
    exact ih.of_move (fun _ _ => filling_of_run hrun) (Move.of_step hstep)

/-! ## The entries are well formed -/

/-- The part of an entry that stays: at least one pid, pids of children, and
the group of the first one. -/
def Proper (f : Int × Int × List Int) : Prop := f.2.2.head? = some f.2.1 ∧ ∀ p ∈ f.2.2, 1 < p

/-- `execute` is in its fork loop. -/
def forking : Pc → Bool
  | .fork _ => true
  | _ => false

/-- The finished entries and the pipeline under way. Job ids increase. -/
structure WellFormed (s : State) : Prop where
  proper : ∀ f ∈ s.st.old.map frame, Proper f
  ids : (s.st.old.map frame).Pairwise (fun f g => f.1 < g.1)
  below : ∀ f ∈ s.st.old.map frame, f.1 < s.prs_id
  words : ∀ pl bad, s.mode = .execute pl bad → ∀ name ∈ pl.stages, name ≠ none
  fresh : ∀ pl bad, s.mode = .execute pl bad → ∀ f ∈ s.st.old.map frame, f.1 < pl.job_id
  before : ∀ pl bad, s.mode = .execute pl bad → forking s.st.pc = true → pl.job_id = s.prs_id
  after : ∀ pl bad, s.mode = .execute pl bad → forking s.st.pc = false → pl.job_id < s.prs_id

/-- A step that keeps the table and stays where it is, as far as `execute` is
concerned. -/
lemma WellFormed.keep (h : WellFormed s) (hframes : s'.st.old.map frame = s.st.old.map frame)
    (hprs : s'.prs_id = s.prs_id)
    (hmode : ∀ pl bad, s'.mode = .execute pl bad → s.mode = .execute pl bad)
    (hpc : forking s'.st.pc = forking s.st.pc) : WellFormed s' where
  proper := by
    rw [hframes]
    exact h.proper
  ids := by
    rw [hframes]
    exact h.ids
  below := by
    rw [hframes, hprs]
    exact h.below
  words := fun pl bad hm => h.words pl bad (hmode pl bad hm)
  fresh := by
    rw [hframes]
    exact fun pl bad hm => h.fresh pl bad (hmode pl bad hm)
  before := by
    rw [hprs, hpc]
    exact fun pl bad hm => h.before pl bad (hmode pl bad hm)
  after := by
    rw [hprs, hpc]
    exact fun pl bad hm => h.after pl bad (hmode pl bad hm)

/-- The fork loop is left with `add_job` only. -/
lemma forking_of_exec {l : Wait.Label} (hok : s.permits bad l = true)
    (hexec : Wait.Move pl s.st l st) : forking st.pc = (forking s.st.pc && l ≠ .addJob) := by
  cases hexec with
  | fork hpc | skip hpc | helper hpc | addJob hpc => simp [forking, hpc, St.spawn]
  | @storeField f hpc => cases f <;> simp [forking, hpc, headerNext]
  | @storeEntry i f hpc =>
    cases f with
    | printed =>
      simp only [forking, hpc, entryNext]
      split_ifs <;> rfl
    | _ => simp [forking, hpc, entryNext]
  | next hpc =>
    simp only [forking, hpc]
    split_ifs <;> rfl
  | release hpc | callSkip hpc | callLost hpc | callReturn hpc | callBlock hpc | wake hpc
  | update hpc | reapHelper hpc | ret hpc => simp [forking, hpc, St.setChild]
  | change | interrupt | sigchld | reap | handlerDone => cases hok

lemma WellFormed.of_exec {l : Wait.Label} (h : WellFormed s) (hok : s.permits bad l = true)
    (hexec : Wait.Move pl s.st l st) :
    WellFormed { s with st := st, prs_id := if l = .addJob then s.prs_id + 1 else s.prs_id } := by
  have hfork := forking_of_exec hok hexec
  have hframes := frames_of_exec hexec
  have hle : s.prs_id ≤ if l = .addJob then s.prs_id + 1 else s.prs_id := by split <;> omega
  constructor
  · show ∀ f ∈ st.old.map frame, Proper f
    rw [hframes]
    exact h.proper
  · show (st.old.map frame).Pairwise _
    rw [hframes]
    exact h.ids
  · show ∀ f ∈ st.old.map frame, _
    rw [hframes]
    exact fun f hf => lt_of_lt_of_le (h.below f hf) hle
  · exact h.words
  · show ∀ pl bad, _ → ∀ f ∈ st.old.map frame, _
    rw [hframes]
    exact h.fresh
  · intro pl' bad' hm' hf'
    rw [hfork, Bool.and_eq_true, decide_eq_true_eq] at hf'
    show _ = if l = .addJob then s.prs_id + 1 else s.prs_id
    rw [if_neg hf'.2]
    exact h.before pl' bad' hm' hf'.1
  intro pl' bad' hm' hf'
  show _ < if l = .addJob then s.prs_id + 1 else s.prs_id
  cases hbefore : forking s.st.pc with
  | false => exact lt_of_lt_of_le (h.after pl' bad' hm' hbefore) hle
  | true =>
    rw [hfork, hbefore, Bool.true_and, decide_eq_false_iff_not, not_not] at hf'
    rw [if_pos hf', h.before pl' bad' hm' hbefore]
    omega

/-- The entry that `add_job` has made is well formed. -/
lemma WellFormed.proper_new (h : WellFormed s) (hmode : s.mode = .execute pl bad)
    (hfill : Filling pl s.st) (hpc : registered s.st.pc = true) :
    ∃ j, s.st.job = some j ∧ j.job_id = pl.job_id ∧ Proper (frame j) := by
  obtain ⟨j, hj, hframe⟩ := hfill.frame_eq hpc
  obtain ⟨hlen, -⟩ := hfill.forked (ne_fork_of_registered hpc)
  refine ⟨j, hj, congrArg Prod.fst hframe, ?_⟩
  rw [hframe]
  constructor
  · have hne : s.st.pids ≠ [] := by
      intro hnil
      rw [hnil] at hlen
      exact hfill.stages (length_eq_zero_iff.mp hlen.symm)
    obtain ⟨p, ps, hps⟩ := exists_cons_of_ne_nil hne
    simp [hps]
  · intro p hp
    obtain ⟨c, hc⟩ := mem_iff_getElem?.mp hp
    rcases hfill.pids c p hc with hgt | ⟨-, hnone⟩
    · exact hgt
    · exact absurd rfl (h.words pl bad hmode none (mem_of_getElem? hnone))

/-- `execute` is done: its entry joins the finished ones. -/
lemma WellFormed.leave (h : WellFormed s) (hmode : s.mode = .execute pl bad)
    (hfill : Filling pl s.st) (hpc : s.st.pc = .returned) : WellFormed s.leave := by
  obtain ⟨j, hj, hjid, hproper⟩ := h.proper_new hmode hfill (by rw [hpc]; rfl)
  have hold : s.leave.st.old.map frame = s.st.old.map frame ++ [frame j] := by
    simp [State.leave, State.jobs, hj]
  have hid : pl.job_id < s.prs_id := h.after pl bad hmode (by rw [hpc]; rfl)
  constructor
  · rw [hold]
    intro f hf
    rcases mem_append.mp hf with hf | hf
    · exact h.proper f hf
    · rw [mem_singleton.mp hf]
      exact hproper
  · rw [hold, pairwise_append]
    refine ⟨h.ids, pairwise_singleton _ _, fun f hf g hg => ?_⟩
    rw [mem_singleton.mp hg, frame, hjid]
    exact h.fresh pl bad hmode f hf
  · rw [hold]
    intro f hf
    rcases mem_append.mp hf with hf | hf
    · exact h.below f hf
    · rw [mem_singleton.mp hf, frame, hjid]
      exact hid
  all_goals
    intro pl' bad' hm
    cases hm

/-- `main` starts a pipeline. -/
lemma WellFormed.of_command {sync : Bool} (h : WellFormed s) (hwords : worded c = true)
    (hst : s'.st = s.st) (hid : s'.prs_id = s.prs_id) (hpc : s.st.pc = .fork 0)
    (hm : s'.mode = .execute (plan c sync s.prs_id) (badStage c)) : WellFormed s' := by
  have hplan : ∀ pl bad, s'.mode = .execute pl bad → pl = plan c sync s.prs_id := by
    intro pl bad hm'
    cases hm.symm.trans hm'
    rfl
  have hframes : s'.st.old.map frame = s.st.old.map frame := by rw [hst]
  have hfork : forking s'.st.pc = true := by
    rw [hst, hpc]
    rfl
  constructor
  · rw [hframes]
    exact h.proper
  · rw [hframes]
    exact h.ids
  · rw [hframes, hid]
    exact h.below
  · intro pl bad hm' name hname
    rw [hplan pl bad hm'] at hname
    obtain ⟨words, hmem, rfl⟩ := List.mem_map.mp hname
    have hword := List.all_eq_true.mp hwords words hmem
    exact isSome_iff_ne_none.mp hword
  · intro pl bad hm'
    rw [hplan pl bad hm', hframes]
    exact h.below
  · intro pl bad hm' _
    rw [hplan pl bad hm', hid]
    rfl
  · intro pl bad hm' hno
    rw [hfork] at hno
    cases hno

lemma WellFormed.of_control (h : WellFormed s) (htidy : Tidy s) (hok : runsWorded l s)
    (hctl : Control s l s') : WellFormed s' := by
  have hkeep : (∀ pl bad, s'.mode = .execute pl bad → s.mode = .execute pl bad) → WellFormed s' :=
    fun hmode => h.keep (by rw [hctl.st_eq]) hctl.prs_id_eq hmode (by rw [hctl.st_eq])
  rcases htidy with ⟨pl0, bad0, hmode⟩ | ⟨hcalm, hst⟩
  · refine hkeep (fun pl bad hm => ?_)
    rw [← hm, hctl.executing hmode]
    exact hmode
  rcases hctl.calm hcalm with hcalm' | ⟨sync, c, todo, rfl, htodo, hext, hm⟩
  · refine hkeep (fun pl bad hm => ?_)
    rw [hm] at hcalm'
    cases hcalm'
  · have hwords : worded c = true := by simpa [runsWorded, htodo, hext] using hok
    exact h.of_command hwords hctl.st_eq hctl.prs_id_eq hst.2.2 hm

lemma WellFormed.of_move (h : WellFormed s) (htidy : Tidy s) (hfill : Filled s)
    (hok : runsWorded l s) (hmove : Move s l s') : WellFormed s' := by
  cases hmove with
  | exec _ hperm hexec => exact h.of_exec hperm hexec
  | fail hmode hpc =>
    have hnone := (((hfill _ _ hmode).forking _ hpc).2).2
    refine h.keep ?_ rfl (fun _ _ hm => by cases hm) (by rw [hpc]; rfl)
    simp [State.abandon, State.leave, State.jobs, hnone]
  | finish hmode hpc => exact h.leave hmode (hfill _ _ hmode) hpc
  | background =>
    exact h.keep (Lib.map_modify_eq (fun _ => by rfl) _ _) rfl (fun _ _ hm => by cases hm) rfl
  | store =>
    exact h.keep (Lib.map_modify_eq (frame_setRunning _) _ _) rfl (fun _ _ hm => by cases hm) rfl
  | record => exact h.keep (map_frame_record _ _ _) rfl (fun _ _ hm => by cases hm) rfl
  | wait => exact h.keep rfl rfl (fun _ _ hm => by cases hm) rfl
  | recorded | reap => exact h.keep (map_frame_record _ _ _) rfl (fun _ _ hm => hm) rfl
  | interrupt hpc =>
    exact h.keep rfl rfl (fun _ _ hm => Mode.execute_of_interrupt hm) (by rw [hpc]; rfl)
  | sigchld => exact h.keep rfl rfl (fun _ _ hm => Mode.execute_of_interrupt hm) rfl
  | control hctl => exact h.of_control htidy hok hctl
  | _ => exact h.keep rfl rfl (fun _ _ hm => hm) rfl

lemma wellFormed_of_run (hrun : Run step runsWorded State.start ls s) : WellFormed s := by
  induction hrun with
  | nil => constructor <;> simp [State.start, St.start]
  | snoc hrun hok hstep ih =>
    exact ih.of_move (tidy_of_run hrun) (fun _ _ => filling_of_run hrun) hok (Move.of_step hstep)

/-! ## The aim of a command -/

/-- The aim is right: the job is active, or the pid is the one of a live
process of an active job. -/
def State.aims (s : State) : Aim → Prop
  | .job i => ∃ j, s.st.old[i]? = some j ∧ j.active = true
  | .pid p => ∃ j ∈ s.st.old, j.active = true ∧ ∃ e ∈ j.prs, e.pid = p ∧ e.state ≠ .terminated

/-- No `kill` is ahead, at any depth. -/
def Mode.unaimed : Mode → Bool
  | .resume _ _ (.test _) => false
  | .resume _ _ (.store _) => false
  | .signal _ _ _ => false
  | .drain next => next.unaimed
  | _ => true

/-- What follows a `kill` or an update has no aim yet. -/
def Mode.ready : Mode → Bool
  | .signal _ _ next => next.unaimed
  | .drain next => next.unaimed
  | _ => true

lemma Mode.aimed_of_unaimed {m : Mode} (h : m.unaimed = true) :
    m.aimed = none ∧ m.ready = true := by
  cases m with
  | resume r stopped pt => cases pt <;> first | exact ⟨rfl, rfl⟩ | cases h
  | signal => cases h
  | drain next => exact ⟨rfl, h⟩
  | _ => exact ⟨rfl, rfl⟩

lemma Mode.unaimed_of_plain {m : Mode} (h : m.plain = true) : m.unaimed = true := by
  induction m with
  | drain next ih => exact ih h
  | resume | signal => cases h
  | _ => rfl

lemma Mode.aimed_interrupt (m : Mode) : m.interrupt.aimed = m.aimed ∧ m.interrupt.ready = m.ready :=
  ⟨Mode.congr_interrupt Mode.aimed (fun _ _ _ => rfl) m,
    Mode.congr_interrupt Mode.ready (fun _ _ _ => rfl) m⟩

lemma Resume.unaimed_resumed (r : Resume) (stopped : Bool) :
    (r.resumed stopped).unaimed = true := by
  unfold Resume.resumed
  split <;> rfl

/-- The command that the shell is in aims at what its lookup found. -/
structure Aimed (s : State) : Prop where
  aim : ∀ a, s.mode.aimed = some a → s.aims a
  ready : s.mode.ready = true

lemma aimed_of_unaimed (h : s.mode.unaimed = true) : Aimed s := by
  obtain ⟨hnone, hready⟩ := Mode.aimed_of_unaimed h
  refine ⟨fun a ha => ?_, hready⟩
  rw [hnone] at ha
  cases ha

/-- The lookup of `resume` and `ping` finds an active job. -/
lemma active_of_findJob {jobs : List Job}
    (h : findJob job_id jobs = some i) : ∃ j, jobs[i]? = some j ∧ j.active = true := by
  obtain ⟨hlt, htest, -⟩ := List.findIdx?_eq_some_iff_getElem.mp h
  exact ⟨jobs[i], List.getElem?_eq_getElem hlt, (Bool.and_eq_true_iff.mp htest).1⟩

lemma aims_of_pingFound (h : pingFound p s.st.old = true) : s.aims (.pid p) := by
  obtain ⟨j, hj, htest⟩ := List.any_eq_true.mp h
  obtain ⟨hactive, hany⟩ := Bool.and_eq_true_iff.mp htest
  obtain ⟨e, he, htest'⟩ := List.any_eq_true.mp hany
  simp only [Bool.and_eq_true, decide_eq_true_eq] at htest'
  exact ⟨j, hj, hactive, e, he, htest'⟩

/-- An event that does not end the live entry `e` leaves the job active. -/
lemma active_record {p status : Int} (hactive : j.active = true) (he : e ∈ j.prs)
    (hlive : e.state ≠ .terminated) (hkeep : e.pid = p → terminates status = false) :
    (j.record p status).active = true ∧
      ∃ e' ∈ (j.record p status).prs, e'.pid = e.pid ∧ e'.state ≠ .terminated := by
  have hmem : (if e.pid = p then e.apply status else e) ∈ (j.record p status).prs := by
    rw [Wait.Job.prs_record_of_active hactive]
    exact List.mem_map_of_mem he
  have hlive' : (if e.pid = p then e.apply status else e).state ≠ .terminated := by
    split
    next hp =>
      rw [Ne, terminates_iff_apply, hkeep hp]
      simp [hlive]
    · exact hlive
  have hpid : (if e.pid = p then e.apply status else e).pid = e.pid := by
    split
    · exact Wait.Process.pid_apply status e
    · rfl
  refine ⟨?_, _, hmem, hpid, hlive'⟩
  unfold Job.record
  rw [if_neg (by simp [hactive])]
  have hany : Job.live { j with
      prs := j.prs.map (fun e => if e.pid = p then e.apply status else e) } = true :=
    List.any_eq_true.mpr ⟨_, List.mem_map_of_mem he, by simpa using hlive'⟩
  simp only [hany, if_true]
  exact hactive

/-- The handler records no end of a process that is meant. -/
lemma aims_record {p status : Int} (hlively : LivelyTable s.st)
    (hold : st.old = Shell.record p status s.st.old)
    (hkeep : s.among p a = true → terminates status = false) (h : s.aims a) :
    State.aims { s with st := st } a := by
  cases a with
  | job i =>
    obtain ⟨j, hj, hactive⟩ := h
    obtain ⟨e, he, hlive⟩ := List.any_eq_true.mp
      (hlively j (mem_append_left _ (mem_of_getElem? hj)) hactive)
    have hrec := active_record (p := p) hactive he (by simpa using hlive) (fun hp => hkeep (by
      simp only [State.among, hj, any_some, List.any_eq_true]
      exact ⟨e, he, by simpa using hp⟩))
    refine ⟨j.record p status, ?_, hrec.1⟩
    show st.old[i]? = _
    rw [hold, Shell.record, List.getElem?_map, hj]
    rfl
  | pid q =>
    obtain ⟨j, hj, hactive, e, he, hpid, hlive⟩ := h
    have hrec := active_record (p := p) hactive he hlive (fun hp => hkeep (by
      simp only [State.among, decide_eq_true_eq]
      exact hp.symm.trans hpid))
    obtain ⟨hact', e', he', hpid', hlive'⟩ := hrec
    refine ⟨j.record p status, ?_, hact', e', he', hpid'.trans hpid, hlive'⟩
    show _ ∈ st.old
    rw [hold]
    exact List.mem_map_of_mem hj

/-- The table as far as the aims look at it. -/
lemma aims_modify (hold : s'.st.old = s.st.old.modify i0 f)
    (hf : ∀ j, (f j).active = j.active) (h : s.aims (.job i)) : s'.aims (.job i) := by
  obtain ⟨j, hj, hactive⟩ := h
  refine ⟨if i0 = i then f j else j, ?_, ?_⟩
  · rw [hold, List.getElem?_modify, hj]
    rfl
  split
  · rw [hf]
    exact hactive
  · exact hactive

lemma aims_congr (hold : s'.st.old = s.st.old) (h : s.aims a) : s'.aims a := by
  cases a with
  | job i =>
    obtain ⟨j, hj, hactive⟩ := h
    exact ⟨j, by rw [hold]; exact hj, hactive⟩
  | pid p =>
    obtain ⟨j, hj, hrest⟩ := h
    exact ⟨j, by rw [hold]; exact hj, hrest⟩

/-- A step that keeps the aim and the table. -/
lemma Aimed.keep (h : Aimed s) (hold : s'.st.old = s.st.old)
    (haimed : s'.mode.aimed = s.mode.aimed) (hready : s'.mode.ready = true) : Aimed s' := by
  refine ⟨fun a ha => aims_congr hold (h.aim a ?_), hready⟩
  rw [← haimed]
  exact ha

lemma Aimed.of_control (h : Aimed s) (hok : aimsTrue l s) (hctl : Control s l s') : Aimed s' := by
  have hold : s'.st.old = s.st.old := by rw [hctl.st_eq]
  -- a lookup, or a check of `send_sighup`, has just found its aim
  have hfound : ∀ a, s.aims a → s'.mode.aimed = some a → s'.mode.ready = true → Aimed s' := by
    intro a ha haimed hready
    refine ⟨fun b hb => ?_, hready⟩
    cases haimed.symm.trans hb
    exact aims_congr hold ha
  cases hctl with
  | plain _ _ hm => exact aimed_of_unaimed (Mode.unaimed_of_plain hm)
  | foreground hmode hfind | aimJob hmode hfind =>
    exact hfound (.job _) (active_of_findJob hfind) rfl rfl
  | aimPid hmode hping => exact hfound _ (aims_of_pingFound hping) rfl rfl
  | aimHup hmode hj hactive => exact hfound (.job _) ⟨_, hj, hactive⟩ rfl rfl
  | tested hmode => exact h.keep rfl (by rw [hmode]; rfl) (Resume.unaimed_resumed _ _)
  | testLive hmode | testDead hmode => exact h.keep rfl (by rw [hmode]; rfl) rfl
  | @expired r _ hmode ht =>
    -- the `SIGTERM` of a call that has timed out
    have hactive : s.active r.job = true := by
      have hnow := hok.2
      simp only [hmode] at hnow
      exact hnow ht
    obtain ⟨j, hj, hact⟩ := (Option.any_eq_true _ _).mp hactive
    exact hfound (.job _) ⟨j, hj, hact⟩ rfl rfl
  | drained hmode | kill hmode =>
    have hready := h.ready
    rw [hmode] at hready
    exact aimed_of_unaimed hready
  | alarm =>
    obtain ⟨haimed, hready⟩ := Mode.aimed_interrupt s.mode
    exact h.keep rfl haimed (hready.trans h.ready)
  | _ => exact aimed_of_unaimed rfl

lemma Aimed.of_move (h : Aimed s) (hlively : LivelyTable s.st) (hkids : Children s.st)
    (hstowed : Stowed s) (hok : aimsTrue l s) (hmove : Move s l s') : Aimed s' := by
  cases hmove with
  | exec hmode =>
    refine aimed_of_unaimed ?_
    show s.mode.unaimed = true
    rw [hmode]
    rfl
  | fail | finish | record | wait => exact aimed_of_unaimed rfl
  | background hmode hfind =>
    refine ⟨fun a ha => ?_, rfl⟩
    cases ha
    exact aims_modify (s := s) rfl (fun _ => rfl) (active_of_findJob hfind)
  | store hmode =>
    refine ⟨fun a ha => ?_, rfl⟩
    cases ha
    exact aims_modify (s := s) rfl (fun _ => rfl) (h.aim _ (by rw [hmode]; rfl))
  | recorded htaken =>
    -- no aim is taken in an `update_state(-1, 0)`
    refine ⟨fun a ha => ?_, h.ready⟩
    have hdrain := hstowed.draining htaken
    have haimed : s.mode.aimed = some a := ha
    cases hm : s.mode <;> simp_all [State.draining, Mode.aimed]
  | reap _ hk =>
    refine ⟨fun a ha => ?_, h.ready⟩
    refine aims_record (s := s) hlively rfl (fun hamong => ?_) (h.aim a ha)
    -- the end of a process that is meant is not recorded now
    have hno : (s.mode.aimed.any (s.among _) &&
      (s.st.kids _).any (fun k => k.real.ended)) = false := hok.2
    rw [show s.mode.aimed = some a from ha, hk] at hno
    simp only [any_some, hamong, Bool.true_and] at hno
    rw [terminates_status (hkids _ _ hk).2.2]
    exact hno
  | interrupt | sigchld =>
    obtain ⟨haimed, hready⟩ := Mode.aimed_interrupt s.mode
    exact h.keep rfl haimed (hready.trans h.ready)
  | control hctl => exact h.of_control hok hctl
  | _ => exact h.keep rfl rfl h.ready

lemma aimed_of_run (hrun : Run step aimsTrue State.start ls s) : Aimed s := by
  induction hrun with
  | nil => exact aimed_of_unaimed rfl
  | snoc hrun hok hstep ih =>
    exact ih.of_move (lively_of_run hrun) (children_of_run hrun) (stowed_of_run hrun) hok
      (Move.of_step hstep)

/-! ## Every signal goes to a process of the shell's own -/

/-- The entries that `add_job` has finished. -/
def State.recorded (s : State) : List Job :=
  s.st.old ++ if registered s.st.pc then s.st.job.toList else []

/-- `t`, as an argument of `kill`, is the group of an active job or the pid of
a live process of one. -/
def State.addresses (s : State) (t : Int) : Prop :=
  ∃ j ∈ s.st.old, j.active = true ∧ (t = -j.pgid ∨ ∃ e ∈ j.prs, e.pid = t ∧ e.state ≠ .terminated)

lemma proper_iff (h : Proper (frame j)) :
    j.prs ≠ [] ∧ (∀ e ∈ j.prs, 1 < e.pid) ∧ j.prs.head?.map Process.pid = some j.pgid := by
  obtain ⟨hhead, hpids⟩ := h
  simp only [frame, List.head?_map] at hhead hpids
  refine ⟨?_, fun e he => hpids e.pid (List.mem_map_of_mem he), hhead⟩
  rintro hnil
  rw [hnil] at hhead
  cases hhead

lemma pgid_of_proper (h : Proper (frame j)) : 1 < j.pgid := by
  obtain ⟨hhead, hpids⟩ := h
  exact hpids j.pgid (List.mem_of_mem_head? hhead)

lemma recorded_proper (h : WellFormed s) (htidy : Tidy s) (hfill : Filled s) :
    (∀ j ∈ s.recorded, Proper (frame j)) ∧
      s.recorded.Pairwise (fun j j' => j.job_id ≠ j'.job_id) := by
  have hids : s.st.old.Pairwise (fun j j' => j.job_id ≠ j'.job_id) :=
    (pairwise_map.mp h.ids).imp (fun hlt => ne_of_lt hlt)
  have hold : ∀ j ∈ s.st.old, Proper (frame j) := fun j hj => h.proper _ (List.mem_map_of_mem hj)
  unfold State.recorded
  split
  next hpc =>
    rcases htidy with ⟨pl, bad, hmode⟩ | ⟨-, -, -, hfork⟩
    · obtain ⟨j0, hj0, hid, hproper⟩ := h.proper_new hmode (hfill pl bad hmode) hpc
      rw [hj0, toList_some, pairwise_append]
      refine ⟨fun j hj => ?_, hids, pairwise_singleton _ _, fun j hj j' hj' => ?_⟩
      · rcases mem_append.mp hj with hj | hj
        · exact hold j hj
        · rw [mem_singleton.mp hj]
          exact hproper
      · rw [mem_singleton.mp hj', hid]
        exact ne_of_lt (h.fresh pl bad hmode _ (List.mem_map_of_mem hj))
    · rw [hfork] at hpc
      cases hpc
  · rw [append_nil]
    exact ⟨hold, hids⟩

/-- **Signals stay among the shell's own processes.** In every session in
which each stage has a command word, every recorded job has at least one
process, only positive pids, the group of its first process and an id of its
own. When moreover no end of a process is recorded between a lookup and its
`kill`, and `resume` times out on active jobs only, every `kill` goes to a
live process or to the group of an active job, never to 1, 0 or -1. -/
theorem kill_addresses_own (ls : List Label) (s : State)
    (hrun : Run step runsWorded State.start ls s) :
    (∀ j ∈ s.recorded, j.prs ≠ [] ∧ (∀ e ∈ j.prs, 0 < e.pid) ∧
        j.prs.head?.map Process.pid = some j.pgid) ∧
      s.recorded.Pairwise (fun j j' => j.job_id ≠ j'.job_id) ∧
      (Run step aimsTrue State.start ls s →
        ∀ sig aim next, s.mode = .signal sig aim next →
          ∃ t, s.target aim = some t ∧ s.addresses t ∧ t ≠ 1 ∧ t ≠ 0 ∧ t ≠ -1) := by
  have hwf := wellFormed_of_run hrun
  obtain ⟨hproper, hids⟩ := recorded_proper hwf (tidy_of_run hrun) (fun _ _ => filling_of_run hrun)
  have hold : ∀ j ∈ s.st.old, Proper (frame j) :=
    fun j hj => hwf.proper _ (List.mem_map_of_mem hj)
  refine ⟨fun j hj => ?_, hids, fun hrun sig aim next hmode => ?_⟩
  · obtain ⟨hne, hpids, hhead⟩ := proper_iff (hproper j hj)
    exact ⟨hne, fun e he => lt_trans zero_lt_one (hpids e he), hhead⟩
  have haim := (aimed_of_run hrun).aim aim (by rw [hmode]; rfl)
  cases aim with
  | job i =>
    obtain ⟨j, hj, hactive⟩ := haim
    have hmem := mem_of_getElem? hj
    have hpgid := pgid_of_proper (hold j hmem)
    refine ⟨-j.pgid, by simp [State.target, hj], ⟨j, hmem, hactive, .inl rfl⟩, ?_, ?_, ?_⟩ <;>
      omega
  | pid p =>
    obtain ⟨j, hmem, hactive, e, he, hpid, hlive⟩ := haim
    have hpos := (proper_iff (hold j hmem)).2.1 e he
    refine ⟨p, rfl, ⟨j, hmem, hactive, .inr ⟨e, he, hpid, hlive⟩⟩, ?_, ?_, ?_⟩ <;> omega

/-- A background pipeline of two stages, and a `ping` of the job. -/
def pingLabels : List Label :=
  pipelineLine ++ ([.next, .read "ping %1 9".toList, .command true, .next, .next] : List Label)

/-- The theorem at that session: the signal goes to the group of the job. -/
theorem kill_addresses_own_ping :
    ∃ s, Run step aimsTrue State.start pingLabels s ∧
      ∃ t, s.target (.job 0) = some t ∧ s.addresses t ∧ t ≠ 1 ∧ t ≠ 0 ∧ t ≠ -1 := by
  refine Run.exists_imp (P := fun s => s.mode = .signal (.number 9) (.job 0) .line)
    (by decide +kernel) fun s hrun hmode => ?_
  have hworded := hrun.mono (fun _ _ hok => hok.1)
  exact (kill_addresses_own pingLabels s hworded).2.2 hrun _ _ _ hmode

/-- The line `"<" f &` is accepted: by its type the quoted word is a word. For
`execute` it is a redirection, the stage has no command word, and the job is
recorded with the pid and the group -1. `ping %1 9` then sends signal 9 to
pid 1. -/
theorem ping_signals_init :
    ∃ ls s, Run step anyStep State.start ls s ∧ s.st.old.map frame = [(1, -1, [-1])] ∧
      s.mode = .signal (.number 9) (.job 0) .line ∧ s.target (.job 0) = some 1 := by
  refine ⟨([.next, .read "\x22<\x22 f &".toList, .command true, .exec .skip, .exec .addJob] :
      List Label) ++ (List.replicate 11 (.exec .store) : List Label) ++
    ([.exec .release, .finish, .command true, .next, .read "ping %1 9".toList, .command true,
      .next, .next] : List Label), ?_⟩
  decide +kernel

end CshellXv6.Shell.Session
