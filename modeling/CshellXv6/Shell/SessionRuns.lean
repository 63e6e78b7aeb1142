import CshellXv6.Shell.Session
import CshellXv6.Shell.Registration

/-! # What holds throughout a session

Facts about every run of the session, whatever is typed and however handlers
and children interleave: no entry of the table is under construction outside
`execute`, an entry keeps its id, its group and its pids, and the children of
the shell are its own.
-/

namespace CshellXv6.Shell.Session

open Wait Function List Option

/-! ## Between two pipelines -/

/-- The shell is in `execute`, or no entry is under construction. -/
def Tidy (s : State) : Prop :=
  (∃ pl bad, s.mode = .execute pl bad) ∨
    (s.mode.calm = true ∧ s.st.job = none ∧ s.st.pids = [] ∧ s.st.pc = .fork 0)

variable {s s' : State} {l : Label} {pl : Plan} {st st' : St} {p q : Int} {c k' c' : Child}
  {e' e : Process} {i k : Nat} {r : Wait.Real}

lemma Tidy.calm (h : Tidy s) (hcalm : s.mode.calm = true) :
    s.st.job = none ∧ s.st.pids = [] ∧ s.st.pc = .fork 0 := by
  rcases h with ⟨pl, bad, hmode⟩ | ⟨-, hst⟩
  · rw [hmode] at hcalm
    cases hcalm
  · exact hst

/-- A step that stays in `execute`, or outside it with these variables. -/
lemma Tidy.keep (h : Tidy s)
    (hexec : ∀ pl bad, s.mode = .execute pl bad → s'.mode = .execute pl bad)
    (hcalm : s.mode.calm = true → s'.mode.calm = true)
    (hst : s.st.job = none → s.st.pids = [] → s.st.pc = .fork 0 →
      s'.st.job = none ∧ s'.st.pids = [] ∧ s'.st.pc = .fork 0) : Tidy s' := by
  rcases h with ⟨pl, bad, hmode⟩ | ⟨hm, hjob, hpids, hpc⟩
  · exact .inl ⟨pl, bad, hexec pl bad hmode⟩
  · exact .inr ⟨hcalm hm, hst hjob hpids hpc⟩

lemma Tidy.of_move (h : Tidy s) (hmove : Move s l s') : Tidy s' := by
  cases hmove with
  | exec hmode => exact .inl ⟨_, _, hmode⟩
  | fail | finish => exact .inr ⟨rfl, rfl, rfl, rfl⟩
  | background hmode | store hmode =>
    exact h.keep (by simp [hmode]) (fun _ => rfl) (fun hjob hpids hpc => ⟨hjob, hpids, hpc⟩)
  | record hmode =>
    refine h.keep (by simp [hmode]) (fun _ => rfl) (fun hjob hpids hpc => ⟨?_, hpids, hpc⟩)
    simp [State.goto, St.record, hjob]
  | wait hmode =>
    refine h.keep (fun pl bad hexec => ?_) (fun _ => rfl) (fun hjob hpids hpc => ⟨hjob, hpids, hpc⟩)
    simp [hexec] at hmode
  | spawn | collect | take | change | handlerDone =>
    exact h.keep (fun _ _ hexec => hexec) (fun hcalm => hcalm)
      (fun hjob hpids hpc => ⟨hjob, hpids, hpc⟩)
  | reap | recorded =>
    refine h.keep (fun _ _ hexec => hexec) (fun hcalm => hcalm)
      (fun hjob hpids hpc => ⟨?_, hpids, hpc⟩)
    simp [St.record, St.setChild, hjob]
  | interrupt hpc =>
    refine h.keep (fun _ _ hexec => Mode.interrupt_execute hexec)
      (fun hcalm => (Mode.calm_interrupt s.mode).trans hcalm) (fun _ _ hfork => ?_)
    rw [hpc] at hfork
    cases hfork
  | sigchld =>
    exact h.keep (fun _ _ hexec => Mode.interrupt_execute hexec)
      (fun hcalm => (Mode.calm_interrupt s.mode).trans hcalm)
      (fun hjob hpids hpc => ⟨hjob, hpids, hpc⟩)
  | control hctl =>
    rcases h with ⟨pl, bad, hmode⟩ | ⟨hm, hst⟩
    · exact .inl ⟨pl, bad, hctl.executing hmode⟩
    rcases hctl.calm hm with hm' | ⟨_, _, _, _, _, _, hm'⟩
    · refine .inr ⟨hm', ?_⟩
      rw [hctl.st_eq]
      exact hst
    · exact .inl ⟨_, _, hm'⟩

/-- Before `add_job` there is no new entry. -/
def Vacant (st : St) : Prop := ∀ c, st.pc = .fork c → st.job = none

lemma Vacant.of_exec {l : Wait.Label} (h : Vacant st) (hmove : Wait.Move pl st l st') :
    Vacant st' := by
  cases hmove with
  | fork hpc | skip hpc => exact fun _ _ => h _ hpc
  | helper | reapHelper | change | sigchld | handlerDone => exact h
  | storeField =>
    rename_i f _
    intro c hc
    cases f <;> cases hc
  | storeEntry =>
    rename_i j f _
    intro c hc
    cases f with
    | printed =>
      simp only [entryNext] at hc
      split_ifs at hc
    | _ => cases hc
  | next =>
    intro c hc
    simp only at hc
    split_ifs at hc
  | reap =>
    intro c hc
    simp [St.record, St.setChild, h c hc]
  | _ => exact fun _ hc => by cases hc

lemma Vacant.of_move (h : Vacant s.st) (hmove : Move s l s') : Vacant s'.st := by
  cases hmove with
  | exec _ _ hmove => exact h.of_exec hmove
  | fail | finish => exact fun _ _ => rfl
  | record | recorded =>
    intro c hc
    simp [State.goto, St.record, h c hc]
  | interrupt => exact fun _ hc => by cases hc
  | reap =>
    intro c hc
    simp [St.record, St.setChild, h c hc]
  | control hctl =>
    rw [hctl.st_eq]
    exact h
  | _ => exact h

/-! ## Between two calls of `update_state(-1, 0)` -/

/-- What may follow an `update_state(-1, 0)`. -/
def Mode.behind : Mode → Bool
  | .resume _ _ .report => true
  | m => m.plain

def Mode.orderly : Mode → Bool
  | .drain next => next.behind
  | .signal _ _ next => next.orderly
  | _ => true

/-- What the shell has got in an `update_state(-1, 0)` is stored before that ends, and
none is made in the middle of `resume`. -/
structure Stowed (s : State) : Prop where
  stored : s.draining = false → s.taken = none
  order : s.mode.orderly = true

lemma Mode.orderly_of_plain {m : Mode} (h : m.plain = true) : m.orderly = true := by
  cases m with
  | drain next => cases next <;> first | exact h | cases h
  | signal => cases h
  | _ => rfl

lemma Mode.orderly_of_behind {m : Mode} (h : m.behind = true) : m.orderly = true := by
  cases m with
  | resume => rfl
  | _ => exact Mode.orderly_of_plain h

lemma Mode.orderly_interrupt (m : Mode) : m.interrupt.orderly = m.orderly :=
  Mode.congr_interrupt Mode.orderly (fun _ _ _ => rfl) m

namespace Stowed

/-- With something still to be stored, the shell is in an `update_state(-1, 0)`. -/
lemma draining {e : Int × Int} (h : Stowed s) (htaken : s.taken = some e) : s.draining = true := by
  by_contra hout
  rw [h.stored (by simpa using hout)] at htaken
  cases htaken

lemma place {e : Int × Int} (h : Stowed s) (htaken : s.taken = some e) :
    (∃ next, s.mode = .drain next ∧ next.behind = true) ∨
      (∃ pl bad, s.mode = .execute pl bad) ∧ s.st.pc = .drain := by
  have hdrain := h.draining htaken
  cases hm : s.mode with
  | drain next =>
    have horder := h.order
    rw [hm] at horder
    exact .inl ⟨next, rfl, horder⟩
  | execute pl bad =>
    refine .inr ⟨⟨pl, bad, rfl⟩, ?_⟩
    simpa [State.draining, hm] using hdrain
  | _ => simp [State.draining, hm] at hdrain

lemma keep (h : Stowed s) (htaken : s'.taken = s.taken)
    (hdrain : s.draining = true → s'.draining = true) (horder : s'.mode.orderly = true) :
    Stowed s' := by
  refine ⟨fun hout => ?_, horder⟩
  rw [htaken]
  apply h.stored
  by_contra hin
  rw [hdrain (by simpa using hin)] at hout
  cases hout

lemma outside (h : Stowed s) (hout : s.draining = false) (htaken : s'.taken = s.taken)
    (horder : s'.mode.orderly = true) : Stowed s' :=
  h.keep htaken (fun hin => by cases hout.symm.trans hin) horder

/-- `EINTR` does not end an `update_state(-1, 0)`. -/
lemma interrupt (h : Stowed s) (hmode : s'.mode = s.mode.interrupt) (htaken : s'.taken = s.taken)
    (hpc : s.st.pc = .drain → s'.st.pc = .drain) : Stowed s' := by
  refine h.keep htaken (fun hdrain => ?_) ?_
  · cases hm : s.mode with
    | drain => simp [State.draining, hmode, hm, Mode.interrupt]
    | execute => simp_all [State.draining, Mode.interrupt]
    | _ => simp [State.draining, hm] at hdrain
  · rw [hmode, Mode.orderly_interrupt]
    exact h.order

/-- `execute` leaves its `update_state(-1, 0)` when it returns. -/
lemma of_exec {bad : Nat} {l : Wait.Label} (h : Stowed s) (hmode : s.mode = .execute pl bad)
    (hok : s.permits bad l = true) (hmove : Wait.Move pl s.st l st) : s.taken = none := by
  by_cases hpc : s.st.pc = .drain
  · cases hmove with
    | ret => simpa [State.permits] using hok
    | helper | change | sigchld | reap | handlerDone => simp_all [State.permits]
    | _ => simp_all
  · exact h.stored (by simp [State.draining, hmode, hpc])

lemma of_control (h : Stowed s) (hctl : Control s l s') : Stowed s' := by
  have htaken := hctl.taken_eq
  have horder := h.order
  cases hctl with
  | plain _ hrest hm =>
    refine h.outside ?_ htaken (Mode.orderly_of_plain hm)
    cases hmode : s.mode <;> simp_all [State.draining, Mode.resting, Mode.plain]
  | drained hmode hnone =>
    rw [hmode] at horder
    exact ⟨fun _ => hnone, Mode.orderly_of_behind horder⟩
  | kill hmode =>
    rw [hmode] at horder
    exact h.outside (by simp [State.draining, hmode]) htaken horder
  | @tested r stopped _ hmode _ =>
    refine h.outside (by simp [State.draining, hmode]) htaken ?_
    show (r.resumed stopped).orderly = true
    unfold Resume.resumed
    split <;> rfl
  | alarm => exact h.interrupt rfl htaken id
  | timedOut hmode =>
    refine h.outside ?_ htaken rfl
    rcases hmode with hmode | hmode <;> simp [State.draining, hmode]
  | _ hmode => exact h.outside (by simp [State.draining, hmode]) htaken rfl

lemma of_move (h : Stowed s) (hmove : Move s l s') : Stowed s' := by
  cases hmove with
  | exec hmode hok hexec => exact ⟨fun _ => h.of_exec hmode hok hexec, h.order⟩
  | fail hmode hpc | finish hmode hpc =>
    exact h.outside (by simp [State.draining, hmode, hpc]) rfl rfl
  | background hmode | store hmode | record hmode =>
    exact h.outside (by simp [State.draining, hmode]) rfl rfl
  | spawn hmode | collect hmode =>
    exact h.outside (by simp [State.draining, hmode]) rfl h.order
  | wait hmode =>
    refine h.outside ?_ rfl rfl
    rcases hmode with hmode | hmode <;> simp [State.draining, hmode]
  | take hdrain => exact ⟨fun hout => Bool.noConfusion (hdrain.symm.trans hout), h.order⟩
  | recorded => exact ⟨fun _ => rfl, h.order⟩
  | change | reap | handlerDone => exact h.keep rfl id h.order
  | interrupt hpc => exact h.interrupt rfl rfl fun hdrain => by simp [hpc] at hdrain
  | sigchld => exact h.interrupt rfl rfl id
  | control hctl => exact h.of_control hctl

end Stowed

/-! ## The parts of an entry that do not change -/

/-- What `add_job` stores once and for all: the id, the group and the pids. -/
def frame (j : Job) : Int × Int × List Int := (j.job_id, j.pgid, j.prs.map Process.pid)

lemma frame_record (p status : Int) (j : Job) : frame (j.record p status) = frame j := by
  have hmap : (j.prs.map (fun e => if e.pid = p then e.apply status else e)).map Process.pid =
      j.prs.map Process.pid := by
    rw [List.map_map]
    refine map_congr_left (fun e _ => ?_)
    show (if e.pid = p then e.apply status else e).pid = e.pid
    split
    · exact Wait.Process.pid_apply status e
    · rfl
  unfold Job.record
  split
  · rfl
  · simp only
    split <;> exact congrArg (fun pids => (j.job_id, j.pgid, pids)) hmap

lemma frame_setRunning (k : Nat) (j : Job) :
    frame { j with prs := j.prs.modify k (fun e => { e with state := .running }) } = frame j := by
  have hpids := Lib.map_modify_eq (f := fun e : Process => { e with state := .running })
    (g := Process.pid) (fun _ => by rfl) k j.prs
  exact congrArg (fun pids => (j.job_id, j.pgid, pids)) hpids

lemma map_frame_record (p status : Int) (jobs : List Job) :
    (Shell.record p status jobs).map frame = jobs.map frame := by
  rw [Shell.record, List.map_map]
  exact map_congr_left (fun j _ => frame_record p status j)

lemma frames_of_exec {l : Wait.Label} (h : Wait.Move pl st l st') :
    st'.old.map frame = st.old.map frame := by
  cases h with
  | update | reap => exact map_frame_record _ _ _
  | _ => rfl

/-- Once in the table, an entry keeps its id, its group and its pids; new
entries come from `execute`, when it is done. -/
lemma frames_of_move (h : Move s l s') :
    s'.st.old.map frame = s.st.old.map frame ∨
      ((∃ pl bad, s.mode = .execute pl bad) ∧ s'.st.old = s.jobs) := by
  cases h with
  | exec _ _ hmove => exact .inl (frames_of_exec hmove)
  | fail hmode | finish hmode => exact .inr ⟨⟨_, _, hmode⟩, rfl⟩
  | background => exact .inl (Lib.map_modify_eq (fun _ => by rfl) _ _)
  | store => exact .inl (Lib.map_modify_eq (frame_setRunning _) _ _)
  | record | recorded | reap => exact .inl (map_frame_record _ _ _)
  | control hctl => exact .inl (by rw [hctl.st_eq])
  | _ => exact .inl rfl

/-! ## What happens to an entry -/

/-- The job at index `i` is active. -/
def State.active (s : State) (i : Nat) : Bool := (s.st.old[i]?).any Job.active

/-- The ways in which a step can change a process entry of job `i`: it is set
to running by `resume`, or a status is applied to it, by the handler, by an
`update_state(-1, 0)` of the shell, by `resume` or by the wait loop of `execute`. -/
inductive Touch (s : State) (l : Label) (i : Nat) (e : Process) : Process → Prop where
  | same : Touch s l i e e
  | running {r : Resume} {stopped : Bool} {k : Nat} (hmode : s.mode = .resume r stopped (.store k))
      (hi : i = r.job) : Touch s l i e { e with state := .running }
  | reaped {c : Child} (hl : l = .reap e.pid) (hrun : s.st.handler = true)
      (hc : s.st.kids e.pid = some c) (hpend : c.pending = true) (hactive : s.active i = true) :
      Touch s l i e (e.apply c.real.status)
  | drained {status : Int} (htaken : s.taken = some (e.pid, status))
      (hactive : s.active i = true) : Touch s l i e (e.apply status)
  | recorded {r : Resume} {stopped : Bool} {k : Nat} {status : Int}
      (hmode : s.mode = .resume r stopped (.record k e.pid status)) (hactive : s.active i = true) :
      Touch s l i e (e.apply status)
  | updated {pl : Plan} {bad c : Nat} {status : Int} {res : Option Int}
      (hmode : s.mode = .execute pl bad) (hpc : s.st.pc = .update c status res)
      (hpid : s.st.pids[c]? = some e.pid) (hactive : s.active i = true) :
      Touch s l i e (e.apply status)

lemma Touch.pid_eq (h : Touch s l i e e') : e'.pid = e.pid := by
  cases h with
  | same | running => rfl
  | _ => exact Wait.Process.pid_apply _ e

/-- An entry after `update_state`. -/
lemma entry_record {status : Int}
    (hold : s'.st.old = Shell.record p status s.st.old) (he' : s'.entry i k = some e') :
    ∃ e, s.entry i k = some e ∧
      (e' = e ∨ (s.active i = true ∧ e.pid = p ∧ e' = e.apply status)) := by
  unfold State.entry at he' ⊢
  rw [hold, Shell.record, List.getElem?_map] at he'
  cases hj : s.st.old[i]? with
  | none => simp [hj] at he'
  | some j =>
    simp only [hj, map_some, bind_some] at he' ⊢
    obtain ⟨e, he, heq⟩ := Wait.Job.getElem?_record he'
    refine ⟨e, he, ?_⟩
    simpa [State.active, hj] using heq

/-- The same for a known entry. -/
lemma record_of_entry {status : Int}
    (hold : s'.st.old = Shell.record p status s.st.old) (he : s.entry i k = some e)
    (he' : s'.entry i k = some e') :
    e' = e ∨ (s.active i = true ∧ e.pid = p ∧ e' = e.apply status) := by
  obtain ⟨e0, he0, hcase⟩ := entry_record hold he'
  cases he.symm.trans he0
  exact hcase

lemma entry_eq_prs (s : State) (i k : Nat) :
    s.entry i k = ((s.st.old.map Job.prs)[i]?).bind (·[k]?) := by
  rw [State.entry, List.getElem?_map]
  cases s.st.old[i]? <;> rfl

/-- An entry after `jobs[i].prs[k].state = 0`. -/
lemma entry_setRunning (s : State) (i0 k0 i k : Nat) :
    (s.setRunning i0 k0).entry i k =
      (s.entry i k).map (fun e => if i = i0 ∧ k = k0 then { e with state := .running } else e) := by
  unfold State.entry State.setRunning
  simp only [List.getElem?_modify]
  cases s.st.old[i]? with
  | none => rfl
  | some j =>
    by_cases hi : i0 = i
    · subst hi
      simp only [if_true, Option.map_eq_map, map_some, bind_some, List.getElem?_modify, true_and]
      congr 1
      funext e
      simp only [eq_comm]
    · have hne : i ≠ i0 := fun h => hi h.symm
      simp [hi, hne]

/-- A step of `execute` touches the finished part of the table with
`update_state` only. -/
lemma old_of_exec {bad : Nat} {l : Wait.Label} (hok : s.permits bad l = true)
    (h : Wait.Move pl s.st l st) :
    st.old = s.st.old ∨ ∃ c status res p, s.st.pc = .update c status res ∧
      s.st.pids[c]? = some p ∧ st.old = Shell.record p status s.st.old := by
  cases h with
  | update hpc hc => exact .inr ⟨_, _, _, _, hpc, hc, rfl⟩
  | reap => cases hok
  | _ => exact .inl rfl

/-- Every step changes the entries of the finished part of the table in one of
these ways. -/
lemma Move.touch (h : Move s l s') (hi : i < s.st.old.length) (he' : s'.entry i k = some e') :
    ∃ e, s.entry i k = some e ∧ Touch s l i e e' := by
  have hsame : s'.st.old = s.st.old → ∃ e, s.entry i k = some e ∧ Touch s l i e e' := by
    intro hold
    rw [State.entry, hold] at he'
    exact ⟨e', he', .same⟩
  have hgrown : s'.st.old = s.jobs → ∃ e, s.entry i k = some e ∧ Touch s l i e e' := by
    intro hold
    rw [State.entry, hold, State.jobs, List.getElem?_append_left hi] at he'
    exact ⟨e', he', .same⟩
  cases h with
  | exec hmode hok hmove =>
    rcases old_of_exec hok hmove with hold | ⟨c, status, res, p, hpc, hc, hold⟩
    · exact hsame hold
    obtain ⟨e, he, rfl | ⟨hactive, rfl, rfl⟩⟩ := entry_record hold he'
    · exact ⟨e', he, .same⟩
    · exact ⟨e, he, .updated hmode hpc hc hactive⟩
  | fail | finish => exact hgrown rfl
  | @background _ _ i0 _ _ =>
    have hprs : (s.st.old.modify i0 (fun j => { j with bg := true })).map Job.prs =
        s.st.old.map Job.prs := Lib.map_modify_eq (fun _ => by rfl) i0 s.st.old
    refine ⟨e', ?_, .same⟩
    rw [entry_eq_prs] at he' ⊢
    rw [← hprs]
    exact he'
  | store hmode =>
    rw [entry_goto, entry_setRunning] at he'
    obtain ⟨e, he, rfl⟩ := map_eq_some_iff.mp he'
    refine ⟨e, he, ?_⟩
    split
    next hik => exact .running hmode hik.1
    · exact .same
  | record hmode =>
    obtain ⟨e, he, rfl | ⟨hactive, rfl, rfl⟩⟩ := entry_record (s := s) rfl he'
    · exact ⟨e', he, .same⟩
    · exact ⟨e, he, .recorded hmode hactive⟩
  | recorded htaken =>
    obtain ⟨e, he, rfl | ⟨hactive, rfl, rfl⟩⟩ := entry_record (s := s) rfl he'
    · exact ⟨e', he, .same⟩
    · exact ⟨e, he, .drained htaken hactive⟩
  | reap hrun hk hpend =>
    obtain ⟨e, he, rfl | ⟨hactive, rfl, rfl⟩⟩ := entry_record (s := s) rfl he'
    · exact ⟨e', he, .same⟩
    · exact ⟨e, he, .reaped rfl hrun hk hpend hactive⟩
  | control hctl => exact hsame (by rw [hctl.st_eq])
  | _ => exact hsame rfl

/-! ## Children -/

/-- The children of the shell: none of them is pid 1. -/
def Children (st : St) : Prop :=
  ∀ p k, st.kids p = some k → 1 < p ∧ p ∈ st.born ∧ k.real.valid = true

lemma Children.spawn (h : Children st) (hp : 1 < p) : Children (st.spawn p) := by
  intro q k hk
  by_cases hqp : q = p
  · subst hqp
    have hk' : k = ⟨.running, false⟩ :=
      Option.some.inj (hk.symm.trans (update_self ..))
    exact ⟨hp, mem_cons_self, hk' ▸ rfl⟩
  · obtain ⟨h1, h2, h3⟩ := h q k ((update_of_ne hqp _ _).symm.trans hk)
    exact ⟨h1, mem_cons_of_mem _ h2, h3⟩

lemma Children.setChild {k : Child} (h : Children st) (hk : st.kids p = some k)
    (hvalid : k'.real.valid = true) : Children (st.setChild p k') := by
  intro q c hc
  by_cases hqp : q = p
  · subst hqp
    rw [St.setChild_self hc]
    exact ⟨(h q k hk).1, (h q k hk).2.1, hvalid⟩
  · exact h q c (St.setChild_ne hqp hc)

lemma Children.reported {k : Child} (h : Children st) (hk : st.kids p = some k) :
    Children (st.setChild p { k with pending := false }) :=
  h.setChild hk (h p k hk).2.2

/-- A step of `execute` in the session. -/
lemma Children.of_exec {bad : Nat} {l : Wait.Label} (h : Children s.st)
    (hok : s.permits bad l = true) (hmove : Wait.Move pl s.st l st) : Children st := by
  cases hmove with
  | fork | helper => exact h.spawn (by simpa using (Bool.and_eq_true_iff.mp hok).1)
  | callReturn _ _ _ hk _ | wake _ _ hk _ | reapHelper _ _ hk | reap hk => exact h.reported hk
  | change hk hr => exact h.setChild hk (Real.valid_of_canBecome hr)
  | _ => exact h

lemma Children.of_move (h : Children s.st) (hmove : Move s l s') : Children s'.st := by
  cases hmove with
  | exec _ hok hmove => exact h.of_exec hok hmove
  | wait _ _ hk | collect _ hk | take _ _ hk | reap _ hk => exact h.reported hk
  | spawn _ hp => exact h.spawn hp
  | change hk hr => exact h.setChild hk (Real.valid_of_canBecome hr)
  | control hctl =>
    rw [hctl.st_eq]
    exact h
  | _ => exact h

/-! ## Pids that are given away -/

/-- The pid that a `fork` of this step returns. -/
def Label.newborn : Label → Option Int
  | .exec (.fork p) => some p
  | .exec (.helper p) => some p
  | .spawn p => some p
  | _ => none

lemma Label.newborn_of_control (h : l.control = true) : l.newborn = none := by
  cases l <;> first | rfl | cases h

lemma free_setChild (hc : st.kids q = some c) (hkeep : c.reaped = true → c'.reaped = true)
    (h : st.free p = true) : (st.setChild q c').free p = true := by
  unfold St.free at h ⊢
  by_cases hpq : p = q
  · subst hpq
    rw [hc] at h
    rw [show (st.setChild p c').kids p = some c' from update_self ..]
    exact hkeep h
  · rw [show (st.setChild q c').kids p = st.kids p from update_of_ne hpq ..]
    exact h

lemma free_spawn (hpq : p ≠ q) (h : st.free p = true) : (st.spawn q).free p = true := by
  unfold St.free at h ⊢
  rw [show (st.spawn q).kids p = st.kids p from update_of_ne hpq ..]
  exact h

lemma reaped_reported (h : c.reaped = true) :
    ({ c with pending := false } : Child).reaped = true := by
  simp only [Child.reaped, Bool.and_eq_true] at h ⊢
  exact ⟨h.1, rfl⟩

/-- A reaped child does not change. -/
lemma not_reaped_of_canBecome (h : c.real.canBecome r = true) : c.reaped = false := by
  cases hreal : c.real <;> simp_all [Child.reaped, Real.ended, Real.canBecome]

lemma free_change (hc : st.kids q = some c) (hr : c.real.canBecome r = true) (h : st.free p = true)
    : (st.setChild q ⟨r, true⟩).free p = true := by
  refine free_setChild hc (fun hreaped => ?_) h
  rw [not_reaped_of_canBecome hr] at hreaped
  cases hreaped

/-- The report of an end frees the pid. -/
lemma free_reported (st : St) (hvalid : c.real.valid = true)
    (hterm : terminates c.real.status = true) :
    (st.setChild p { c with pending := false }).free p = true := by
  rw [terminates_status hvalid] at hterm
  unfold St.free
  rw [show (st.setChild p { c with pending := false }).kids p = some { c with pending := false }
    from update_self ..]
  simp [Child.reaped, hterm]

lemma free_of_exec {l : Wait.Label} (h : Wait.Move pl st l st')
    (hborn : (Label.exec l).newborn ≠ some p) (hp : st.free p = true) : st'.free p = true := by
  have hne : ∀ {q}, some q ≠ some p → p ≠ q := fun hcon heq => hcon (heq ▸ rfl)
  cases h with
  | fork | helper => exact free_spawn (hne hborn) hp
  | callReturn _ _ _ hk | wake _ _ hk | reapHelper _ _ hk | reap hk =>
    exact free_setChild hk reaped_reported hp
  | change hk hr => exact free_change hk hr hp
  | _ => exact hp

/-- Only `execute` and `snoop` fork. -/
lemma Move.of_newborn (h : Move s l s') (hborn : l.newborn = some p) :
    (∃ pl bad, s.mode = .execute pl bad) ∨ s.mode = .snoop := by
  cases h with
  | exec hmode => exact .inl ⟨_, _, hmode⟩
  | spawn hmode => exact .inr hmode
  | control hctl =>
    rw [Label.newborn_of_control hctl.label] at hborn
    cases hborn
  | _ => cases hborn

/-- No `fork` is made in an `update_state(-1, 0)`. -/
lemma Move.outside_of_newborn (h : Move s l s') (hborn : l.newborn = some p) :
    s.draining = false := by
  cases h with
  | exec hmode _ hexec =>
    cases hexec with
    | fork hpc | helper hpc => simp [State.draining, hmode, hpc]
    | _ => cases hborn
  | spawn hmode => simp [State.draining, hmode]
  | control hctl =>
    rw [Label.newborn_of_control hctl.label] at hborn
    cases hborn
  | _ => cases hborn

/-- A free pid stays free until a `fork` returns it. -/
lemma Move.free (h : Move s l s') (hborn : l.newborn ≠ some p)
    (hp : s.st.free p = true) : s'.st.free p = true := by
  cases h with
  | exec _ _ hmove => exact free_of_exec hmove hborn hp
  | spawn => exact free_spawn (fun heq => hborn (heq ▸ rfl)) hp
  | wait _ _ hk | collect _ hk | take _ _ hk | reap _ hk =>
    exact free_setChild hk reaped_reported hp
  | change hk hr => exact free_change hk hr hp
  | control hctl =>
    rw [hctl.st_eq]
    exact hp
  | _ => exact hp

section Runs

variable {ok : Label → State → Prop} {ls : List Label} {s : State}

lemma tidy_of_run (hrun : Lib.Run step ok State.start ls s) : Tidy s :=
  hrun.invariant Tidy (.inr ⟨rfl, rfl, rfl, rfl⟩)
    (fun _ _ _ _ hstep h => h.of_move (Move.of_step hstep))

lemma vacant_of_run (hrun : Lib.Run step ok State.start ls s) : Vacant s.st :=
  hrun.invariant (fun s => Vacant s.st) (fun _ _ => rfl)
    (fun _ _ _ _ hstep h => h.of_move (Move.of_step hstep))

lemma stowed_of_run (hrun : Lib.Run step ok State.start ls s) : Stowed s :=
  hrun.invariant Stowed ⟨fun _ => rfl, rfl⟩ (fun _ _ _ _ hstep h => h.of_move (Move.of_step hstep))

lemma children_of_run (hrun : Lib.Run step ok State.start ls s) : Children s.st :=
  hrun.invariant (fun s => Children s.st) (fun _ _ hk => by cases hk)
    (fun _ _ _ _ hstep h => h.of_move (Move.of_step hstep))

/-- When an end has been taken, its pid is free. -/
lemma free_of_taken {status : Int} (hrun : Lib.Run step ok State.start ls s)
    (htaken : s.taken = some (p, status)) (hterm : terminates status = true) :
    s.st.free p = true := by
  induction hrun with
  | nil => cases htaken
  | @snoc _ s s' l hrun _ hstep ih =>
    have hmove := Move.of_step hstep
    have hkeep : s.taken = some (p, status) → s'.st.free p = true := by
      intro htaken
      refine hmove.free (fun hborn => ?_) (ih htaken)
      cases (hmove.outside_of_newborn hborn).symm.trans ((stowed_of_run hrun).draining htaken)
    cases hmove with
    | take _ _ hk =>
      cases htaken
      exact free_reported s.st (children_of_run hrun _ _ hk).2.2 hterm
    | recorded => cases htaken
    | control hctl => exact hkeep (hctl.taken_eq.symm.trans htaken)
    | _ => exact hkeep htaken

end Runs

/-! ## Lines of a session -/

/-- The line `a | b &` of a fresh shell: the processes get the pids 2 and 3. -/
def pipelineLine : List Label :=
  ([.next, .read "a | b &".toList, .command true, .exec (.fork 2), .exec (.fork 3),
      .exec .addJob] : List Label) ++
    (List.replicate 16 (.exec .store) : List Label) ++
    ([.exec .release, .finish, .command true] : List Label)

/-- A `resume fg` of a job with two live processes, up to its first `waitpid`. -/
def resumeLine (line : String) : List Label :=
  ([.next, .read line.toList, .command true] : List Label) ++
    (List.replicate 7 .next : List Label) ++ ([.kill, .next, .next] : List Label)

end CshellXv6.Shell.Session
