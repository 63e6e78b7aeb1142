import CshellXv6.Shell.Attribution

/-! # Ends that stay recorded

Two loops of the shell store into entries that the handler may have changed a moment
before. `resume` looks at the state of an entry and then stores `running`, and `add_job`
stores the pid of a process first and its state and exit flag afterwards. An end that the
handler records in between is lost, for good: the kernel does not report it again.

When the handler keeps out of these two windows, and events stay with their process as
in `Attribution`, an end that has been recorded stays recorded (`Lasting.of_run`), and
the entry tells how the process ended (`truthful_of_run`).
-/

namespace CshellXv6.Shell.Session

open Wait Lib Function List Option

variable {s s' : State} {l : Label} {p status q : Int} {i k bad i0 : Nat} {j j' j'' : Job}
  {e e' e'' : Process} {c c' c0 : Child} {pl : Plan} {st : St} {f : Job → Job}

/-! ## The two windows -/

/-- The entry whose state `resume` has found to be alive and is about to store. -/
def Mode.storing : Mode → Option (Nat × Nat)
  | .resume r _ (.store k) => some (r.job, k)
  | .signal _ _ next => next.storing
  | .drain next => next.storing
  | _ => none

/-- The process whose entry is about to be overwritten. In `add_job` that is the one
whose pid has been stored, until its exit flag is. -/
def State.overwrites (s : State) : Option Int :=
  match s.mode.storing with
  | some (i, k) => (s.entry i k).map Process.pid
  | none =>
    match s.st.pc with
    | .entry c f => if f = .pid ∨ f = .printed then none else s.st.pids[c]?
    | _ => none

/-- The handler records the end of that process. -/
def State.losesEnd (s : State) : Label → Bool
  | .reap p => s.overwrites = some p && (s.st.kids p).any (fun c => c.real.ended)
  | _ => false

/-- Events stay with their process, no pid is given out a second time, and no end is
recorded in a window. -/
def reliable (l : Label) (s : State) : Prop :=
  attributable l s ∧ l.newborn.all (fun p => (s.st.kids p).isNone) = true ∧ s.losesEnd l = false

instance (l : Label) (s : State) : Decidable (reliable l s) :=
  inferInstanceAs (Decidable (_ ∧ _ ∧ _))

lemma reliable.attributable (h : reliable l s) : attributable l s := h.1

lemma reliable.fresh (h : reliable l s) (hborn : l.newborn = some p) : s.st.kids p = none := by
  have hnone := h.2.1
  rw [hborn] at hnone
  simpa using hnone

lemma reliable.window (h : reliable (.reap p) s) (hk : s.st.kids p = some c)
    (hover : s.overwrites = some p) : c.real.ended = false := by
  have hno := h.2.2
  simpa [State.losesEnd, hover, hk] using hno

/-- A change that is no end ends no process. -/
lemma alive_apply_status {r : Wait.Real} (hvalid : r.valid = true) (hlive : r.ended = false)
    (halive : e.state ≠ .terminated) : (e.apply r.status).state ≠ .terminated := by
  rw [Ne, terminates_iff_apply, terminates_status hvalid, hlive]
  rintro (hterm | ⟨hdead, -⟩)
  · cases hterm
  · exact halive hdead

/-! ## `resume` stores into a live entry -/

lemma Mode.storing_of_plain {m : Mode} (h : m.plain = true) : m.storing = none := by
  induction m with
  | drain next ih => exact ih h
  | execute | resume | signal => cases h
  | _ => rfl

lemma Mode.storing_of_behind {m : Mode} (h : m.behind = true) : m.storing = none := by
  cases m with
  | resume _ _ pt => cases pt <;> first | rfl | cases h
  | _ => exact Mode.storing_of_plain h

lemma Mode.storing_interrupt (m : Mode) : m.interrupt.storing = m.storing :=
  Mode.congr_interrupt Mode.storing (fun _ _ _ => rfl) m

lemma Resume.storing_resumed (r : Resume) (stopped : Bool) :
    (r.resumed stopped).storing = none := by
  unfold Resume.resumed
  split <;> rfl

/-- The entry that `resume` is about to store is alive. -/
def StoresAlive (s : State) : Prop :=
  ∀ i k e, s.mode.storing = some (i, k) → s.entry i k = some e → e.state ≠ .terminated

lemma StoresAlive.of_control (h : StoresAlive s) (hctl : Control s l s') : StoresAlive s' := by
  have hentry : ∀ i k, s'.entry i k = s.entry i k := by
    intro i k
    unfold State.entry
    rw [hctl.st_eq]
  intro i k e hstoring he
  rw [hentry] at he
  cases hctl with
  | plain _ _ hm =>
    rw [Mode.storing_of_plain hm] at hstoring
    cases hstoring
  | tested =>
    rw [show Mode.storing (.signal _ _ _) = _ from Resume.storing_resumed _ _] at hstoring
    cases hstoring
  | testLive hmode he' hlive =>
    cases hstoring
    cases he.symm.trans he'
    exact hlive
  | drained hmode | kill hmode => exact h i k e (by rw [hmode]; exact hstoring) he
  | alarm =>
    rw [Mode.storing_interrupt] at hstoring
    exact h i k e hstoring he
  | _ => cases hstoring

lemma StoresAlive.of_move (h : StoresAlive s) (hstowed : Stowed s) (hkids : Children s.st)
    (hok : reliable l s) (hmove : Move s l s') : StoresAlive s' := by
  cases hmove with
  | exec hmode | spawn hmode | collect hmode =>
    intro i k e hstoring
    rw [show s.mode.storing = none by rw [hmode]; rfl] at hstoring
    cases hstoring
  | fail | finish | background | store | record | wait =>
    intro i k e hstoring
    cases hstoring
  | interrupt | sigchld =>
    intro i k e hstoring
    rw [Mode.storing_interrupt] at hstoring
    exact h i k e hstoring
  | recorded htaken =>
    -- `resume` is not about to store in an `update_state(-1, 0)`
    intro i k e hstoring
    have hstoring : s.mode.storing = some (i, k) := hstoring
    rcases hstowed.place htaken with ⟨next, hmode, hbehind⟩ | ⟨⟨pl, bad, hmode⟩, -⟩
    · rw [hmode] at hstoring
      cases (Mode.storing_of_behind hbehind).symm.trans hstoring
    · rw [hmode] at hstoring
      cases hstoring
  | reap _ hk =>
    intro i k e' hstoring he'
    obtain ⟨e, he, rfl | ⟨-, rfl, rfl⟩⟩ := entry_record (s := s) rfl he'
    · exact h i k e' hstoring he
    have hover : s.overwrites = some e.pid := by
      unfold State.overwrites
      rw [show s.mode.storing = some (i, k) from hstoring]
      exact congrArg (Option.map Process.pid) he
    exact alive_apply_status (hkids e.pid _ hk).2.2 (hok.window hk hover) (h i k e hstoring he)
  | control hctl => exact h.of_control hctl
  | take | change | handlerDone => exact h

/-! ## `add_job` stores into a live entry -/

/-- The exit flag of entry `k` is still to be stored. -/
def unstored : Pc → Nat → Bool
  | .header _, _ => true
  | .entry c f, k => c < k || (c = k && f ≠ .printed)
  | _, _ => false

lemma unstored_of_entryNext {c : Nat} {f : EntryField}
    (h : unstored (entryNext pl c f) k = true) : unstored (.entry c f) k = true := by
  cases f with
  | printed =>
    simp only [entryNext] at h
    split_ifs at h
    · simp only [unstored, Bool.or_eq_true, Bool.and_eq_true, decide_eq_true_eq] at h ⊢
      omega
    all_goals cases h
  | exit =>
    simp only [entryNext, unstored, Bool.or_eq_true, Bool.and_eq_true, decide_eq_true_eq] at h ⊢
    exact .inl (h.resolve_right fun hcon => hcon.2 rfl)
  | _ => simpa [entryNext, unstored] using h

/-- Entries without their exit flag are alive. -/
def Unended (s : State) : Prop :=
  ∀ j k e, s.st.job = some j → unstored s.st.pc k = true → j.prs[k]? = some e →
    e.state ≠ .terminated

lemma Unended.of_registered (h : ∀ k, unstored s.st.pc k = false) : Unended s := by
  intro j k e _ hpc
  rw [h k] at hpc
  cases hpc

lemma Unended.of_exec {l : Wait.Label} (h : Unended s) (hok : s.permits bad l = true)
    (hmove : Wait.Move pl s.st l st) : Unended { s with st := st } := by
  cases hmove with
  | addJob =>
    intro j k e hj _ he
    cases hj
    cases he
  | @storeField f hpc =>
    intro j' k e hj' _ he
    obtain ⟨j, hj, rfl⟩ := map_eq_some_iff.mp hj'
    have hbefore : ∀ (k : Nat) (e : Process), j.prs[k]? = some e → e.state ≠ .terminated := by
      intro k e he
      exact h j k e hj (by rw [hpc]; rfl) he
    cases f with
    | num =>
      rw [eq_of_mem_replicate (mem_of_getElem? he)]
      decide
    | _ => exact hbefore k e he
  | storeEntry hpc =>
    intro j' k e' hj' hk he'
    obtain ⟨j, hj, rfl⟩ := map_eq_some_iff.mp hj'
    rw [Wait.Job.getElem?_storeEntry] at he'
    obtain ⟨e, he, rfl⟩ := map_eq_some_iff.mp he'
    have halive := h j k e hj (by rw [hpc]; exact unstored_of_entryNext hk) he
    split
    · exact Wait.Process.alive_storeField halive
    · exact halive
  | helper hpc | reapHelper hpc =>
    refine Unended.of_registered fun k => ?_
    show unstored s.st.pc k = false
    rw [hpc]
    rfl
  | next =>
    refine Unended.of_registered fun k => ?_
    simp only
    split_ifs <;> rfl
  | change | interrupt | sigchld | reap | handlerDone => cases hok
  | _ => exact Unended.of_registered fun k => rfl

/-- The entries that an event can reach have their pid. -/
lemma overwrites_of_unstored (hmode : s.mode = .execute pl bad)
    (hstored : Stored pl s.st.pc s.st.pids j) (hk : unstored s.st.pc k = true)
    (he : j.prs[k]? = some e) (hpid : e.pid ≠ 0) : s.overwrites = some e.pid := by
  have hnamed : named s.st.pc k = true := by
    by_contra hno
    exact hpid ((hstored.pid k e he).2 (Bool.eq_false_iff.mpr hno))
  have hpids := (hstored.pid k e he).1 hnamed
  have hplace : ∃ f, s.st.pc = .entry k f ∧ f ≠ .pid ∧ f ≠ .printed := by
    cases hpc : s.st.pc with
    | entry c f =>
      rw [hpc] at hk hnamed
      simp only [unstored, named, Bool.or_eq_true, Bool.and_eq_true, decide_eq_true_eq] at hk hnamed
      obtain rfl : c = k := by omega
      refine ⟨f, rfl, ?_, ?_⟩
      · exact (hnamed.resolve_left (by omega)).2
      · exact (hk.resolve_left (by omega)).2
    | header f =>
      rw [hpc] at hnamed
      cases hnamed
    | _ =>
      rw [hpc] at hk
      cases hk
  obtain ⟨f, hpc, hf, hf'⟩ := hplace
  unfold State.overwrites
  rw [show s.mode.storing = none by rw [hmode]; rfl, hpc]
  simpa [hf, hf'] using hpids

lemma Unended.of_move (h : Unended s) (hstowed : Stowed s) (htidy : Tidy s) (hkids : Children s.st)
    (hfill : Filled s) (hok : reliable l s) (hmove : Move s l s') : Unended s' := by
  cases hmove with
  | exec _ hpermits hexec => exact h.of_exec hpermits hexec
  | fail | finish => exact fun j k e hj => by cases hj
  | record hmode =>
    intro j k e hj
    have hnone := (htidy.calm (by rw [hmode]; rfl)).1
    simp [State.goto, St.record, hnone] at hj
  | interrupt => exact Unended.of_registered fun k => rfl
  | recorded htaken =>
    -- nor is `add_job`
    intro j k e hj hpc
    have hpc : unstored s.st.pc k = true := hpc
    rcases hstowed.place htaken with ⟨next, hmode, -⟩ | ⟨-, hdrain⟩
    · rcases htidy with ⟨pl, bad, hexec⟩ | ⟨-, hnone, -⟩
      · cases hmode.symm.trans hexec
      · simp [St.record, hnone] at hj
    · rw [hdrain] at hpc
      cases hpc
  | @reap p c _ hk =>
    intro j' k e' hj' hpc he'
    change unstored s.st.pc k = true at hpc
    obtain ⟨j, hj, rfl⟩ := map_eq_some_iff.mp hj'
    obtain ⟨e, he, rfl | ⟨-, rfl, rfl⟩⟩ := Wait.Job.getElem?_record he'
    · exact h j k e' hj hpc he
    obtain ⟨hpos, -, hvalid⟩ := hkids e.pid c hk
    have hover : s.overwrites = some e.pid := by
      rcases htidy with ⟨pl, bad, hmode⟩ | ⟨-, hnone, -⟩
      · have hforked : ∀ n, s.st.pc ≠ .fork n := by
          intro n hfork
          rw [hfork] at hpc
          cases hpc
        obtain ⟨-, j0, hj0, hstored⟩ := (hfill pl bad hmode).forked hforked
        cases hj.symm.trans hj0
        exact overwrites_of_unstored hmode hstored hpc he (by omega)
      · cases hj.symm.trans hnone
    exact alive_apply_status hvalid (hok.window hk hover) (h j k e hj hpc he)
  | control hctl =>
    unfold Unended
    rw [hctl.st_eq]
    exact h
  | _ => exact h

section Windows

variable {ls : List Label}

lemma storesAlive_of_run (hrun : Run step reliable State.start ls s) : StoresAlive s := by
  induction hrun with
  | nil => exact fun i k e hstoring => by cases hstoring
  | snoc hrun hok hstep ih =>
    exact ih.of_move (stowed_of_run hrun) (children_of_run hrun) hok (Move.of_step hstep)

lemma unended_of_run (hrun : Run step reliable State.start ls s) : Unended s := by
  induction hrun with
  | nil => exact fun j k e hj => by cases hj
  | snoc hrun hok hstep ih =>
    exact ih.of_move (stowed_of_run hrun) (tidy_of_run hrun) (children_of_run hrun)
      (fun _ _ => filling_of_run hrun) hok (Move.of_step hstep)

end Windows

/-! ## A recorded end stays -/

/-- Entry `k` of job `i` is terminated. -/
structure Ended (s : State) (i k : Nat) (j : Job) (e : Process) : Prop where
  job : s.jobs[i]? = some j
  entry : j.prs[k]? = some e
  dead : e.state = .terminated

lemma Ended.slot (h : Ended s i k j e) : s.slot i k = some e :=
  slot_eq_some.mpr ⟨j, h.job, h.entry⟩

/-- What `print_prs` prints of an entry is the same later on, and so is whether it may. -/
structure SameEnd (j j' : Job) (e e' : Process) : Prop where
  bg : j.bg = true → j'.bg = true
  pid : e'.pid = e.pid
  name : e'.name = e.name
  state : e'.state = e.state
  exit : e'.exit = e.exit

lemma SameEnd.refl (j : Job) (e : Process) : SameEnd j j e e := ⟨id, rfl, rfl, rfl, rfl⟩

lemma SameEnd.trans (h : SameEnd j j' e e') (h' : SameEnd j' j'' e' e'') : SameEnd j j'' e e'' :=
  ⟨h'.bg ∘ h.bg, h'.pid.trans h.pid, h'.name.trans h.name, h'.state.trans h.state,
    h'.exit.trans h.exit⟩

/-- The same entry is terminated in `s'`. -/
def Lasting (s' : State) (i k : Nat) (j : Job) (e : Process) : Prop :=
  ∃ j' e', Ended s' i k j' e' ∧ SameEnd j j' e e'

lemma Ended.of_same (h : Ended s i k j e) (hjobs : s'.jobs = s.jobs) : Lasting s' i k j e :=
  ⟨j, e, ⟨hjobs ▸ h.job, h.entry, h.dead⟩, SameEnd.refl j e⟩

/-- A store into one job. -/
lemma Ended.of_modify (h : Ended s i k j e) (hjobs : s'.jobs = s.jobs.modify i0 f)
    (hf : i0 = i → ∃ e', (f j).prs[k]? = some e' ∧ SameEnd j (f j) e e') : Lasting s' i k j e := by
  have hget : s'.jobs[i]? = some (if i0 = i then f j else j) := by
    rw [hjobs, List.getElem?_modify, h.job]
    split <;> rfl
  by_cases hi : i0 = i
  · obtain ⟨e', he', hsame⟩ := hf hi
    rw [if_pos hi] at hget
    exact ⟨f j, e', ⟨hget, he', hsame.state.trans h.dead⟩, hsame⟩
  · rw [if_neg hi] at hget
    exact ⟨j, e, ⟨hget, h.entry, h.dead⟩, SameEnd.refl j e⟩

lemma Job.bg_record (p status : Int) (j : Job) : (j.record p status).bg = j.bg := by
  unfold Job.record
  split
  · rfl
  · dsimp only
    split <;> rfl

/-- A store into a job of the finished part. -/
lemma Ended.of_old (h : Ended s i k j e) (hnone : s.st.job = none)
    (hold : s'.st.old = s.st.old.modify i0 f) (hjob : s'.st.job = s.st.job)
    (hf : i0 = i → ∃ e', (f j).prs[k]? = some e' ∧ SameEnd j (f j) e e') : Lasting s' i k j e := by
  refine h.of_modify ?_ hf
  rw [State.jobs, State.jobs, hold, hjob, hnone]
  simp

/-- A store into the entry under construction. -/
lemma Ended.of_new (h : Ended s i k j e) (hold : s'.st.old = s.st.old)
    (hjob : s'.st.job = s.st.job.map f)
    (hf : s.st.job = some j → ∃ e', (f j).prs[k]? = some e' ∧ SameEnd j (f j) e e') :
    Lasting s' i k j e := by
  cases hj0 : s.st.job with
  | none =>
    refine h.of_same ?_
    rw [State.jobs, State.jobs, hold, hjob, hj0]
    rfl
  | some j0 =>
    have hjobs : s.jobs = s.st.old ++ [j0] := by rw [State.jobs, hj0]; rfl
    have hjobs' : s'.jobs = s.jobs.modify s.st.old.length f := by
      rw [hjobs, modify_length_append, State.jobs, hold, hjob, hj0]
      rfl
    refine h.of_modify hjobs' ?_
    rintro rfl
    have hj := h.job
    rw [hjobs, List.getElem?_concat_length] at hj
    exact hf (hj0.trans hj)

/-- The stores of `add_job`. -/
lemma Ended.of_exec {l : Wait.Label} (h : Ended s i k j e) (hvac : Vacant s.st)
    (hunended : Unended s) (hevent : s.event (.exec l) = none) (hok : s.permits bad l = true)
    (hmove : Wait.Move pl s.st l st) : Lasting { s with st := st } i k j e := by
  cases hmove with
  | addJob hpc =>
    have hjobs : s.jobs = s.st.old := by
      rw [State.jobs, hvac _ hpc]
      exact append_nil _
    refine ⟨j, e, ⟨?_, h.entry, h.dead⟩, SameEnd.refl j e⟩
    show (s.st.old ++ [zeroJob])[i]? = some j
    rw [← hjobs]
    exact getElem?_append_of_some h.job _
  | storeField hpc =>
    refine h.of_new rfl rfl fun hj => ?_
    exact absurd h.dead (hunended j k e hj (by rw [hpc]; rfl) h.entry)
  | @storeEntry c f hpc =>
    refine h.of_new rfl rfl fun hj => ?_
    rw [Wait.Job.getElem?_storeEntry, h.entry]
    refine ⟨_, rfl, ?_⟩
    dsimp only
    by_cases hck : c = k
    · cases f with
      | printed =>
        rw [if_pos hck]
        exact ⟨id, rfl, rfl, rfl, rfl⟩
      | _ =>
        refine absurd h.dead (hunended j k e hj ?_ h.entry)
        simp [hpc, unstored, hck]
    · rw [if_neg hck]
      exact ⟨id, rfl, rfl, rfl, rfl⟩
  | update hpc hc => simp [State.event, hpc, hc] at hevent
  | reap => cases hok
  | _ => exact h.of_same rfl

/-- A step without an event. -/
lemma Ended.of_move (h : Ended s i k j e) (htidy : Tidy s) (hvac : Vacant s.st)
    (hstores : StoresAlive s) (hunended : Unended s) (hevent : s.event l = none)
    (hmove : Move s l s') : Lasting s' i k j e := by
  cases hmove with
  | exec _ hok hexec =>
    obtain ⟨j', e', hended, hsame⟩ := h.of_exec hvac hunended hevent hok hexec
    exact ⟨j', e', ⟨hended.job, hended.entry, hended.dead⟩, hsame⟩
  | fail | finish => exact h.of_same (append_nil _)
  | background hmode =>
    refine h.of_old (htidy.calm (by rw [hmode]; rfl)).1 rfl rfl fun _ => ?_
    exact ⟨e, h.entry, fun _ => rfl, rfl, rfl, rfl, rfl⟩
  | @store r stopped k0 hmode =>
    have hnone := (htidy.calm (by rw [hmode]; rfl)).1
    refine h.of_old hnone rfl rfl ?_
    rintro rfl
    refine ⟨e, ?_, id, rfl, rfl, rfl, rfl⟩
    -- the entry stored is another one
    have hentry : s.entry r.job k = some e := by
      have hjob := h.job
      rw [State.jobs, hnone, toList_none, append_nil] at hjob
      exact bind_eq_some_iff.mpr ⟨j, hjob, h.entry⟩
    have hne : k0 ≠ k := by
      rintro rfl
      exact hstores r.job k0 e (by rw [hmode]; rfl) hentry h.dead
    show (j.prs.modify k0 _)[k]? = some e
    rw [List.getElem?_modify, h.entry]
    simp [hne]
  | record hmode => simp [State.event, hmode] at hevent
  | recorded htaken => cases htaken.symm.trans hevent
  | reap _ hk => simp [State.event, hk] at hevent
  | control hctl => exact h.of_same (by rw [State.jobs, hctl.st_eq, State.jobs])
  | _ => exact h.of_same rfl

section Runs

variable {ls ls1 ls2 : List Label} {s1 : State}

/-- One step, with or without an event. -/
lemma Ended.of_step (hrun : Run step reliable State.start ls s) (hok : reliable l s)
    (hstep : step l s = some s') (h : Ended s i k j e) : Lasting s' i k j e := by
  cases hevent : s.event l with
  | none =>
    exact h.of_move (tidy_of_run hrun) (vacant_of_run hrun) (storesAlive_of_run hrun)
      (unended_of_run hrun) hevent (Move.of_step hstep)
  | some event =>
    obtain ⟨p, status⟩ := event
    have hrun' := hrun.mono fun _ _ => reliable.attributable
    obtain ⟨e0, he0, he'⟩ := (settled_of_run hrun' h.slot h.dead).slot_eq hrun' hok.attributable
      hstep hevent
    cases h.slot.symm.trans he0
    have hjob' : s'.jobs[i]? = some (j.record p status) := by
      rw [(Event.of_step hevent hstep).jobs_eq, Shell.record, List.getElem?_map, h.job]
      rfl
    obtain ⟨j', hj', hentry'⟩ := slot_eq_some.mp he'
    cases hjob'.symm.trans hj'
    refine ⟨_, e, ⟨hjob', hentry', h.dead⟩, fun hbg => ?_, rfl, rfl, rfl, rfl⟩
    rw [Job.bg_record]
    exact hbg

/-- An end that has been recorded stays recorded. -/
lemma Lasting.of_run (h1 : Run step reliable State.start ls1 s1)
    (h2 : Run step reliable s1 ls2 s) (h : Ended s1 i k j e) : Lasting s i k j e := by
  induction h2 with
  | nil => exact ⟨j, e, h, SameEnd.refl j e⟩
  | snoc h2 hok hstep ih =>
    obtain ⟨j', e', hended, hsame⟩ := ih
    obtain ⟨j'', e'', hended', hsame'⟩ := hended.of_step (h1.append h2) hok hstep
    exact ⟨j'', e'', hended', hsame.trans hsame'⟩

end Runs

/-! ## The entry tells how the process ended -/

lemma kids_setChild (hq : st.kids q = some c0) (hreal : c0.real.ended = true → c'.real = c0.real)
    (hk : st.kids p = some c) (hended : c.real.ended = true) :
    ∃ c1, (st.setChild q c').kids p = some c1 ∧ c1.real = c.real := by
  by_cases hpq : p = q
  · subst hpq
    cases hk.symm.trans hq
    exact ⟨c', update_self .., hreal hended⟩
  · exact ⟨c, (update_of_ne hpq ..).trans hk, rfl⟩

lemma kids_spawn (hq : st.kids q = none) (hk : st.kids p = some c) :
    (st.spawn q).kids p = some c := by
  have hpq : p ≠ q := by
    rintro rfl
    cases hk.symm.trans hq
  exact (update_of_ne hpq ..).trans hk

lemma not_ended_of_canBecome {r r' : Wait.Real} (h : r.canBecome r' = true) : r.ended = false := by
  cases r <;> simp_all [Real.canBecome, Real.ended]

/-- A child that has ended stays as it is. -/
lemma kids_of_move (hfresh : ∀ q, l.newborn = some q → s.st.kids q = none)
    (hk : s.st.kids p = some c) (hended : c.real.ended = true) (hmove : Move s l s') :
    ∃ c', s'.st.kids p = some c' ∧ c'.real = c.real := by
  have hchange : ∀ {c0 : Child} {r : Wait.Real}, c0.real.canBecome r = true →
      c0.real.ended = true → r = c0.real := by
    intro c0 r hr hdead
    rw [not_ended_of_canBecome hr] at hdead
    cases hdead
  cases hmove with
  | exec _ _ hexec =>
    cases hexec with
    | fork | helper => exact ⟨c, kids_spawn (hfresh _ rfl) hk, rfl⟩
    | callReturn _ _ _ hq | wake _ _ hq | reapHelper _ _ hq | reap hq =>
      exact kids_setChild hq (fun _ => rfl) hk hended
    | change hq hr => exact kids_setChild hq (hchange hr) hk hended
    | _ => exact ⟨c, hk, rfl⟩
  | spawn => exact ⟨c, kids_spawn (hfresh _ rfl) hk, rfl⟩
  | wait _ _ hq | collect _ hq | take _ _ hq | reap _ hq =>
    exact kids_setChild hq (fun _ => rfl) hk hended
  | change hq hr => exact kids_setChild hq (hchange hr) hk hended
  | control hctl =>
    rw [hctl.st_eq]
    exact ⟨c, hk, rfl⟩
  | _ => exact ⟨c, hk, rfl⟩

/-- The child has ended with that status. -/
def EndedWith (s : State) (p status : Int) : Prop :=
  ∃ c, s.st.kids p = some c ∧ c.real.ended = true ∧ c.real.valid = true ∧ status = c.real.status

lemma EndedWith.of_move (h : EndedWith s p status) (hok : reliable l s) (hmove : Move s l s') :
    EndedWith s' p status := by
  obtain ⟨c, hk, hended, hvalid, hstatus⟩ := h
  obtain ⟨c', hk', hreal⟩ := kids_of_move (fun _ => hok.fresh) hk hended hmove
  exact ⟨c', hk', by rw [hreal]; exact hended, by rw [hreal]; exact hvalid, by rw [hreal, hstatus]⟩

/-- An end that is in flight is that of the child. -/
def FlightTrue (s : State) : Prop :=
  ∀ p status, s.flight = some (p, status) → terminates status = true → EndedWith s p status

lemma FlightTrue.of_move (h : FlightTrue s) (hstowed : Stowed s) (htidy : Tidy s)
    (hkids : Children s.st) (hok : reliable l s) (hmove : Move s l s') : FlightTrue s' := by
  intro p status hf' hterm
  rcases flight_of_move hstowed htidy hmove hf' with hf | ⟨c, hk, -, rfl, hst'⟩
  · exact (h p status hf hterm).of_move hok hmove
  have hvalid := (hkids p c hk).2.2
  rw [terminates_status hvalid] at hterm
  refine ⟨{ c with pending := false }, ?_, hterm, hvalid, rfl⟩
  rw [hst']
  exact update_self ..

section Truth

variable {ls : List Label} {r : Wait.Real}

lemma flightTrue_of_run (hrun : Run step reliable State.start ls s) : FlightTrue s := by
  induction hrun with
  | nil => exact fun p status hf => by cases hf
  | snoc hrun hok hstep ih =>
    exact ih.of_move (stowed_of_run hrun) (tidy_of_run hrun) (children_of_run hrun) hok
      (Move.of_step hstep)

/-- The end that an event reports has happened. -/
lemma endedWith_of_event (hrun : Run step reliable State.start ls s) (hok : reliable l s)
    (h : Event s l p status s') (hterm : terminates status = true) : EndedWith s p status := by
  cases h with
  | reap hl hk hpend hstatus hs' =>
    have hvalid := (children_of_run hrun p _ hk).2.2
    rw [hstatus, terminates_status hvalid] at hterm
    exact ⟨_, hk, hterm, hvalid, hstatus⟩
  | drained _ htaken => exact flightTrue_of_run hrun p status (flight_of_taken htaken) hterm
  | update hl hmode hpc hc =>
    refine flightTrue_of_run hrun p status ?_ hterm
    exact flight_of_update (stowed_of_run hrun) (hl ▸ hok.attributable) hmode hpc hc
  | record _ hmode =>
    refine flightTrue_of_run hrun p status ?_ hterm
    exact flight_of_record (stowed_of_run hrun) (tidy_of_run hrun) hmode

/-- The entry says how its process ended. -/
def Truthful (s : State) (e : Process) : Prop :=
  ∃ c, s.st.kids e.pid = some c ∧ c.real.ended = true ∧ agrees e c.real = true

lemma agrees_of_sameEnd (h : SameEnd j j' e e')
    (hagrees : agrees e r = true) : agrees e' r = true := by
  cases r <;> simpa [agrees, h.state, h.exit] using hagrees

/-- A recorded end has happened, the way it was recorded. -/
lemma truthful_of_run (hrun : Run step reliable State.start ls s) (h : Ended s i k j e) :
    Truthful s e := by
  induction hrun generalizing i k j e with
  | nil => cases h.job
  | @snoc ls s s' l hrun hok hstep ih =>
    have hmove := Move.of_step hstep
    obtain ⟨j0, e0, hj0, he0, hcause⟩ := (changes_of_run hrun hstep).ended h.job h.entry h.dead
    by_cases hdead0 : e0.state = .terminated
    · -- it was recorded before
      have hended : Ended s i k j0 e0 := ⟨hj0, he0, hdead0⟩
      obtain ⟨c, hk, hreal, hagrees⟩ := ih hended
      obtain ⟨j', e', hended', hsame⟩ := hended.of_step hrun hok hstep
      cases h.slot.symm.trans hended'.slot
      obtain ⟨c', hk', hreal'⟩ := kids_of_move (fun _ => hok.fresh) hk hreal hmove
      refine ⟨c', ?_, by rw [hreal']; exact hreal, ?_⟩
      · rw [hsame.pid]
        exact hk'
      · rw [hreal']
        exact agrees_of_sameEnd hsame hagrees
    -- this step records it
    obtain ⟨-, status, hevent, hterm⟩ := hcause.resolve_left hdead0
    have hev := Event.of_step hevent hstep
    obtain ⟨c, hk, hreal, hvalid, rfl⟩ :=
      (endedWith_of_event hrun hok hev hterm).of_move hok hmove
    obtain ⟨j1, e1, hj1, he1, hcase⟩ := slot_record hev.jobs_eq h.slot
    cases hj0.symm.trans hj1
    cases he0.symm.trans he1
    rcases hcase with rfl | ⟨-, -, rfl⟩
    · exact absurd h.dead hdead0
    refine ⟨c, ?_, hreal, agrees_apply_status e0 hvalid⟩
    rw [Wait.Process.pid_apply]
    exact hk

end Truth

end CshellXv6.Shell.Session
