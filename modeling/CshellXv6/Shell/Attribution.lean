import CshellXv6.Shell.Capacity
import CshellXv6.Shell.Events

/-! # Which process a wait event belongs to

`update_state` looks for the pid of an event in every active job, whatever the
state of the entry. A process that has ended keeps its entry as long as its
job is active, but its pid is free again: the next child may get it, and the
events of that child then hit the old entry as well:
`reused_pid_revives_entry`. (`ping` looks for a pid among the entries that are
not terminated.)

When no child gets a pid that an active job still carries, when a status is
recorded only if `waitpid` wrote it, and when no end overtakes an event that
has been returned and not recorded yet, a terminated entry stays as it is and
every event changes the entry of its own process only:
`events_stay_with_their_process`.
-/

namespace CshellXv6.Shell.Session

open Wait Lib List Option

variable {s s' : State} {l : Label} {p status q : Int} {ls : List Label} {e e' : Process}
  {st' st : St} {ok : Label → State → Prop} {c k n : Nat} {res : Option Int} {pt : Point}
  {r : Resume} {j j' : Job}

/-! ## Events in flight -/

/-- The event that `resume` has got from `waitpid` and not recorded yet. -/
def Mode.flight : Mode → Option (Int × Int)
  | .resume _ _ (.record _ q status) => some (q, status)
  | .signal _ _ next => next.flight
  | .drain next => next.flight
  | _ => none

/-- The same, for the wait loop of `execute` too. -/
def State.held (s : State) : Option (Int × Int) :=
  match s.st.pc with
  | .update c status (some _) => (s.st.pids[c]?).map (fun p => (p, status))
  | _ => s.mode.flight

/-- The same, for an `update_state(-1, 0)` of the shell too. -/
def State.flight (s : State) : Option (Int × Int) := s.taken.or s.held

/-- An entry of an active job, or the pipeline that is being started, has the
pid `p`. -/
def State.carries (s : State) (p : Int) : Bool :=
  s.jobs.any (fun j => j.active && j.prs.any (fun e => e.pid = p)) || s.st.pids.contains p

/-- `waitpid` wrote the status that is about to be recorded. -/
def written : Pc → Bool
  | .update _ _ none => false
  | _ => true

/-- No child gets a pid that the table carries, `execute` records no status
that `waitpid` did not write, and the handler reaps no end of a process while another
event of it is in flight. -/
def attributable (l : Label) (s : State) : Prop :=
  l.newborn.all (fun p => !s.carries p) = true ∧
    match l with
    | .exec .update => written s.st.pc = true
    | .reap p =>
      (s.flight.any (fun event => event.1 = p) && (s.st.kids p).any (fun k => k.real.ended)) = false
    | _ => True

instance (l : Label) (s : State) : Decidable (attributable l s) := by
  unfold attributable
  refine @instDecidableAnd _ _ inferInstance ?_
  apply @Label.casesOn _ l
  case exec =>
    intro l
    apply @Wait.Label.casesOn _ l <;> intros <;> infer_instance
  all_goals intros; infer_instance

lemma not_newborn_of_carries (hok : attributable l s) (hcar : s.carries p = true) :
    l.newborn ≠ some p := by
  intro hborn
  have hfresh := hok.1
  rw [hborn, all_some, hcar] at hfresh
  cases hfresh

lemma carries_of_entry {i k : Nat} (hj : s.jobs[i]? = some j)
    (he : j.prs[k]? = some e) (hactive : j.active = true) : s.carries e.pid = true := by
  refine Bool.or_eq_true_iff.mpr (.inl (List.any_eq_true.mpr ⟨j, mem_of_getElem? hj, ?_⟩))
  rw [hactive, Bool.true_and]
  exact List.any_eq_true.mpr ⟨e, mem_of_getElem? he, decide_eq_true rfl⟩

lemma flight_of_none (h : s.taken = none) : s.flight = s.held := by
  rw [State.flight, h, none_or]

/-- Outside the recording point of `execute` only `resume` has an event. -/
lemma held_eq_mode (hpc : ∀ c status res, s.st.pc ≠ .update c status (some res)) :
    s.held = s.mode.flight := by
  unfold State.held
  split
  next c status res hcon => exact absurd hcon (hpc c status res)
  · rfl

lemma Tidy.held (h : Tidy s) (hcalm : s.mode.calm = true) : s.held = s.mode.flight := by
  refine held_eq_mode ?_
  rw [(h.calm hcalm).2.2]
  simp

/-- A step that moves neither `execute` nor an event. -/
lemma held_congr (hpc : s'.st.pc = s.st.pc) (hpids : s'.st.pids = s.st.pids)
    (hmode : s'.mode.flight = s.mode.flight) : s'.held = s.held := by
  unfold State.held
  rw [hpc, hpids, hmode]

lemma Mode.flight_of_plain {m : Mode} (h : m.plain = true) : m.flight = none := by
  induction m with
  | drain next ih => exact ih h
  | execute | resume | signal => cases h
  | _ => rfl

lemma Mode.flight_of_behind {m : Mode} (h : m.behind = true) : m.flight = none := by
  cases m with
  | resume _ _ pt => cases pt <;> first | rfl | cases h
  | _ => exact Mode.flight_of_plain h

/-- The shell has one event in flight at most. -/
lemma held_of_taken {event : Int × Int} (hstowed : Stowed s) (htidy : Tidy s)
    (htaken : s.taken = some event) : s.held = none := by
  rcases hstowed.place htaken with ⟨next, hmode, hbehind⟩ | ⟨⟨pl, bad, hmode⟩, hpc⟩
  · have hpc : s.st.pc = .fork 0 := by
      rcases htidy with ⟨pl, bad, hexec⟩ | ⟨-, -, -, hfork⟩
      · cases hmode.symm.trans hexec
      · exact hfork
    rw [held_eq_mode (by simp [hpc]), hmode]
    show next.flight = none
    exact Mode.flight_of_behind hbehind
  · rw [held_eq_mode (by simp [hpc]), hmode]
    rfl

lemma flight_ne_some (htaken : s.taken = none) (hheld : s.held = none) (event : Int × Int) :
    s.flight ≠ some event := by
  rw [flight_of_none htaken, hheld]
  exact nofun

lemma flight_of_taken {event : Int × Int} (htaken : s.taken = some event) :
    s.flight = some event := by
  rw [State.flight, htaken]
  rfl

lemma Mode.flight_interrupt (m : Mode) : m.interrupt.flight = m.flight :=
  Mode.congr_interrupt Mode.flight (fun _ _ _ => rfl) m

lemma Resume.flight_resumed (r : Resume) (stopped : Bool) : (r.resumed stopped).flight = none := by
  unfold Resume.resumed
  split <;> rfl

/-- Control steps take no event from the kernel. -/
lemma Control.flight (h : Control s l s') {event : Int × Int}
    (hf' : s'.mode.flight = some event) : s.mode.flight = some event := by
  cases h with
  | plain _ _ hm =>
    rw [Mode.flight_of_plain hm] at hf'
    cases hf'
  | tested =>
    rw [show Mode.flight (.signal _ _ _) = _ from Resume.flight_resumed _ _] at hf'
    cases hf'
  | drained hmode | kill hmode =>
    rw [hmode]
    exact hf'
  | alarm =>
    rw [Mode.flight_interrupt] at hf'
    exact hf'
  | _ => cases hf'

lemma not_free_of_pending {c : Child} (hk : st.kids p = some c)
    (hpend : c.pending = true) : st.free p = false := by
  simp [St.free, hk, Child.reaped, hpend]

/-- An event that has just been taken from the kernel. -/
def Taken (st st' : St) (p status : Int) : Prop :=
  st.free p = false ∧ 1 < p ∧ (terminates status = true → st'.free p = true)

/-- A `waitpid` has just returned the change of child `p`. -/
structure Returned (st st' : St) (p status : Int) (c : Child) : Prop where
  kid : st.kids p = some c
  pending : c.pending = true
  status : status = c.real.status
  kids : st'.kids = (st.setChild p { c with pending := false }).kids

lemma Returned.taken {c : Child} (h : Returned st st' p status c)
    (hkids : Children st) : Taken st st' p status := by
  obtain ⟨hk, hpend, rfl, hst'⟩ := h
  obtain ⟨hpos, -, hvalid⟩ := hkids p c hk
  refine ⟨not_free_of_pending hk hpend, hpos, fun hterm => ?_⟩
  unfold St.free
  rw [hst']
  exact free_reported st hvalid hterm

/-- `execute` takes an event when its `waitpid` returns. -/
lemma held_of_exec {pl : Plan} {bad : Nat} {l : Wait.Label}
    (hmode : s.mode = .execute pl bad) (hok : s.permits bad l = true) (h : Wait.Move pl s.st l st)
    (hf' : { s with st := st }.held = some (p, status)) : ∃ c, Returned s.st st p status c := by
  have hrest : ¬ ∀ c status res, st.pc ≠ .update c status (some res) := by
    intro hpc
    rw [held_eq_mode hpc, hmode] at hf'
    cases hf'
  cases h with
  | callReturn hpc hc _ hk hw | wake hpc hc hk hw =>
    have hpair := (congrArg (Option.map _) hc).symm.trans hf'
    cases hpair
    exact ⟨_, hk, (Bool.and_eq_true_iff.mp hw).1, rfl, rfl⟩
  | @storeField f =>
    refine absurd ?_ hrest
    cases f <;> simp [headerNext]
  | @storeEntry i f =>
    refine absurd (fun c status res => ?_) hrest
    cases f with
    | printed =>
      simp only [entryNext]
      split_ifs <;> simp
    | _ => simp [entryNext]
  | next =>
    refine absurd (fun c status res => ?_) hrest
    simp only
    split_ifs <;> simp
  | helper hpc | reapHelper hpc =>
    refine absurd (fun c status res => ?_) hrest
    show s.st.pc ≠ _
    rw [hpc]
    simp
  | change | interrupt | sigchld | reap | handlerDone => cases hok
  | _ => exact absurd (by simp) hrest

/-- An event of a wait loop was there before, or has just been taken. -/
lemma held_of_move (htidy : Tidy s) (h : Move s l s') (hf' : s'.held = some (p, status)) :
    s.held = some (p, status) ∨ ∃ c, Returned s.st s'.st p status c := by
  -- outside `execute`, the place is the mode
  have hcalm : s.mode.calm = true → s'.st.pc = s.st.pc → s'.held = s'.mode.flight := by
    intro hcalm hpc
    refine held_eq_mode ?_
    rw [hpc, (htidy.calm hcalm).2.2]
    simp
  cases h with
  | exec hmode hok hexec => exact .inr (held_of_exec hmode hok hexec hf')
  | fail | finish => cases hf'
  | background hmode | store hmode | record hmode =>
    rw [hcalm (by rw [hmode]; rfl) rfl] at hf'
    cases hf'
  | wait hmode _ hk _ hw =>
    have hm : s.mode.calm = true := by rcases hmode with hmode | hmode <;> rw [hmode] <;> rfl
    rw [hcalm hm rfl] at hf'
    cases hf'
    exact .inr ⟨_, hk, (Bool.and_eq_true_iff.mp hw).1, rfl, rfl⟩
  | interrupt hpc =>
    rw [held_eq_mode (by simp), Mode.flight_interrupt] at hf'
    rw [held_eq_mode (by simp [hpc])]
    exact .inl hf'
  | sigchld =>
    refine .inl (Eq.trans (Eq.symm ?_) hf')
    exact held_congr rfl rfl (Mode.flight_interrupt _)
  | control hctl =>
    refine .inl ?_
    unfold State.held at hf' ⊢
    rw [hctl.st_eq] at hf'
    split at hf'
    · exact hf'
    · exact hctl.flight hf'
  | _ => exact .inl hf'

/-- What an `update_state(-1, 0)` has got was there before, or has just been taken. -/
lemma taken_of_move (h : Move s l s') (ht' : s'.taken = some (p, status)) :
    s.taken = some (p, status) ∨ ∃ c, Returned s.st s'.st p status c := by
  cases h with
  | take _ _ hk hpend =>
    cases ht'
    exact .inr ⟨_, hk, hpend, rfl, rfl⟩
  | recorded => cases ht'
  | control hctl => exact .inl (hctl.taken_eq.symm.trans ht')
  | _ => exact .inl ht'

/-- An event in flight was so before, or has just been taken. -/
lemma flight_of_move (hstowed : Stowed s) (htidy : Tidy s) (h : Move s l s')
    (hf' : s'.flight = some (p, status)) :
    s.flight = some (p, status) ∨ ∃ c, Returned s.st s'.st p status c := by
  rcases or_eq_some_iff.mp hf' with ht' | ⟨-, hh'⟩
  · exact (taken_of_move h ht').imp_left flight_of_taken
  refine (held_of_move htidy h hh').imp_left fun hheld => ?_
  cases ht : s.taken with
  | none => rw [flight_of_none ht, hheld]
  | some event => cases (held_of_taken hstowed htidy ht).symm.trans hheld

/-- No event is in flight when a child is born. -/
lemma flight_of_newborn (hstowed : Stowed s) (htidy : Tidy s) (h : Move s l s')
    (hborn : l.newborn = some q) : s.flight = none := by
  rw [flight_of_none (hstowed.stored (h.outside_of_newborn hborn))]
  cases h with
  | exec hmode _ hexec =>
    cases hexec with
    | fork hpc | helper hpc =>
      rw [held_eq_mode (by simp [hpc]), hmode]
      rfl
    | _ => cases hborn
  | spawn hmode =>
    rw [htidy.held (by rw [hmode]; rfl), hmode]
    rfl
  | control hctl =>
    rw [Label.newborn_of_control hctl.label] at hborn
    cases hborn
  | _ => cases hborn

/-- Events in flight are about children, and an end is about a free pid. -/
def InFlight (s : State) : Prop :=
  ∀ p status, s.flight = some (p, status) → 1 < p ∧ (terminates status = true → s.st.free p = true)

lemma InFlight.of_move (hfl : InFlight s) (hstowed : Stowed s) (htidy : Tidy s)
    (hkids : Children s.st) (h : Move s l s') : InFlight s' := by
  intro p status hf'
  rcases flight_of_move hstowed htidy h hf' with hf | ⟨c, hret⟩
  · obtain ⟨hpos, hfree⟩ := hfl p status hf
    refine ⟨hpos, fun hterm => ?_⟩
    by_cases hborn : l.newborn = some p
    · rw [flight_of_newborn hstowed htidy h hborn] at hf
      cases hf
    · exact h.free hborn (hfree hterm)
  · exact (hret.taken hkids).2

lemma inFlight_of_run (hrun : Run step ok State.start ls s) : InFlight s := by
  induction hrun with
  | nil => exact fun _ _ hf => by cases hf
  | snoc hrun _ hstep ih =>
    exact ih.of_move (stowed_of_run hrun) (tidy_of_run hrun) (children_of_run hrun)
      (Move.of_step hstep)

/-! ## Processes that are over -/

/-- No event of pid `p` can come any more, until a child gets the pid. -/
def State.done (s : State) (p : Int) : Prop :=
  s.st.free p = true ∧ ∀ status, s.flight ≠ some (p, status)

lemma done_of_move (hstowed : Stowed s) (htidy : Tidy s) (hkids : Children s.st)
    (h : Move s l s') (hok : attributable l s) (hcar : s.carries p = true) (hdone : s.done p) :
    s'.done p := by
  refine ⟨h.free (not_newborn_of_carries hok hcar) hdone.1, fun status hf' => ?_⟩
  rcases flight_of_move hstowed htidy h hf' with hf | ⟨c, hret⟩
  · exact hdone.2 status hf
  have hbusy := (hret.taken hkids).1
  rw [hdone.1] at hbusy
  cases hbusy

/-- The wait loops make no `update_state(-1, 0)`. -/
lemma Stowed.taken_of_update {pl : Plan} {bad : Nat} (h : Stowed s)
    (hmode : s.mode = .execute pl bad) (hpc : s.st.pc = .update c status res) : s.taken = none :=
  h.stored (by simp [State.draining, hmode, hpc])

lemma Stowed.taken_of_record {stopped : Bool} (h : Stowed s)
    (hmode : s.mode = .resume r stopped pt) : s.taken = none :=
  h.stored (by simp [State.draining, hmode])

lemma flight_of_update {pl : Plan} {bad : Nat} (hstowed : Stowed s)
    (hok : attributable (.exec .update) s) (hmode : s.mode = .execute pl bad)
    (hpc : s.st.pc = .update c status res) (hc : s.st.pids[c]? = some p) :
    s.flight = some (p, status) := by
  have hwritten := hok.2
  simp only [hpc] at hwritten
  rw [flight_of_none (hstowed.taken_of_update hmode hpc)]
  cases res with
  | none => cases hwritten
  | some res =>
    unfold State.held
    rw [hpc]
    exact congrArg (Option.map _) hc

lemma flight_of_record {stopped : Bool} (hstowed : Stowed s) (htidy : Tidy s)
    (hmode : s.mode = .resume r stopped (.record k p status)) : s.flight = some (p, status) := by
  rw [flight_of_none (hstowed.taken_of_record hmode), htidy.held (by rw [hmode]; rfl), hmode]
  rfl

namespace Event

/-- What is recorded was in flight, or is taken from the kernel right now. -/
lemma busy (h : Event s l p status s') (hstowed : Stowed s) (htidy : Tidy s)
    (hok : attributable l s) :
    s.flight = some (p, status) ∨ ∃ c, s.st.kids p = some c ∧ c.pending = true := by
  cases h with
  | reap _ hk hpend => exact .inr ⟨_, hk, hpend⟩
  | drained _ htaken => exact .inl (flight_of_taken htaken)
  | update hl hmode hpc hc => exact .inl (flight_of_update hstowed (hl ▸ hok) hmode hpc hc)
  | record _ hmode => exact .inl (flight_of_record hstowed htidy hmode)

lemma not_done (h : Event s l p status s') (hstowed : Stowed s) (htidy : Tidy s)
    (hok : attributable l s) : ¬ s.done p := by
  intro hdone
  rcases h.busy hstowed htidy hok with hf | ⟨c, hk, hpend⟩
  · exact hdone.2 status hf
  have hbusy := not_free_of_pending hk hpend
  rw [hdone.1] at hbusy
  cases hbusy

lemma pid_pos (h : Event s l p status s') (hstowed : Stowed s) (htidy : Tidy s)
    (hkids : Children s.st) (hfl : InFlight s) (hok : attributable l s) : 1 < p := by
  rcases h.busy hstowed htidy hok with hf | ⟨c, hk, -⟩
  · exact (hfl p status hf).1
  · exact (hkids p c hk).1

/-- A process whose end has been recorded is over. -/
lemma ends (h : Event s l p status s') (hstowed : Stowed s) (htidy : Tidy s)
    (hkids : Children s.st) (hfl : InFlight s) (hok : attributable l s)
    (hterm : terminates status = true) : s'.done p := by
  cases h with
  | reap hl hk hpend hstatus hs' =>
    subst hl hstatus hs'
    have hvalid := (hkids p _ hk).2.2
    refine ⟨free_reported s.st hvalid hterm, fun status hf' => ?_⟩
    -- nothing else of the process is in flight
    have hf : s.flight = some (p, status) := hf'
    have hno := hok.2
    rw [terminates_status hvalid] at hterm
    simp [hf, hk, hterm] at hno
  | drained hl htaken hs' =>
    have hfree := (hfl p status (flight_of_taken htaken)).2 hterm
    have hheld := held_of_taken hstowed htidy htaken
    subst hs'
    refine ⟨hfree, fun _ => flight_ne_some ?_ ?_ _⟩
    · rfl
    · exact hheld
  | update hl hmode hpc hc hs' =>
    have hfree := (hfl p status (flight_of_update hstowed (hl ▸ hok) hmode hpc hc)).2 hterm
    have htaken := hstowed.taken_of_update hmode hpc
    subst hs'
    refine ⟨hfree, fun _ => flight_ne_some ?_ ?_ _⟩
    · exact htaken
    · rw [held_eq_mode (by simp), hmode]
      rfl
  | record hl hmode hs' =>
    have hfree := (hfl p status (flight_of_record hstowed htidy hmode)).2 hterm
    have htaken := hstowed.taken_of_record hmode
    have hpc := (htidy.calm (by rw [hmode]; rfl)).2.2
    subst hs'
    refine ⟨hfree, fun _ => flight_ne_some ?_ ?_ _⟩
    · exact htaken
    · rw [held_eq_mode (by simp [State.goto, St.record, hpc])]
      rfl

end Event

/-- The process of entry `k` of job `i` is over, as far as the job is active. -/
def Settled (s : State) (i k : Nat) : Prop :=
  ∃ j e, s.jobs[i]? = some j ∧ j.prs[k]? = some e ∧ e.pid ≠ 0 ∧ (j.active = true → s.done e.pid)

section Runs

variable {ls ls1 ls2 : List Label} {s1 : State} {i k : Nat}

lemma Settled.of_step (hrun : Run step attributable State.start ls s) (hok : attributable l s)
    (hstep : step l s = some s') (h : Settled s i k) : Settled s' i k := by
  obtain ⟨j, e, hj, he, hpid, hdone⟩ := h
  obtain ⟨j', e', hj', he', hpid', hactive⟩ := (changes_of_run hrun hstep).keeps hj he hpid
  refine ⟨j', e', hj', he', hpid' ▸ hpid, fun hactive' => ?_⟩
  rw [hpid']
  exact done_of_move (stowed_of_run hrun) (tidy_of_run hrun) (children_of_run hrun)
    (Move.of_step hstep) hok (carries_of_entry hj he (hactive hactive')) (hdone (hactive hactive'))

lemma Settled.of_run (h1 : Run step attributable State.start ls1 s1)
    (h2 : Run step attributable s1 ls2 s) (h : Settled s1 i k) : Settled s i k := by
  induction h2 with
  | nil => exact h
  | snoc h2 hok hstep ih => exact ih.of_step (h1.append h2) hok hstep

/-- Every terminated entry belongs to a process that is over. -/
lemma settled_of_run (hrun : Run step attributable State.start ls s)
    (he : s.slot i k = some e) (hdead : e.state = .terminated) : Settled s i k := by
  induction hrun generalizing i k e with
  | nil => cases he
  | snoc hrun hok hstep ih =>
    obtain ⟨j', hj', he'⟩ := slot_eq_some.mp he
    have hchange := changes_of_run hrun hstep
    obtain ⟨j, e0, hj, he0, hdead0 | ⟨-, status, hevent, hterm⟩⟩ := hchange.ended hj' he' hdead
    · exact (ih (slot_eq_some.mpr ⟨j, hj, he0⟩) hdead0).of_step hrun hok hstep
    -- the event that ends the process is its last one
    have hstowed := stowed_of_run hrun
    have htidy := tidy_of_run hrun
    have hkids := children_of_run hrun
    have hfl := inFlight_of_run hrun
    have hev := Event.of_step hevent hstep
    have hpos := hev.pid_pos hstowed htidy hkids hfl hok
    obtain ⟨j'', e'', hj'', he'', hpid, -⟩ := hchange.keeps hj he0 (by omega)
    refine ⟨j'', e'', hj'', he'', by omega, fun _ => ?_⟩
    rw [hpid]
    exact hev.ends hstowed htidy hkids hfl hok hterm

/-- No event changes the entry of a process that is over. -/
lemma Settled.slot_eq (hrun : Run step attributable State.start ls s) (hok : attributable l s)
    (hstep : step l s = some s') (hevent : s.event l = some (p, status)) (h : Settled s i k) :
    ∃ e, s.slot i k = some e ∧ s'.slot i k = some e := by
  obtain ⟨j, e, hj, he, hpid, hdone⟩ := h
  have hev := Event.of_step hevent hstep
  obtain ⟨j', e', hj', he', -, -⟩ := (changes_of_run hrun hstep).keeps hj he hpid
  have hslot' := slot_eq_some.mpr ⟨j', hj', he'⟩
  refine ⟨e, slot_eq_some.mpr ⟨j, hj, he⟩, ?_⟩
  obtain ⟨j0, e0, hj0, he0, rfl | ⟨hactive, rfl, -⟩⟩ := slot_record hev.jobs_eq hslot'
  · cases hj.symm.trans hj0
    cases he.symm.trans he0
    exact hslot'
  cases hj.symm.trans hj0
  cases he.symm.trans he0
  exact absurd (hdone hactive) (hev.not_done (stowed_of_run hrun) (tidy_of_run hrun) hok)

end Runs

/-! ## Which child an entry stands for

A pid does not name a process over a whole session, so the children that had
one pid are numbered by birth. The labels alone tell which child each entry
of the table was made for. -/

/-- `births p` children have had the pid `p` so far. `stage` has the numbers
of the pipeline that is being started and `owners` those of the jobs in the
table, with 0 for a stage without a process. -/
structure History where
  births : Int → Nat
  stage : List Nat
  owners : List (List Nat)

variable {h : History}

namespace History

def start : History := ⟨fun _ => 0, [], []⟩

def birth (p : Int) (h : History) : History :=
  { h with births := Function.update h.births p (h.births p + 1) }

def step (h : History) : Label → History
  | .exec (.fork p) => { h.birth p with stage := h.stage ++ [h.births p + 1] }
  | .exec (.helper p) => h.birth p
  | .spawn p => h.birth p
  | .exec .skip => { h with stage := h.stage ++ [0] }
  | .exec .addJob => { h with owners := h.owners ++ [h.stage] }
  | .fail => { h with stage := [] }
  | .finish => { h with stage := [] }
  | _ => h

/-- The child that entry `k` of job `i` was made for. -/
def owner (h : History) (i k : Nat) : Option Nat := (h.owners[i]?).bind (·[k]?)

lemma step_of_control (h : History) (hl : l.control = true) : h.step l = h := by
  cases l <;> first | rfl | cases hl

lemma births_birth_self (h : History) (p : Int) : (h.birth p).births p = h.births p + 1 :=
  Function.update_self ..

lemma births_birth_of_ne (h : History) (hne : q ≠ p) :
    (h.birth p).births q = h.births q := Function.update_of_ne hne ..

lemma births_step (h : History) (hborn : l.newborn ≠ some q) :
    (h.step l).births q = h.births q := by
  have hne : ∀ {p : Int}, some p ≠ some q → q ≠ p := fun hcon heq => hcon (heq ▸ rfl)
  cases l with
  | spawn p => exact h.births_birth_of_ne (hne hborn)
  | exec l =>
    cases l with
    | fork p | helper p => exact h.births_birth_of_ne (hne hborn)
    | _ => rfl
  | _ => rfl

lemma owners_step (h : History) (l : Label) :
    (h.step l).owners = h.owners ++ if l = .exec .addJob then [h.stage] else [] := by
  cases l with
  | exec l => cases l <;> simp [step, birth]
  | _ => simp [step, birth]

variable {i : Nat}

lemma owner_step (h : History) (l : Label) (howner : h.owner i k = some n) :
    (h.step l).owner i k = some n := by
  obtain ⟨row, hrow, hn⟩ := bind_eq_some_iff.mp howner
  refine bind_eq_some_iff.mpr ⟨row, ?_, hn⟩
  rw [owners_step]
  exact getElem?_append_of_some hrow _

end History

/-- The history of a run. -/
def history (ls : List Label) : History := ls.foldl History.step .start

lemma history_snoc (ls : List Label) (l : Label) : history (ls ++ [l]) = (history ls).step l := by
  rw [history, foldl_append]
  rfl

lemma length_owners (ls : List Label) : (history ls).owners.length = recordings ls := by
  induction ls using List.reverseRecOn with
  | nil => rfl
  | append_singleton ls l ih =>
    rw [history_snoc, History.owners_step, length_append, ih, recordings, recordings,
      count_append, count_singleton]
    by_cases hl : l = .exec .addJob <;> simp [hl]

/-- The pipeline that is being started, and its entry. -/
structure Numbered (h : History) (s : State) : Prop where
  new : s.st.job ≠ none → h.owners[s.st.old.length]? = some h.stage
  length : h.stage.length = s.st.pids.length
  stage : ∀ (c : Nat) (p : Int), s.st.pids[c]? = some p → 0 < p → h.stage[c]? = some (h.births p)

namespace Numbered

lemma keep (hn : Numbered h s) (hold : s'.st.old.length = s.st.old.length)
    (hjob : s'.st.job ≠ none → s.st.job ≠ none) (hpids : s'.st.pids = s.st.pids) :
    Numbered h s' := by
  constructor
  · intro hnew
    rw [hold]
    exact hn.new (hjob hnew)
  · rw [hpids]
    exact hn.length
  · rw [hpids]
    exact hn.stage

/-- A child that is no part of the pipeline. -/
lemma birth (hn : Numbered h s) (hp : p ∉ s.st.pids) : Numbered (h.birth p) s := by
  refine ⟨hn.new, hn.length, fun c q hq hpos => ?_⟩
  have hne : q ≠ p := by
    rintro rfl
    exact hp (mem_of_getElem? hq)
  rw [h.births_birth_of_ne hne]
  exact hn.stage c q hq hpos

/-- The fork loop has dealt with a stage. -/
lemma append (hn : Numbered h s) (hjob : s'.st.job = none) (hpids : s'.st.pids = s.st.pids ++ [q])
    (hq : 0 < q → n = h.births q) : Numbered { h with stage := h.stage ++ [n] } s' := by
  constructor
  · exact fun hnew => absurd hjob hnew
  · rw [hpids, length_append, length_append, hn.length]
    rfl
  intro c p hp hpos
  rw [hpids] at hp
  rcases getElem?_concat_eq_some.mp hp with hp | ⟨rfl, rfl⟩
  · exact getElem?_append_of_some (hn.stage c p hp hpos) _
  · exact getElem?_concat_eq_some.mpr (.inr ⟨hn.length.symm, (hq hpos).symm⟩)

lemma not_mem_of_fresh (hok : attributable l s) (hborn : l.newborn = some p) : p ∉ s.st.pids := by
  intro hmem
  refine not_newborn_of_carries hok ?_ hborn
  exact Bool.or_eq_true_iff.mpr (.inr (contains_iff_mem.mpr hmem))

lemma of_exec {pl : Plan} {bad : Nat} {l : Wait.Label} (hn : Numbered h s)
    (hlen : h.owners.length = s.job_count) (hvac : Vacant s.st) (hok : attributable (.exec l) s)
    (hpermits : s.permits bad l = true) (hmove : Wait.Move pl s.st l st) :
    Numbered (h.step (.exec l)) { s with st := st } := by
  cases hmove with
  | fork hpc =>
    refine (hn.birth (not_mem_of_fresh hok rfl)).append (hvac _ hpc) rfl (fun _ => ?_)
    exact (h.births_birth_self _).symm
  | skip hpc => exact hn.append (hvac _ hpc) rfl (fun hpos => by omega)
  | helper => exact (hn.birth (not_mem_of_fresh hok rfl)).keep rfl id rfl
  | addJob hpc =>
    refine ⟨fun _ => ?_, hn.length, hn.stage⟩
    have hold : h.owners.length = s.st.old.length := by
      rw [hlen, State.job_count, State.jobs, hvac _ hpc]
      simp
    show (h.owners ++ [h.stage])[s.st.old.length]? = some h.stage
    rw [← hold, List.getElem?_concat_length]
  | storeField | storeEntry =>
    exact hn.keep rfl (fun hnew hnone => hnew (by simp [hnone])) rfl
  | update =>
    refine hn.keep (length_map _) (fun hnew hnone => hnew ?_) rfl
    simp [St.record, hnone]
  | change | interrupt | sigchld | reap | handlerDone => cases hpermits
  | _ => exact hn.keep rfl id rfl

lemma of_move (hn : Numbered h s) (hlen : h.owners.length = s.job_count) (hvac : Vacant s.st)
    (hok : attributable l s) (hmove : Move s l s') : Numbered (h.step l) s' := by
  cases hmove with
  | exec _ hpermits hexec => exact (hn.of_exec hlen hvac hok hpermits hexec).keep rfl id rfl
  | fail | finish => exact ⟨fun hnew => absurd rfl hnew, rfl, fun c p hp => by cases hp⟩
  | background | store => exact hn.keep (length_modify ..) id rfl
  | record | recorded | reap =>
    refine hn.keep (length_map _) (fun hnew hnone => hnew ?_) rfl
    simp [State.goto, St.record, St.setChild, hnone]
  | spawn => exact (hn.birth (not_mem_of_fresh hok rfl)).keep rfl id rfl
  | control hctl =>
    rw [h.step_of_control hctl.label]
    refine hn.keep ?_ ?_ ?_ <;> rw [hctl.st_eq]
    exact id
  | _ => exact hn.keep rfl id rfl

end Numbered

lemma numbered_of_run (hrun : Run step attributable State.start ls s) :
    Numbered (history ls) s := by
  induction hrun with
  | nil => exact ⟨fun hnew => absurd rfl hnew, rfl, fun c p hp => by cases hp⟩
  | snoc hrun hok hstep ih =>
    rw [history_snoc]
    refine ih.of_move ?_ (vacant_of_run hrun) hok (Move.of_step hstep)
    rw [length_owners, job_count_eq hrun]

/-- Every entry of an active job stands for the last child with its pid. -/
def Owned (h : History) (s : State) : Prop :=
  ∀ (i k : Nat) (j : Job) (e : Process), s.jobs[i]? = some j → j.active = true →
    j.prs[k]? = some e → 0 < e.pid → h.owner i k = some (h.births e.pid)

/-- The entry under construction. -/
lemma owner_new (hn : Numbered h s) (htidy : Tidy s) (hvac : Vacant s.st)
    (hfill : Filled s) (hjob : s.st.job = some j)
    (he : j.prs[k]? = some e) (hpos : 0 < e.pid) :
    h.owner s.st.old.length k = some (h.births e.pid) := by
  rcases htidy with ⟨pl, bad, hmode⟩ | ⟨-, hnone, -⟩
  · have hforked : ∀ c, s.st.pc ≠ .fork c := by
      intro c hpc
      rw [hvac c hpc] at hjob
      cases hjob
    obtain ⟨-, j0, hj0, hstored⟩ := (hfill pl bad hmode).forked hforked
    cases hjob.symm.trans hj0
    have hnamed : named s.st.pc k = true := by
      by_contra hcon
      have hzero := (hstored.pid k e he).2 (Bool.eq_false_iff.mpr hcon)
      omega
    have hpid := (hstored.pid k e he).1 hnamed
    refine bind_eq_some_iff.mpr ⟨h.stage, hn.new (by simp [hjob]), ?_⟩
    exact hn.stage k e.pid hpid hpos
  · rw [hnone] at hjob
    cases hjob

/-- An entry of the finished part was there before. -/
lemma entry_before {i k : Nat} (hframes : s'.st.old.map frame = s.st.old.map frame)
    (hchange : Change s l s'.jobs) (hj' : s'.st.old[i]? = some j') (hactive : j'.active = true)
    (he' : j'.prs[k]? = some e') (hpid : e'.pid ≠ 0) :
    ∃ j e, s.jobs[i]? = some j ∧ j.active = true ∧ j.prs[k]? = some e ∧ e.pid = e'.pid := by
  have hi := congrArg (fun frames => frames[i]?) hframes
  simp only [List.getElem?_map, hj', map_some] at hi
  obtain ⟨j, hj, hframe⟩ := map_eq_some_iff.mp hi.symm
  have hk := congrArg (fun fr => fr.2.2[k]?) hframe
  simp only [frame, List.getElem?_map, he', map_some] at hk
  obtain ⟨e, he, hpid'⟩ := map_eq_some_iff.mp hk
  have hjobs : s.jobs[i]? = some j := getElem?_append_of_some hj _
  obtain ⟨j'', e'', hj'', -, -, hkeep⟩ := hchange.keeps hjobs he (hpid' ▸ hpid)
  cases (getElem?_append_of_some hj' _).symm.trans hj''
  exact ⟨j, e, hjobs, hkeep hactive, he, hpid'⟩

lemma owned_of_run (hrun : Run step attributable State.start ls s) : Owned (history ls) s := by
  induction hrun with
  | nil => exact fun i k j e hj => by cases hj
  | @snoc ls s s' l hrun hok hstep ih =>
    intro i k j' e' hj' hactive he' hpos
    have hrun' := hrun.snoc hok hstep
    -- an entry that was there before still has its child
    have hkept : ∀ j e, s.jobs[i]? = some j → j.active = true → j.prs[k]? = some e →
        e.pid = e'.pid → (history (ls ++ [l])).owner i k =
          some ((history (ls ++ [l])).births e'.pid) := by
      intro j e hj hact he hpid
      have hborn := not_newborn_of_carries hok (carries_of_entry hj he hact)
      rw [history_snoc, ← hpid, History.births_step _ hborn]
      exact History.owner_step _ _ (ih i k j e hj hact he (by omega))
    have hold : s'.st.old[i]? = some j' → (history (ls ++ [l])).owner i k =
        some ((history (ls ++ [l])).births e'.pid) := by
      intro hj
      rcases frames_of_move (Move.of_step hstep) with hframes | ⟨-, hjobs⟩
      · obtain ⟨j0, e, hj0, hact, he, hpid⟩ :=
          entry_before hframes (changes_of_run hrun hstep) hj hactive he' (by omega)
        exact hkept j0 e hj0 hact he hpid
      · rw [hjobs] at hj
        exact hkept j' e' hj hactive he' rfl
    unfold State.jobs at hj'
    cases hjob : s'.st.job with
    | none =>
      rw [hjob, toList_none, append_nil] at hj'
      exact hold hj'
    | some j =>
      rw [hjob, toList_some] at hj'
      rcases getElem?_concat_eq_some.mp hj' with hj' | ⟨rfl, rfl⟩
      · exact hold hj'
      · exact owner_new (numbered_of_run hrun') (tidy_of_run hrun') (vacant_of_run hrun')
          (fun _ _ => filling_of_run hrun') hjob he' hpos

/-! ## Termination is final, and events stay with their process -/

/-- **Termination is final.** In every session in which no child gets a pid
that an active job carries, no unwritten status is recorded and no end
overtakes an event in flight: an entry that is terminated at some point is
changed by no later event, and an event about pid `p` changes only entries
that were made for the last child with this pid, the one it is about. -/
theorem events_stay_with_their_process (ls1 ls2 : List Label) (s1 s s' : State) (l : Label)
    (p status : Int) (h1 : Run step attributable State.start ls1 s1)
    (h2 : Run step attributable s1 ls2 s) (hok : attributable l s) (hstep : step l s = some s')
    (hevent : s.event l = some (p, status)) :
    (∀ i k e1, s1.slot i k = some e1 → e1.state = .terminated →
        ∃ e, s.slot i k = some e ∧ s'.slot i k = some e) ∧
      ∀ i k e e', s.slot i k = some e → s'.slot i k = some e' → e' ≠ e →
        e.pid = p ∧
          (history (ls1 ++ ls2)).owner i k = some ((history (ls1 ++ ls2)).births p) := by
  have hrun := h1.append h2
  constructor
  · intro i k e1 he1 hdead
    exact ((settled_of_run h1 he1 hdead).of_run h1 h2).slot_eq hrun hok hstep hevent
  intro i k e e' he he' hne
  have hev := Event.of_step hevent hstep
  obtain ⟨j, e0, hj, he0, rfl | ⟨hactive, rfl, -⟩⟩ := slot_record hev.jobs_eq he'
  · have hsame := slot_eq_some.mpr ⟨j, hj, he0⟩
    rw [he] at hsame
    exact absurd (Option.some.inj hsame).symm hne
  have hsame := slot_eq_some.mpr ⟨j, hj, he0⟩
  rw [he] at hsame
  cases hsame
  have hpos := hev.pid_pos (stowed_of_run hrun) (tidy_of_run hrun) (children_of_run hrun)
    (inFlight_of_run hrun) hok
  exact ⟨rfl, owned_of_run hrun i k j e hj hactive he0 (by omega)⟩

/-- The second process of the pipeline `a | b &` exits and is reaped. -/
def exitLabels : List Label :=
  pipelineLine ++ ([.change 3 (.exited 0), .sigchld 0, .reap 3, .handlerDone] : List Label)

/-- The theorem at this pipeline, when the first process then stops. -/
theorem events_stay_with_their_process_stopped :
    ∃ s1 s s', Run step attributable State.start exitLabels s1 ∧
      Run step attributable s1 [.change 2 (.stopped 20), .sigchld 0] s ∧
      step (.reap 2) s = some s' ∧ ∃ e, s.slot 0 1 = some e ∧ s'.slot 0 1 = some e := by
  have hrun : ∃ s1, Run step attributable State.start exitLabels s1 ∧
      s1.slot 0 1 = some ⟨3, "b", .terminated, true, false⟩ ∧
      ∃ s, Run step attributable s1 [.change 2 (.stopped 20), .sigchld 0] s ∧
        attributable (.reap 2) s ∧ s.event (.reap 2) = some (2, 5247) ∧
          ∃ s', step (.reap 2) s = some s' ∧ True := by decide +kernel
  obtain ⟨s1, hrun1, hdead, s, hrun2, hok, hevent, s', hstep, -⟩ := hrun
  refine ⟨s1, s, s', hrun1, hrun2, hstep, ?_⟩
  exact (events_stay_with_their_process exitLabels _ s1 s s' _ 2 5247 hrun1 hrun2 hok hstep
    hevent).1 0 1 _ hdead rfl

/-- The process of the line `c &` gets the pid 3 and stops. -/
def reuseLabels : List Label :=
  ([.next, .read "c &".toList, .command true, .exec (.fork 3), .exec .addJob] : List Label) ++
    (List.replicate 11 (.exec .store) : List Label) ++
    ([.exec .release, .finish, .command true, .change 3 (.stopped 20), .sigchld 0] : List Label)

/-- The second process of `a | b &` has exited and its pid is given to the
process of the next line. When that one stops, the stop is recorded for the
exited process too: its entry goes from terminated to stopped, though it was
made for the first child with pid 3 and the event is about the second. -/
theorem reused_pid_revives_entry :
    ∃ ls1 ls2 s1 s s', Run step anyStep State.start ls1 s1 ∧ Run step anyStep s1 ls2 s ∧
      step (.reap 3) s = some s' ∧ s.event (.reap 3) = some (3, 5247) ∧
      s1.slot 0 1 = some ⟨3, "b", .terminated, true, false⟩ ∧
      s'.slot 0 1 = some ⟨3, "b", .stopped, true, false⟩ ∧
      (history (ls1 ++ ls2)).owner 0 1 = some 1 ∧ (history (ls1 ++ ls2)).births 3 = 2 := by
  have hrun : ∃ s1, Run step anyStep State.start exitLabels s1 ∧
      s1.slot 0 1 = some ⟨3, "b", .terminated, true, false⟩ ∧
      ∃ s, Run step anyStep s1 reuseLabels s ∧ s.event (.reap 3) = some (3, 5247) ∧
        ∃ s', step (.reap 3) s = some s' ∧
          s'.slot 0 1 = some ⟨3, "b", .stopped, true, false⟩ := by decide +kernel
  obtain ⟨s1, hrun1, hdead, s, hrun2, hevent, s', hstep, hslot⟩ := hrun
  exact ⟨exitLabels, reuseLabels, s1, s, s', hrun1, hrun2, hstep, hevent, hdead, hslot,
    by decide +kernel, by decide +kernel⟩

end CshellXv6.Shell.Session
