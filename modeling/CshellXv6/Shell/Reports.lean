import CshellXv6.Shell.Ends

/-! # The reports of `print_prs`

`print_prs` calls `update_state(-1, 0)` and then walks over the table: every terminated
process of a job with `bg` is reported, unless its `printed` flag is set, and the flag is
set afterwards. The `SIGCHLD` handler may run between any two steps of the walk.

The machine is the session with this walk added. A walk can begin wherever the session
stands behind the `update_state(-1, 0)` of a `print_prs`: at the prompt, between two
commands and at the end of `execute`. The field `printed` of the table is read and set by
the walk only, and `add_job` stores 0 into fresh entries, so it is kept beside the
session here.
-/

namespace CshellXv6.Shell.Reports

open Lib Session List Option

/-! ## The machine -/

/-- Where the walk stands: before the tests of job `i`, of entry `k`, before the test of
`exit`, before the `printf` and before the store to `printed`. -/
inductive Scan where
  | job (i : Nat)
  | entry (i k : Nat)
  | decide (i k : Nat)
  | print (i k : Nat) (normal : Bool)
  | mark (i k : Nat)
deriving DecidableEq, Repr

/-- A line that `print_prs` has printed, with the place of the entry in the table. -/
structure Report where
  job : Nat
  index : Nat
  name : String
  pid : Int
  normal : Bool
deriving DecidableEq, Repr

def Report.slot (r : Report) : Nat × Nat := (r.job, r.index)

def Report.text (r : Report) : String :=
  r.name ++ " with pid " ++ toString r.pid ++
    if r.normal then " exited normally\n" else " exited abnormally\n"

/-- The session, the walk if there is one, the entries with `printed` set and what has
been printed so far. -/
structure Conf where
  s : Session.State
  scan : Option Scan
  printed : List (Nat × Nat)
  log : List Report

def Conf.start : Conf := ⟨State.start, none, [], []⟩

/-- One step of the walk. -/
def Conf.walk (c : Conf) : Scan → Conf
  | .job i =>
    match c.s.jobs[i]? with
    | none => { c with scan := none }
    | some j =>
      if j.bg then { c with scan := some (.entry i 0) } else { c with scan := some (.job (i + 1)) }
  | .entry i k =>
    match c.s.slot i k with
    | none => { c with scan := some (.job (i + 1)) }
    | some e =>
      if e.state = .terminated ∧ (i, k) ∉ c.printed then { c with scan := some (.decide i k) }
      else { c with scan := some (.entry i (k + 1)) }
  | .decide i k =>
    match c.s.slot i k with
    | none => c
    | some e => { c with scan := some (.print i k e.exit) }
  | .print i k normal =>
    match c.s.slot i k with
    | none => c
    | some e =>
      { c with log := c.log ++ [⟨i, k, e.name, e.pid, normal⟩], scan := some (.mark i k) }
  | .mark i k => { c with printed := (i, k) :: c.printed, scan := some (.entry i (k + 1)) }

/-- The points behind the `update_state(-1, 0)` of a `print_prs`. -/
def callable (s : Session.State) : Bool :=
  match s.mode with
  | .prompt => true
  | .line => true
  | .execute _ _ => s.st.pc = .returned
  | _ => false

/-- What happens beside the shell: children change, signals arrive, the handler works. -/
def beside : Session.Label → Bool
  | .change _ _ => true
  | .sigchld _ => true
  | .sigalrm => true
  | .reap _ => true
  | .handlerDone => true
  | _ => false

inductive Label where
  | session (l : Session.Label)
  | print_prs
  | walk
deriving DecidableEq, Repr

def step (l : Label) (c : Conf) : Option Conf :=
  match l with
  | .session l =>
    if c.scan = none ∨ beside l then (Session.step l c.s).map (fun s => { c with s := s }) else none
  | .print_prs =>
    if c.scan = none ∧ c.s.st.handler = false ∧ callable c.s then
      some { c with scan := some (.job 0) }
    else none
  | .walk =>
    match c.scan with
    | none => none
    | some sc => if c.s.st.handler then none else some (c.walk sc)

/-- Every step of the session is reliable. -/
def sound : Label → Conf → Prop
  | .session l, c => reliable l c.s
  | _, _ => True

instance (l : Label) (c : Conf) : Decidable (sound l c) :=
  match l with
  | .session l => inferInstanceAs (Decidable (reliable l c.s))
  | .print_prs | .walk => inferInstanceAs (Decidable True)

/-! ## The run of the session -/

def Label.session? : Label → Option Session.Label
  | .session l => some l
  | _ => none

variable {c c' c1 : Conf} {l : Label} {i k : Nat} {s : Session.State} {ls : List Session.Label}
  {sc : Scan} {normal : Bool} {ls1 ls2 : List Label} {j : Job} {e : Process} {r : Wait.Real}

lemma walk_s (c : Conf) (sc : Scan) : (c.walk sc).s = c.s := by
  cases sc with
  | job i | entry i k =>
    simp only [Conf.walk]
    split
    · rfl
    · split <;> rfl
  | decide | print =>
    simp only [Conf.walk]
    split <;> rfl
  | mark => rfl

/-- The three kinds of steps. -/
inductive Move (c : Conf) : Label → Conf → Prop where
  | session {l : Session.Label} {s : Session.State} (hscan : c.scan = none ∨ beside l = true)
      (hstep : Session.step l c.s = some s) : Move c (.session l) { c with s := s }
  | call (hscan : c.scan = none) : Move c .print_prs { c with scan := some (.job 0) }
  | walk {sc : Scan} (hscan : c.scan = some sc) : Move c .walk (c.walk sc)

lemma Move.of_step (h : step l c = some c') : Move c l c' := by
  cases l with
  | session l =>
    obtain ⟨hscan, hmap⟩ := ite_none_right_eq_some.mp h
    obtain ⟨s, hs, rfl⟩ := map_eq_some_iff.mp hmap
    exact .session hscan hs
  | print_prs =>
    obtain ⟨hguard, rfl⟩ := of_guard h
    exact .call hguard.1
  | walk =>
    simp only [step] at h
    cases hscan : c.scan with
    | none => simp [hscan] at h
    | some sc =>
      rw [hscan] at h
      obtain ⟨-, rfl⟩ := of_guard_not h
      exact .walk hscan

/-- A run of the machine contains a run of the session. -/
lemma session_of_run {c0 : Conf} {ls : List Label} (hrun : Run step sound c0 ls c) :
    Run Session.step reliable c0.s (ls.filterMap Label.session?) c.s := by
  induction hrun with
  | nil => exact Run.nil
  | snoc hrun hok hstep ih =>
    rw [filterMap_append]
    cases Move.of_step hstep with
    | session _ hs => exact ih.snoc hok hs
    | call =>
      rw [show [Label.print_prs].filterMap Label.session? = [] from rfl, append_nil]
      exact ih
    | walk =>
      rw [show [Label.walk].filterMap Label.session? = [] from rfl, append_nil, walk_s]
      exact ih

/-! ## What the walk knows -/

/-- Job `i` has `bg` set. -/
def Background (s : Session.State) (i : Nat) : Prop := ∃ j, s.jobs[i]? = some j ∧ j.bg = true

/-- Beside the shell only `update_state` touches the table. -/
lemma Background.of_beside {s' : Session.State} {l : Session.Label} (h : Background s i)
    (hl : beside l = true) (hstep : Session.step l s = some s') : Background s' i := by
  obtain ⟨j, hj, hbg⟩ := h
  cases Session.Move.of_step hstep with
  | @reap p child _ hk =>
    refine ⟨j.record p child.real.status, ?_, ?_⟩
    · rw [show State.jobs { s with st := _ } = Shell.record p child.real.status s.jobs from
        jobs_record rfl rfl, Shell.record, List.getElem?_map, hj]
      rfl
    · rw [Job.bg_record]
      exact hbg
  | change | interrupt | sigchld | handlerDone => exact ⟨j, hj, hbg⟩
  | control hctl =>
    refine ⟨j, ?_, hbg⟩
    rw [State.jobs, hctl.st_eq]
    exact hj
  | _ => cases hl

/-- What holds at each point of the walk. -/
def Conf.Knows (c : Conf) : Scan → Prop
  | .job _ => True
  | .entry i _ => Background c.s i
  | .decide i k => Background c.s i ∧ (i, k) ∉ c.printed ∧ ∃ j e, Ended c.s i k j e
  | .print i k normal => Background c.s i ∧ (i, k) ∉ c.printed ∧
      ∃ j e, Ended c.s i k j e ∧ e.exit = normal
  | .mark i _ => Background c.s i

/-- The report is true of the entry at its place. -/
def Conf.Right (c : Conf) (r : Report) : Prop :=
  ∃ j e, Ended c.s r.job r.index j e ∧ j.bg = true ∧ r.pid = e.pid ∧ r.name = e.name ∧
    r.normal = e.exit

/-- The entries that have been reported are those with `printed` set and the one whose
flag is about to be. -/
structure Kept (c : Conf) : Prop where
  reported : ∀ slot, slot ∈ c.log.map Report.slot ↔
    slot ∈ c.printed ∨ c.scan = some (.mark slot.1 slot.2)
  once : (c.log.map Report.slot).Nodup
  knows : ∀ sc, c.scan = some sc → c.Knows sc
  right : ∀ r ∈ c.log, c.Right r

lemma Conf.Right.of_session {r : Report} {l : Session.Label} (h : c.Right r)
    (hrun : Run Session.step reliable State.start ls c.s) (hok : reliable l c.s)
    (hstep : Session.step l c.s = some s) : Conf.Right { c with s := s } r := by
  obtain ⟨j, e, hended, hbg, hpid, hname, hnormal⟩ := h
  obtain ⟨j', e', hended', hsame⟩ := hended.of_step hrun hok hstep
  exact ⟨j', e', hended', hsame.bg hbg, hpid.trans hsame.pid.symm, hname.trans hsame.name.symm,
    hnormal.trans hsame.exit.symm⟩

lemma Conf.Knows.of_session {l : Session.Label} (h : c.Knows sc)
    (hrun : Run Session.step reliable State.start ls c.s) (hl : beside l = true)
    (hok : reliable l c.s) (hstep : Session.step l c.s = some s) :
    Conf.Knows { c with s := s } sc := by
  cases sc with
  | job => trivial
  | entry | mark => exact Background.of_beside h hl hstep
  | decide i k =>
    obtain ⟨hbg, hnew, j, e, hended⟩ := h
    obtain ⟨j', e', hended', -⟩ := hended.of_step hrun hok hstep
    exact ⟨hbg.of_beside hl hstep, hnew, j', e', hended'⟩
  | print i k normal =>
    obtain ⟨hbg, hnew, j, e, hended, hexit⟩ := h
    obtain ⟨j', e', hended', hsame⟩ := hended.of_step hrun hok hstep
    exact ⟨hbg.of_beside hl hstep, hnew, j', e', hended', hsame.exit.trans hexit⟩

lemma Kept.of_session {l : Session.Label} (h : Kept c)
    (hrun : Run Session.step reliable State.start ls c.s) (hscan : c.scan = none ∨ beside l = true)
    (hok : reliable l c.s) (hstep : Session.step l c.s = some s) : Kept { c with s := s } := by
  refine ⟨h.reported, h.once, fun sc hsc => ?_, fun r hr => ?_⟩
  · rcases hscan with hnone | hl
    · cases hnone.symm.trans hsc
    · exact (h.knows sc hsc).of_session hrun hl hok hstep
  · exact (h.right r hr).of_session hrun hok hstep

/-- A step that prints nothing and marks nothing. -/
lemma Kept.goto (h : Kept c) {next : Option Scan} (hnow : ∀ i k, c.scan ≠ some (.mark i k))
    (hnext : ∀ i k, next ≠ some (.mark i k)) (hknows : ∀ sc, next = some sc → c.Knows sc) :
    Kept { c with scan := next } := by
  refine ⟨fun slot => ?_, h.once, fun sc hsc => ?_, h.right⟩
  · rw [h.reported slot, or_iff_left (hnow slot.1 slot.2), or_iff_left (hnext slot.1 slot.2)]
  · have hsc' := hknows sc hsc
    cases sc <;> exact hsc'

lemma Kept.of_job (h : Kept c) (hscan : c.scan = some (.job i)) : Kept (c.walk (.job i)) := by
  have hnow : ∀ i k, c.scan ≠ some (.mark i k) := by simp [hscan]
  rw [Conf.walk]
  split
  · exact h.goto hnow (by simp) (by simp)
  next j hj =>
    split
    next hbg => exact h.goto hnow (by simp) fun sc hsc => by cases hsc; exact ⟨j, hj, hbg⟩
    · exact h.goto hnow (by simp) fun sc hsc => by cases hsc; trivial

lemma Kept.of_entry (h : Kept c) (hscan : c.scan = some (.entry i k)) :
    Kept (c.walk (.entry i k)) := by
  have hnow : ∀ i k, c.scan ≠ some (.mark i k) := by simp [hscan]
  have hbg : Background c.s i := h.knows _ hscan
  rw [Conf.walk]
  split
  · exact h.goto hnow (by simp) fun sc hsc => by cases hsc; trivial
  next e he =>
    split
    next hdue =>
      obtain ⟨j, hj, hentry⟩ := slot_eq_some.mp he
      refine h.goto hnow (by simp) fun sc hsc => ?_
      cases hsc
      exact ⟨hbg, hdue.2, j, e, hj, hentry, hdue.1⟩
    · exact h.goto hnow (by simp) fun sc hsc => by cases hsc; exact hbg

lemma Kept.of_decide (h : Kept c) (hscan : c.scan = some (.decide i k)) :
    Kept (c.walk (.decide i k)) := by
  obtain ⟨hbg, hnew, j, e, hended⟩ := h.knows _ hscan
  rw [Conf.walk, hended.slot]
  refine h.goto (by simp [hscan]) (by simp) fun sc hsc => ?_
  cases hsc
  exact ⟨hbg, hnew, j, e, hended, rfl⟩

/-- The `printf`: the entry has not been reported before. -/
lemma Kept.of_print (h : Kept c) (hscan : c.scan = some (.print i k normal)) :
    Kept (c.walk (.print i k normal)) := by
  obtain ⟨⟨j, hj, hbg⟩, hnew, j', e, hended, hexit⟩ := h.knows _ hscan
  cases hj.symm.trans hended.job
  have hnow : ∀ slot, slot ∈ c.log.map Report.slot ↔ slot ∈ c.printed := by
    intro slot
    rw [h.reported slot, or_iff_left (by simp [hscan])]
  rw [Conf.walk, hended.slot]
  refine ⟨fun slot => ?_, ?_, fun sc hsc => ?_, fun r hr => ?_⟩
  · simp only [map_append, mem_append, hnow slot, map_cons, map_nil,
      mem_singleton, Report.slot, Option.some.injEq, Scan.mark.injEq, Prod.ext_iff]
    exact or_congr_right (and_congr eq_comm eq_comm)
  · simp only [map_append, map_cons, map_nil]
    refine h.once.append (nodup_singleton _) ?_
    rw [disjoint_singleton, hnow]
    exact hnew
  · cases hsc
    exact ⟨j, hj, hbg⟩
  rcases mem_append.mp hr with hr | hr
  · exact h.right r hr
  · cases mem_singleton.mp hr
    exact ⟨j, e, hended, hbg, rfl, rfl, hexit.symm⟩

lemma Kept.of_mark (h : Kept c) (hscan : c.scan = some (.mark i k)) :
    Kept (c.walk (.mark i k)) := by
  have hbg : Background c.s i := h.knows _ hscan
  refine ⟨fun slot => ?_, h.once, fun sc hsc => ?_, h.right⟩
  · show slot ∈ c.log.map Report.slot ↔ slot ∈ (i, k) :: c.printed ∨ _
    rw [h.reported slot, hscan, mem_cons, or_comm]
    simp only [Conf.walk, Option.some.injEq, Scan.mark.injEq, reduceCtorEq, or_false, Prod.ext_iff]
    exact or_congr_left (and_congr eq_comm eq_comm)
  · cases hsc
    exact hbg

lemma Kept.of_walk (h : Kept c) (hscan : c.scan = some sc) : Kept (c.walk sc) := by
  cases sc with
  | job i => exact h.of_job hscan
  | entry i k => exact h.of_entry hscan
  | decide i k => exact h.of_decide hscan
  | print i k normal => exact h.of_print hscan
  | mark i k => exact h.of_mark hscan

lemma kept_of_run {ls : List Label} (hrun : Run step sound Conf.start ls c) : Kept c := by
  induction hrun with
  | nil =>
    refine ⟨by simp [Conf.start], nodup_nil, ?_, ?_⟩
    · intro sc hsc
      cases hsc
    · intro r hr
      cases hr
  | snoc hrun hok hstep ih =>
    cases Move.of_step hstep with
    | session hscan hs => exact ih.of_session (session_of_run hrun) hscan hok hs
    | call hscan =>
      refine ih.goto (by simp [hscan]) (by simp) fun sc hsc => ?_
      cases hsc
      trivial
    | walk hscan => exact ih.of_walk hscan

/-! ## Nobody is passed over -/

/-- The walk has not passed entry `k` of job `i`. -/
def Scan.ahead (i k : Nat) : Scan → Prop
  | .job i' => i' ≤ i
  | .entry i' k' => i' < i ∨ (i' = i ∧ k' ≤ k)
  | .decide i' k' => i' < i ∨ (i' = i ∧ k' ≤ k)
  | .print i' k' _ => i' < i ∨ (i' = i ∧ k' ≤ k)
  | .mark i' k' => i' < i ∨ (i' = i ∧ k' < k)

/-- The entry has been reported, or the walk comes to it. -/
def Expected (c : Conf) (i k : Nat) : Prop :=
  (i, k) ∈ c.log.map Report.slot ∨ ∃ sc, c.scan = some sc ∧ sc.ahead i k

lemma Expected.of_ahead (hscan : c.scan = some sc) (h : sc.ahead i k) :
    Expected c i k := .inr ⟨sc, hscan, h⟩

lemma log_walk (c : Conf) (sc : Scan) : c.log <+: (c.walk sc).log := by
  cases sc with
  | job i | entry i k =>
    simp only [Conf.walk]
    split
    · exact prefix_rfl
    · split <;> exact prefix_rfl
  | decide =>
    simp only [Conf.walk]
    split <;> exact prefix_rfl
  | print =>
    simp only [Conf.walk]
    split
    · exact prefix_rfl
    · exact prefix_append _ _
  | mark => exact prefix_rfl

section Walk

variable {j : Job} {e : Process} {i' k' : Nat}

lemma Expected.of_job (hended : Ended c.s i k j e) (hbg : j.bg = true)
    (h : i' ≤ i) : Expected (c.walk (.job i')) i k := by
  have hlt : i' < c.s.jobs.length :=
    lt_of_le_of_lt h (List.getElem?_eq_some_iff.mp hended.job).1
  have hj' : c.s.jobs[i']? = some c.s.jobs[i'] := List.getElem?_eq_getElem hlt
  rw [Conf.walk, hj']
  dsimp only
  split
  · refine Expected.of_ahead rfl ?_
    rcases Nat.lt_or_eq_of_le h with hi | hi
    · exact .inl hi
    · exact .inr ⟨hi, Nat.zero_le k⟩
  next hno =>
    refine Expected.of_ahead rfl (Nat.lt_of_le_of_ne h ?_)
    rintro rfl
    cases hj'.symm.trans hended.job
    exact hno hbg

lemma Expected.of_entry (hkept : Kept c) (hended : Ended c.s i k j e)
    (h : i' < i ∨ (i' = i ∧ k' ≤ k)) : Expected (c.walk (.entry i' k')) i k := by
  rw [Conf.walk]
  split
  next hnone =>
    refine Expected.of_ahead rfl ?_
    rcases h with hi | ⟨rfl, hk⟩
    · exact hi
    -- the entries of a job are contiguous
    exfalso
    have hlt : k' < j.prs.length :=
      lt_of_le_of_lt hk (List.getElem?_eq_some_iff.mp hended.entry).1
    have hsome := slot_eq_some.mpr ⟨j, hended.job, List.getElem?_eq_getElem hlt⟩
    rw [hnone] at hsome
    cases hsome
  next e' he' =>
    split
    · exact Expected.of_ahead rfl h
    next hno =>
      rcases h with hi | ⟨rfl, hk⟩
      · exact Expected.of_ahead rfl (.inl hi)
      rcases Nat.lt_or_eq_of_le hk with hk | rfl
      · exact Expected.of_ahead rfl (.inr ⟨rfl, hk⟩)
      -- the entry itself is passed only if its flag is set
      cases he'.symm.trans hended.slot
      left
      refine (hkept.reported _).mpr (.inl ?_)
      by_contra hnew
      exact hno ⟨hended.dead, hnew⟩

lemma Expected.of_walk (h : Expected c i k) (hkept : Kept c) (hended : Ended c.s i k j e)
    (hbg : j.bg = true) (hscan : c.scan = some sc) : Expected (c.walk sc) i k := by
  rcases h with hlogged | ⟨sc', hsc', hahead⟩
  · exact .inl (((log_walk c sc).map Report.slot).subset hlogged)
  cases hscan.symm.trans hsc'
  cases sc with
  | job i' => exact Expected.of_job hended hbg hahead
  | entry i' k' => exact Expected.of_entry hkept hended hahead
  | decide i' k' =>
    obtain ⟨-, -, j', e', hended'⟩ := hkept.knows _ hscan
    rw [Conf.walk, hended'.slot]
    exact Expected.of_ahead rfl hahead
  | print i' k' normal =>
    obtain ⟨-, -, j', e', hended', -⟩ := hkept.knows _ hscan
    rw [Conf.walk, hended'.slot]
    rcases hahead with hi | ⟨rfl, hk⟩
    · exact Expected.of_ahead rfl (.inl hi)
    rcases Nat.lt_or_eq_of_le hk with hk | rfl
    · exact Expected.of_ahead rfl (.inr ⟨rfl, hk⟩)
    · left
      simp [Report.slot]
  | mark i' k' =>
    refine Expected.of_ahead rfl ?_
    rcases hahead with hi | ⟨rfl, hk⟩
    · exact .inl hi
    · exact .inr ⟨rfl, hk⟩

end Walk

/-- Along a run nobody is forgotten whose end is recorded in a background job. -/
lemma expected_of_run (h1 : Run step sound Conf.start ls1 c1) (h2 : Run step sound c1 ls2 c)
    (hended : Ended c1.s i k j e) (hbg : j.bg = true) (h : Expected c1 i k) : Expected c i k := by
  induction h2 with
  | nil => exact h
  | snoc h2 hok hstep ih =>
    have hrun := h1.append h2
    obtain ⟨j', e', hended', hsame⟩ :=
      Lasting.of_run (session_of_run h1) (session_of_run h2) hended
    cases Move.of_step hstep with
    | session => exact ih
    | call hscan =>
      rcases ih with hlogged | ⟨sc, hsc, -⟩
      · exact .inl hlogged
      · cases hscan.symm.trans hsc
    | walk hscan => exact ih.of_walk (kept_of_run hrun) hended' (hsame.bg hbg) hscan

/-! ## Exactly once -/

lemma exit_iff_of_agrees (hended : r.ended = true) (h : Wait.agrees e r = true) :
    (e.exit = true ↔ ∃ code, r = .exited code) ∧ (e.exit = false ↔ ∃ sig, r = .killed sig) := by
  cases r with
  | running | stopped => cases hended
  | exited code =>
    have hexit : e.exit = true := (Bool.and_eq_true_iff.mp h).2
    simp [hexit]
  | killed sig =>
    have hexit : e.exit = false := by simpa using (Bool.and_eq_true_iff.mp h).2
    simp [hexit]

/-- The line `a &` of a fresh shell, up to the next prompt; the process gets the pid 2. -/
def launchLabels : List Session.Label :=
  ([.next, .read "a &".toList, .command true, .exec (.fork 2), .exec .addJob] :
      List Session.Label) ++
    (List.replicate 11 (.exec .store) : List Session.Label) ++
    ([.exec .release, .finish, .command true, .next] : List Session.Label)

/-- The process is killed and the handler reaps it. -/
def killedLabels : List Label :=
  (launchLabels ++ ([.change 2 (.killed 9), .sigchld 0, .reap 2, .handlerDone] :
    List Session.Label)).map .session

/-- No pid is given out a second time. -/
def unreused : Label → Conf → Prop
  | .session l, c => l.newborn.all (fun p => (c.s.st.kids p).isNone) = true
  | _, _ => True

instance (l : Label) (c : Conf) : Decidable (unreused l c) :=
  match l with
  | .session l =>
    inferInstanceAs (Decidable (l.newborn.all (fun p => (c.s.st.kids p).isNone) = true))
  | .print_prs | .walk => inferInstanceAs (Decidable True)

/-- `resume %1 bg` has found the process alive when it exits and is reaped. -/
def windowLabels : List Label :=
  (launchLabels ++ ([.read "resume %1 bg".toList, .command true, .next, .next, .next,
    .change 2 (.exited 0), .sigchld 0, .reap 2, .handlerDone] : List Session.Label)).map .session

/-- `resume` goes on and the shell comes to its next prompt. -/
def afterWindow : List Label :=
  ([.next, .next, .kill, .command true, .next] : List Session.Label).map .session

end CshellXv6.Shell.Reports
