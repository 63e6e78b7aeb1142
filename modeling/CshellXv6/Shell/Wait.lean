import CshellXv6.Shell.Jobs

/-! # Children, signals and the wait loop of `execute`

`execute` forks the processes of a pipeline, registers them with `add_job`
and then either releases them (background) or waits for them (foreground).
Meanwhile its children change state on their own, and the `SIGCHLD` handler
may run between any two of its steps, inside `add_job` as well as while
`waitpid` blocks; it was installed without `SA_RESTART`, so a blocked
`waitpid` then fails with `EINTR`.

The machine below interleaves three parties:

* the shell, whose control point is a `Pc`: `fork`, the stores of `add_job`,
  the release of the sync pipe, the wait loop, and the `update_state(-1, 0)`
  of the final `print_prs`;
* the handler `sigchld`, which reaps with `waitpid(-1, ...)` until nothing is
  left to report;
* the children: the kernel keeps, for each, its state and whether the last
  change has been reported yet.

The model follows a pipeline all of whose stages could be opened and forked.
An `int` that `waitpid` left unwritten holds an arbitrary value, which the
label of the step supplies.
-/

namespace CshellXv6.Shell.Wait

open Function

/-! ## Children -/

/-- The state of a child, by its last change. -/
inductive Real where
  | running
  | stopped (sig : Nat)
  | exited (code : Nat)
  | killed (sig : Nat)
deriving DecidableEq, Repr

/-- The child has terminated. -/
def Real.ended : Real → Bool
  | .exited _ => true
  | .killed _ => true
  | _ => false

/-- The status with which `waitpid` reports a change. -/
def Real.status : Real → Int
  | .running => 0xffff
  | .stopped sig => sig * 256 + 127
  | .exited code => (code % 256 : Nat) * 256
  | .killed sig => sig

/-- The changes a child can make by itself or by a signal. -/
def Real.canBecome : Real → Real → Bool
  | .running, .stopped _ => true
  | .running, .exited _ => true
  | .running, .killed sig => 1 ≤ sig && sig ≤ 126
  | .stopped _, .killed sig => 1 ≤ sig && sig ≤ 126
  | .stopped _, .running => true
  | _, _ => false

/-- A child in the kernel: its state, and whether its last change is still to
be reported. A terminated child without anything to report has been reaped. -/
structure Child where
  real : Real
  pending : Bool
deriving DecidableEq, Repr

/-- `waitpid` without `WCONTINUED` has something to return. -/
def Child.waitable (k : Child) : Bool := k.pending && k.real ≠ .running

/-- The pid is free again. -/
def Child.reaped (k : Child) : Bool := k.real.ended && !k.pending

/-! ## The machine -/

/-- A pipeline: the command name of each stage (`none` for a stage without
a command word, which `execute` skips), `bg`, and whether the sync pipe of a
background pipeline could be created. -/
structure Plan where
  stages : List (Option String)
  bg : Bool
  sync : Bool
  job_id : Int
  cmd : String
deriving DecidableEq, Repr

/-- Where `execute` stands. `update c status res` is the point between the
`waitpid` for stage `c` and its `update_state`: `status` is the variable,
`res` what `waitpid` returned in it, if it did. -/
inductive Pc where
  | fork (c : Nat)
  | header (f : JobField)
  | entry (j : Nat) (f : EntryField)
  | release
  | wait (c : Nat)
  | blocked (c : Nat)
  | update (c : Nat) (status : Int) (res : Option Int)
  | helpers (c : Nat)
  | drain
  | returned
deriving DecidableEq, Repr

/-- The job table is `old` followed by the entry under construction; `born`
lists every pid that was ever forked. -/
structure St where
  kids : Int → Option Child
  born : List Int
  old : List Job
  job : Option Job
  pids : List Int
  pc : Pc
  handler : Bool
  released : Bool

/-- The arguments of `add_job` at the end of the fork loop. -/
def Plan.newJob (pl : Plan) (pids : List Int) : NewJob :=
  ⟨pl.job_id, pids.headD (-1), pids.zip (pl.stages.map (fun name => name.getD "")), pl.bg,
    some pl.cmd⟩

/-- `update_state(pid, status)` on the table. -/
def St.record (p st : Int) (s : St) : St :=
  { s with old := Shell.record p st s.old, job := s.job.map (Job.record p st) }

/-- The kernel forgets what it has just reported. -/
def St.setChild (p : Int) (k : Child) (s : St) : St :=
  { s with kids := update s.kids p (some k) }

/-- `fork` returned `p`, a pid that no unreaped child has. -/
def St.spawn (p : Int) (s : St) : St :=
  { s with kids := update s.kids p (some ⟨.running, false⟩), born := p :: s.born }

/-- The pid may be given to a new child. -/
def St.free (s : St) (p : Int) : Bool := (s.kids p).all Child.reaped

/-- `waitpid(-1, ..., WNOHANG | WUNTRACED | WCONTINUED)` finds nothing. -/
def St.quiet (s : St) : Bool := s.born.all (fun p => (s.kids p).all (fun k => !k.pending))

/-- The store that follows a store into the job entry. -/
def headerNext : JobField → Pc
  | .job_id => .header .pgid
  | .pgid => .header .num
  | .num => .header .bg
  | .bg => .header .active
  | .active => .header .cmd
  | .cmd => .entry 0 .pid

/-- The store that follows a store into process entry `j`; after the last one
the background case goes on to the release and the foreground case waits. -/
def entryNext (pl : Plan) (j : Nat) : EntryField → Pc
  | .pid => .entry j .name
  | .name => .entry j .state
  | .state => .entry j .exit
  | .exit => .entry j .printed
  | .printed =>
    if j + 1 < pl.stages.length then .entry (j + 1) .pid
    else if pl.bg then .release else .wait 0

/-- The labels of the machine; `garbage` is the content of an unwritten
`status`. -/
inductive Label where
  | fork (p : Int)
  | skip
  | helper (p : Int)
  | addJob
  | store
  | release
  | call (garbage : Int)
  | wake
  | update
  | reapHelper (p : Int)
  | next
  | ret
  | change (p : Int) (r : Real)
  | sigchld (garbage : Int)
  | reap (p : Int)
  | handlerDone
deriving DecidableEq, Repr

/-- What the shell itself does at its control point. -/
def shellStep (pl : Plan) (l : Label) (s : St) : Option St :=
  match l, s.pc with
  | .fork p, .fork c =>
    match pl.stages[c]? with
    | some (some _) =>
      if 0 < p ∧ s.free p then
        some { s.spawn p with pids := s.pids ++ [p], pc := .fork (c + 1) }
      else none
    | _ => none
  | .skip, .fork c =>
    match pl.stages[c]? with
    | some none => some { s with pids := s.pids ++ [-1], pc := .fork (c + 1) }
    | _ => none
  | .helper p, .fork c =>
    if c < pl.stages.length ∧ 0 < p ∧ s.free p then some (s.spawn p) else none
  | .addJob, .fork c =>
    if c = pl.stages.length then some { s with job := some zeroJob, pc := .header .job_id }
    else none
  | .store, .header f =>
    some { s with job := s.job.map ((pl.newJob s.pids).storeField f), pc := headerNext f }
  | .store, .entry j f =>
    some { s with job := s.job.map (Job.storeEntry j ((pl.newJob s.pids).procs.getD j (0, "")) f),
                  pc := entryNext pl j f }
  | .release, .release => some { s with released := true, pc := .returned }
  | .call garbage, .wait c =>
    match s.pids[c]? with
    | none => none
    | some p =>
      if p ≤ 0 then some { s with pc := .helpers c }
      else
        match s.kids p with
        | none => some { s with pc := .update c garbage none }
        | some k =>
          if k.waitable then
            some { s.setChild p { k with pending := false } with
                   pc := .update c k.real.status (some k.real.status) }
          else if k.real.ended then some { s with pc := .update c garbage none }
          else some { s with pc := .blocked c }
  | .wake, .blocked c =>
    match s.pids[c]? with
    | none => none
    | some p =>
      match s.kids p with
      | none => none
      | some k =>
        if k.waitable then
          some { s.setChild p { k with pending := false } with
                 pc := .update c k.real.status (some k.real.status) }
        else none
  | .update, .update c status _ =>
    match s.pids[c]? with
    | none => none
    | some p => some { s.record p status with pc := .helpers c }
  | .reapHelper p, .helpers _ =>
    match s.kids p with
    | none => none
    | some k =>
      if p ∉ s.pids ∧ k.real.ended ∧ k.pending then some (s.setChild p { k with pending := false })
      else none
  -- the waits for feeder and writer end when these have been reaped, or fail
  | .next, .helpers c =>
    some { s with pc := if c + 1 < pl.stages.length then .wait (c + 1) else .drain }
  | .ret, .drain => if s.quiet then some { s with pc := .returned } else none
  | _, _ => none

/-- One step of any of the three parties. While the handler runs the shell
does not. A command blocked on the sync pipe does not change state before it
is released, and the commands of the pipeline are not continued meanwhile. -/
def step (pl : Plan) (l : Label) (s : St) : Option St :=
  match l with
  | .change p r =>
    match s.kids p with
    | none => none
    | some k =>
      if k.real.canBecome r ∧
          (p ∈ s.pids → r ≠ .running ∧ (pl.bg ∧ pl.sync → s.released)) then
        some (s.setChild p ⟨r, true⟩)
      else none
  | .sigchld garbage =>
    if s.handler then none
    else
      some { s with handler := true
                    pc := match s.pc with
                      | .blocked c => .update c garbage none
                      | pc => pc }
  | .reap p =>
    match s.kids p with
    | none => none
    | some k =>
      if (s.handler ∨ s.pc = .drain) ∧ k.pending then
        some ((s.setChild p { k with pending := false }).record p k.real.status)
      else none
  | .handlerDone =>
    if s.handler ∧ s.quiet then some { s with handler := false } else none
  | l => if s.handler then none else shellStep pl l s

variable {p q : Int} {k k' : Child} {l : Label} {s' s : St} {pl : Plan}

lemma St.setChild_self (h : (s.setChild p k').kids p = some k) : k = k' :=
  Option.some.inj (h.symm.trans (update_self ..))

lemma St.setChild_ne (hqp : q ≠ p)
    (h : (s.setChild p k').kids q = some k) : s.kids q = some k :=
  (update_of_ne hqp _ _).symm.trans h

/-- Before the first `fork`: whatever jobs and children are there already. -/
structure Init (s : St) : Prop where
  pc : s.pc = .fork 0
  pids : s.pids = []
  job : s.job = none
  handler : s.handler = false
  released : s.released = false
  born : ∀ p k, s.kids p = some k → p ∈ s.born ∧ 0 < p

/-- The shell right after its start. -/
def St.start : St := ⟨fun _ => none, [], [], none, [], .fork 0, false, false⟩

lemma start_init : Init St.start :=
  ⟨rfl, rfl, rfl, rfl, rfl, nofun⟩

/-! ## What a step can do

Every case of `step`, with its guard and its effect. The invariants below
are proved from this list. -/

inductive Move (pl : Plan) (s : St) : Label → St → Prop where
  | fork {c : Nat} {name : String} {p : Int} (hpc : s.pc = .fork c)
      (hstage : pl.stages[c]? = some (some name)) (hp : 0 < p) (hfree : s.free p = true) :
      Move pl s (.fork p) { s.spawn p with pids := s.pids ++ [p], pc := .fork (c + 1) }
  | skip {c : Nat} (hpc : s.pc = .fork c) (hstage : pl.stages[c]? = some none) :
      Move pl s .skip { s with pids := s.pids ++ [-1], pc := .fork (c + 1) }
  | helper {c : Nat} {p : Int} (hpc : s.pc = .fork c) (hp : 0 < p) (hfree : s.free p = true) :
      Move pl s (.helper p) (s.spawn p)
  | addJob (hpc : s.pc = .fork pl.stages.length) :
      Move pl s .addJob { s with job := some zeroJob, pc := .header .job_id }
  | storeField {f : JobField} (hpc : s.pc = .header f) :
      Move pl s .store
        { s with job := s.job.map ((pl.newJob s.pids).storeField f), pc := headerNext f }
  | storeEntry {j : Nat} {f : EntryField} (hpc : s.pc = .entry j f) :
      Move pl s .store
        { s with job := s.job.map (Job.storeEntry j ((pl.newJob s.pids).procs.getD j (0, "")) f),
                 pc := entryNext pl j f }
  | release (hpc : s.pc = .release) :
      Move pl s .release { s with released := true, pc := .returned }
  | callSkip {c : Nat} {p garbage : Int} (hpc : s.pc = .wait c) (hc : s.pids[c]? = some p)
      (hp : p ≤ 0) : Move pl s (.call garbage) { s with pc := .helpers c }
  | callLost {c : Nat} {p garbage : Int} (hpc : s.pc = .wait c) (hc : s.pids[c]? = some p)
      (hp : 0 < p) (hk : ∀ k, s.kids p = some k → k.reaped = true) :
      Move pl s (.call garbage) { s with pc := .update c garbage none }
  | callReturn {c : Nat} {p garbage : Int} {k : Child} (hpc : s.pc = .wait c)
      (hc : s.pids[c]? = some p) (hp : 0 < p) (hk : s.kids p = some k) (hw : k.waitable = true) :
      Move pl s (.call garbage)
        { s.setChild p { k with pending := false } with
          pc := .update c k.real.status (some k.real.status) }
  | callBlock {c : Nat} {p garbage : Int} (hpc : s.pc = .wait c) (hc : s.pids[c]? = some p)
      (hp : 0 < p) : Move pl s (.call garbage) { s with pc := .blocked c }
  | wake {c : Nat} {p : Int} {k : Child} (hpc : s.pc = .blocked c)
      (hc : s.pids[c]? = some p) (hk : s.kids p = some k) (hw : k.waitable = true) :
      Move pl s .wake
        { s.setChild p { k with pending := false } with
          pc := .update c k.real.status (some k.real.status) }
  | update {c : Nat} {status : Int} {res : Option Int} {p : Int}
      (hpc : s.pc = .update c status res) (hc : s.pids[c]? = some p) :
      Move pl s .update { s.record p status with pc := .helpers c }
  | reapHelper {c : Nat} {p : Int} {k : Child} (hpc : s.pc = .helpers c) (hp : p ∉ s.pids)
      (hk : s.kids p = some k) :
      Move pl s (.reapHelper p) (s.setChild p { k with pending := false })
  | next {c : Nat} (hpc : s.pc = .helpers c) :
      Move pl s .next
        { s with pc := if c + 1 < pl.stages.length then .wait (c + 1) else .drain }
  | ret (hpc : s.pc = .drain) (hquiet : s.quiet = true) :
      Move pl s .ret { s with pc := .returned }
  | change {p : Int} {k : Child} {r : Real} (hk : s.kids p = some k)
      (hr : k.real.canBecome r = true) (hcont : p ∈ s.pids → r ≠ .running)
      (hsync : p ∈ s.pids → pl.bg = true → pl.sync = true → s.released = true) :
      Move pl s (.change p r) (s.setChild p ⟨r, true⟩)
  | interrupt {c : Nat} {garbage : Int} (hpc : s.pc = .blocked c) :
      Move pl s (.sigchld garbage) { s with handler := true, pc := .update c garbage none }
  | sigchld {garbage : Int} (hpc : ∀ c, s.pc ≠ .blocked c) :
      Move pl s (.sigchld garbage) { s with handler := true }
  | reap {p : Int} {k : Child} (hk : s.kids p = some k) (hpend : k.pending = true) :
      Move pl s (.reap p) ((s.setChild p { k with pending := false }).record p k.real.status)
  | handlerDone : Move pl s .handlerDone { s with handler := false }

/-- Every step is one of these moves. -/
lemma Move.of_shellStep (h : shellStep pl l s = some s') : Move pl s l s' := by
  unfold shellStep at h
  split at h
  next p c hpc =>
    split at h
    next hstage =>
      split at h
      next hg => cases h; exact .fork hpc hstage hg.1 hg.2
      · cases h
    · cases h
  next c hpc =>
    split at h
    next hstage => cases h; exact .skip hpc hstage
    · cases h
  next p c hpc =>
    split at h
    next hg => cases h; exact .helper hpc hg.2.1 hg.2.2
    · cases h
  next c hpc =>
    split at h
    next hg => cases h; exact .addJob (hg ▸ hpc)
    · cases h
  next f hpc => cases h; exact .storeField hpc
  next j f hpc => cases h; exact .storeEntry hpc
  next hpc => cases h; exact .release hpc
  next garbage c hpc =>
    split at h
    · cases h
    next p hc =>
      split at h
      next hp => cases h; exact .callSkip hpc hc hp
      next hp =>
        split at h
        next hk => cases h; exact .callLost hpc hc (by omega) (by simp [hk])
        next k hk =>
          split at h
          next hw => cases h; exact .callReturn hpc hc (by omega) hk hw
          next hw =>
            split at h
            next he =>
              cases h
              refine .callLost hpc hc (by omega) ?_
              intro k' hk'
              cases hk.symm.trans hk'
              have hne : k.real ≠ .running := by
                rintro hrun
                simp [hrun, Real.ended] at he
              simp_all [Child.waitable, Child.reaped]
            · cases h; exact .callBlock hpc hc (by omega)
  next c hpc =>
    split at h
    · cases h
    next p hc =>
      split at h
      · cases h
      next k hk =>
        split at h
        next hw => cases h; exact .wake hpc hc hk hw
        · cases h
  next c status res hpc =>
    split at h
    · cases h
    next p hc => cases h; exact .update hpc hc
  next p c hpc =>
    split at h
    · cases h
    next k hk =>
      split at h
      next hg => cases h; exact .reapHelper hpc hg.1 hk
      · cases h
  next c hpc => cases h; exact .next hpc
  next hpc =>
    split at h
    next hq => cases h; exact .ret hpc hq
    · cases h
  · cases h

lemma Move.of_step (h : step pl l s = some s') : Move pl s l s' := by
  unfold step at h
  split at h
  next p r =>
    split at h
    · cases h
    next k hk =>
      split at h
      next hg =>
        cases h
        exact .change hk hg.1 (fun hp => (hg.2 hp).1) (fun hp hb hs => (hg.2 hp).2 ⟨hb, hs⟩)
      · cases h
  next garbage =>
    split at h
    · cases h
    cases h
    split
    next c hpc => exact .interrupt hpc
    next hpc => exact .sigchld hpc
  next p =>
    split at h
    · cases h
    next k hk =>
      split at h
      next hg => cases h; exact .reap hk hg.2
      · cases h
  · split at h
    · cases h; exact .handlerDone
    · cases h
  split at h
  · cases h
  · exact Move.of_shellStep h

end CshellXv6.Shell.Wait
