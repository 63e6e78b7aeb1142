import CshellXv6.Lib.Lists
import CshellXv6.Lib.Rules

/-! # The job table

`c-shell/src/activities.c`: the table `jobs[0 .. job_count)`, how `add_job`,
`update_state` and `resume` change it, and what the commands that read it see.
The table is a list; the length of a job's `prs` is its `num`.

`active` is a cached summary of the process states. It is written by
`add_job` and by `update_state` only, and every reader relies on it. The main
result is that it is never stale: `active_iff_live`.
-/

namespace CshellXv6.Shell

open List

/-! ## Data -/

/-- `state` of a process: 0 running, 1 stopped, 2 terminated. -/
inductive PrState where
  | running | stopped | terminated
deriving DecidableEq, Repr

/-- `process`: `exit` tells a normal exit from a death by signal, `printed`
that the end has been reported. -/
structure Process where
  pid : Int
  name : String
  state : PrState
  exit : Bool
  printed : Bool
deriving DecidableEq, Repr

/-- `job`. -/
structure Job where
  job_id : Int
  bg : Bool
  active : Bool
  pgid : Int
  prs : List Process
  cmd : String
deriving DecidableEq, Repr

/-! ## Wait statuses

The macros of `<sys/wait.h>`; `status & 0x7f` is `status % 128` in two's
complement. -/

/-- The conversion of a value in `[0, 256)` to `signed char`. -/
def signedChar (b : Int) : Int := if b < 128 then b else b - 256

def WIFEXITED (status : Int) : Bool := status % 128 = 0
def WIFSIGNALED (status : Int) : Bool := 0 < signedChar (status % 128 + 1) / 2
def WIFSTOPPED (status : Int) : Bool := status % 256 = 127
def WIFCONTINUED (status : Int) : Bool := status = 0xffff

/-- What one wait status does to a process entry. -/
def Process.apply (status : Int) (p : Process) : Process :=
  if WIFEXITED status then { p with state := .terminated, exit := true }
  else if WIFSIGNALED status then { p with state := .terminated, exit := false }
  else if WIFSTOPPED status then { p with state := .stopped }
  else if WIFCONTINUED status then { p with state := .running }
  else p

/-- `for k: if (prs[k].state != 2) flag = 1`. -/
def Job.live (j : Job) : Bool := j.prs.any (fun p => p.state ≠ .terminated)

/-! ## `update_state` -/

/-- The body of the loop over `jobs`: an inactive job is skipped; otherwise
every entry of that pid is updated and `active` is dropped when no process is
left alive. -/
def Job.record (pid status : Int) (j : Job) : Job :=
  if !j.active then j
  else
    let j' := { j with prs := j.prs.map (fun p => if p.pid = pid then p.apply status else p) }
    if j'.live then j' else { j' with active := false }

/-- One event for the whole table. The two branches of `update_state` hold the
same loop. -/
def record (pid status : Int) (jobs : List Job) : List Job :=
  jobs.map (Job.record pid status)

/-- `update_state`: a positive pid is recorded with the given status;
otherwise everything that `waitpid(-1, ...)` returns is recorded. -/
def update_state (in_pid in_status : Int) (waited : List (Int × Int)) (jobs : List Job) :
    List Job :=
  if 0 < in_pid then record in_pid in_status jobs
  else waited.foldl (fun js e => record e.1 e.2 js) jobs

/-! ## `add_job`

A signal handler can run between any two of its stores, so `add_job` is the
list of its stores, applied in order to an entry of the zeroed table. -/

/-- The arguments of `add_job`; `procs` are the first `num` pids and names. -/
structure NewJob where
  job_id : Int
  pgid : Int
  procs : List (Int × String)
  bg : Bool
  cmd : Option String
deriving DecidableEq, Repr

/-- A process entry of the static, zeroed table. -/
def zeroProcess : Process := ⟨0, "", .running, false, false⟩

/-- A job entry of the static, zeroed table. -/
def zeroJob : Job := ⟨0, false, false, 0, [], ""⟩

/-- The fields of a job entry, in the order `add_job` stores them. -/
inductive JobField where
  | job_id | pgid | num | bg | active | cmd
deriving DecidableEq, Repr

/-- The fields of a process entry, in the order `add_job` stores them. -/
inductive EntryField where
  | pid | name | state | exit | printed
deriving DecidableEq, Repr

/-- A store of `add_job` into the job entry. Setting `num` makes the first
`num` process entries part of the job. -/
def NewJob.storeField (a : NewJob) : JobField → Job → Job
  | .job_id, j => { j with job_id := a.job_id }
  | .pgid, j => { j with pgid := a.pgid }
  | .num, j => { j with prs := List.replicate a.procs.length zeroProcess }
  | .bg, j => { j with bg := a.bg }
  | .active, j => { j with active := true }
  | .cmd, j => { j with cmd := a.cmd.getD "" }

/-- A store of `add_job` into one process entry. -/
def Process.storeField (proc : Int × String) : EntryField → Process → Process
  | .pid, p => { p with pid := proc.1 }
  | .name, p => { p with name := proc.2 }
  | .state, p => { p with state := .running }
  | .exit, p => { p with exit := true }
  | .printed, p => { p with printed := false }

/-- The same store, seen from the job: into `prs[j]`. -/
def Job.storeEntry (j : Nat) (proc : Int × String) (f : EntryField) (job : Job) : Job :=
  { job with prs := job.prs.modify j (Process.storeField proc f) }

/-- The stores of the `for` loop of `add_job`, from index `j` on. -/
def entryStores : Nat → List (Int × String) → List (Job → Job)
  | _, [] => []
  | j, proc :: procs =>
    [.pid, .name, .state, .exit, .printed].map (Job.storeEntry j proc) ++ entryStores (j + 1) procs

/-- All stores of `add_job` into the new entry, in program order. -/
def addJobStores (a : NewJob) : List (Job → Job) :=
  [.job_id, .pgid, .num, .bg, .active, .cmd].map a.storeField ++ entryStores 0 a.procs

/-- `add_job`. -/
def add_job (a : NewJob) (jobs : List Job) : List Job :=
  jobs ++ [(addJobStores a).foldl (fun j store => store j) zeroJob]

/-- The entry a process starts with. -/
def freshProcess (p : Int × String) : Process := ⟨p.1, p.2, .running, true, false⟩

/-- The entry stores fill the process entries from left to right. -/
lemma foldl_entryStores (procs : List (Int × String)) (done : List Process) (job : Job)
    (h : job.prs = done ++ List.replicate procs.length zeroProcess) :
    (entryStores done.length procs).foldl (fun j store => store j) job =
      { job with prs := done ++ procs.map freshProcess } := by
  induction procs generalizing done job with
  | nil =>
    cases job
    simp_all [entryStores]
  | cons p procs ih =>
    rcases p with ⟨pid, name⟩
    simp only [entryStores, map_cons, map_nil, cons_append, nil_append,
      foldl_cons, Job.storeEntry, h, length_cons, replicate_succ,
      Lib.modify_length_append, Process.storeField]
    have hdone : done ++ freshProcess (pid, name) :: List.replicate procs.length zeroProcess =
        (done ++ [freshProcess (pid, name)]) ++ List.replicate procs.length zeroProcess := by
      simp
    have hlen : done.length + 1 = (done ++ [freshProcess (pid, name)]).length := by simp
    rw [hlen, ih (done ++ [freshProcess (pid, name)]) _ hdone]
    simp [freshProcess]

/-- The entry that `add_job` leaves in the table. -/
lemma foldl_addJobStores (a : NewJob) :
    (addJobStores a).foldl (fun j store => store j) zeroJob =
      ⟨a.job_id, a.bg, true, a.pgid, a.procs.map freshProcess, a.cmd.getD ""⟩ := by
  rw [addJobStores, foldl_append]
  exact foldl_entryStores a.procs [] _ rfl

/-! ## `resume` -/

/-- The lookup of `resume` and of `ping %n`: the first active job with that
id, as an index into the table. -/
def findJob (job_id : Int) (jobs : List Job) : Option Nat :=
  jobs.findIdx? (fun j => j.active && j.job_id = job_id)

/-- `resume` marks every process that has not terminated as running. -/
def Job.reset (j : Job) : Job :=
  { j with
    prs := j.prs.map (fun p => if p.state ≠ .terminated then { p with state := .running } else p) }

/-- The table after the state reset of `resume %n bg`. -/
def resume_bg (job_id : Int) (jobs : List Job) : List Job :=
  match findJob job_id jobs with
  | none => jobs
  | some i => jobs.modify i (fun j => { j.reset with bg := true })

/-- The table after the state reset of `resume %n fg`. Its wait loop then
calls `update_state` like any other. -/
def resume_fg (job_id : Int) (jobs : List Job) : List Job :=
  match findJob job_id jobs with
  | none => jobs
  | some i => jobs.modify i Job.reset

/-! ## The readers of the table -/

/-- The lines that `print_activities` prints for one job. -/
def Job.activityLines (j : Job) : List String :=
  ("[" ++ toString j.job_id ++ "] pgid " ++ toString j.pgid) ::
    (j.prs.filter (fun p => p.state ≠ .terminated)).map (fun p =>
      "  " ++ toString p.pid ++ " " ++ p.name ++
        (if p.state = .running then " Running" else " Stopped"))

/-- `print_activities`, after its `update_state(-1, 0)`. -/
def print_activities (jobs : List Job) : List String :=
  jobs.flatMap (fun j =>
    if !j.active then [] else if !j.live then [] else j.activityLines)

/-- `stopped`, after its `update_state(-1, 0)`. -/
def stopped (jobs : List Job) : Bool :=
  jobs.any (fun j => j.active && j.prs.any (fun p => p.state = .stopped))

/-- The search of `ping` for a pid: a live entry of an active job. -/
def pingFound (pid : Int) (jobs : List Job) : Bool :=
  jobs.any (fun j => j.active && j.prs.any (fun p => p.pid = pid && p.state ≠ .terminated))

/-- The targets of the `kill` calls of `send_sighup`, in order. -/
def send_sighup (jobs : List Job) : List Int :=
  (jobs.filter (fun j => j.active && 0 < j.pgid)).map (fun j => -j.pgid)

/-! ## The liveness flag -/

/-- The steps of the table. -/
inductive TableStep where
  | add (a : NewJob)
  | update (in_pid in_status : Int) (waited : List (Int × Int))
  | resumeBg (job_id : Int)
  | resumeFg (job_id : Int)
deriving DecidableEq, Repr

/-- A step of the table; `execute` never adds a job without processes. -/
def tableStep : TableStep → List Job → Option (List Job)
  | .add a, jobs => if a.procs = [] then none else some (add_job a jobs)
  | .update in_pid in_status waited, jobs => some (update_state in_pid in_status waited jobs)
  | .resumeBg job_id, jobs => some (resume_bg job_id jobs)
  | .resumeFg job_id, jobs => some (resume_fg job_id jobs)

/-- The flag of a job agrees with its process states. -/
def Job.Consistent (j : Job) : Prop := j.active = j.live

/-- The flag of every job agrees with its process states. -/
def Consistent (jobs : List Job) : Prop := ∀ j ∈ jobs, j.Consistent

lemma Job.record_consistent (pid status : Int) {j : Job} (h : j.Consistent) :
    (j.record pid status).Consistent := by
  unfold Job.record
  cases ha : j.active with
  | false => simpa using h
  | true =>
    simp only [Bool.not_true, Bool.false_eq_true, if_false]
    split
    next hlive => exact hlive.symm
    next hlive => exact (Bool.eq_false_iff.mpr hlive).symm

variable {jobs jobs' : List Job} {l : TableStep}

lemma record_consistent (pid status : Int) (h : Consistent jobs) :
    Consistent (record pid status jobs) := by
  intro j hj
  rcases mem_map.mp hj with ⟨k, hk, rfl⟩
  exact Job.record_consistent pid status (h k hk)

lemma update_state_consistent (in_pid in_status : Int) (waited : List (Int × Int))
    (h : Consistent jobs) : Consistent (update_state in_pid in_status waited jobs) := by
  unfold update_state
  split
  · exact record_consistent in_pid in_status h
  -- the events that `waitpid` returns are recorded one after the other
  induction waited generalizing jobs with
  | nil => exact h
  | cons e waited ih => exact ih (record_consistent e.1 e.2 h)

lemma add_job_consistent (a : NewJob) (hne : a.procs ≠ []) (h : Consistent jobs) :
    Consistent (add_job a jobs) := by
  intro j hj
  rw [add_job, foldl_addJobStores] at hj
  rcases mem_append.mp hj with hj | hj
  · exact h j hj
  rw [mem_singleton.mp hj]
  rcases exists_cons_of_ne_nil hne with ⟨p, ps, hp⟩
  simp [Job.Consistent, Job.live, hp, freshProcess]

/-- A reset changes no flag and terminates or revives no process. -/
lemma Job.reset_live (j : Job) : j.reset.live = j.live := by
  simp only [Job.live, Job.reset, any_map]
  refine congrArg (fun f => j.prs.any f) (funext fun p => ?_)
  cases hs : p.state <;> simp [hs]

/-- Changing one entry keeps the table consistent when it keeps that entry so. -/
lemma modify_consistent (f : Job → Job) (hf : ∀ j : Job, j.Consistent → (f j).Consistent)
    (h : Consistent jobs) (i : Nat) : Consistent (jobs.modify i f) := by
  intro j hj
  rcases mem_iff_getElem?.mp hj with ⟨k, hk⟩
  rw [List.getElem?_modify] at hk
  rcases Option.map_eq_some_iff.mp hk with ⟨j0, hj0, rfl⟩
  have h0 := h j0 (mem_of_getElem? hj0)
  split
  · exact hf j0 h0
  · exact h0

lemma resume_bg_consistent (job_id : Int) (h : Consistent jobs) :
    Consistent (resume_bg job_id jobs) := by
  unfold resume_bg
  split
  · exact h
  · refine modify_consistent _ (fun j hj => ?_) h _
    exact Eq.trans hj (Job.reset_live j).symm

lemma resume_fg_consistent (job_id : Int) (h : Consistent jobs) :
    Consistent (resume_fg job_id jobs) := by
  unfold resume_fg
  split
  · exact h
  · refine modify_consistent _ (fun j hj => ?_) h _
    exact Eq.trans hj (Job.reset_live j).symm

/-- Every step of the table keeps the flags. -/
lemma tableStep_consistent
    (hstep : tableStep l jobs = some jobs') (h : Consistent jobs) : Consistent jobs' := by
  cases l with
  | add a =>
    simp only [tableStep] at hstep
    split at hstep
    · cases hstep
    next hne =>
      cases hstep
      exact add_job_consistent a hne h
  | update in_pid in_status waited =>
    cases hstep
    exact update_state_consistent in_pid in_status waited h
  | resumeBg job_id =>
    cases hstep
    exact resume_bg_consistent job_id h
  | resumeFg job_id =>
    cases hstep
    exact resume_fg_consistent job_id h

/-- With consistent flags, a test that asks for `active` and for something
else may ask for a live process instead. -/
lemma any_active_eq (h : Consistent jobs) (f : Job → Bool) :
    jobs.any (fun j => j.active && f j) = jobs.any (fun j => j.live && f j) := by
  induction jobs with
  | nil => rfl
  | cons j jobs ih =>
    have hj : j.active = j.live := h j (by simp)
    simp only [any_cons, hj, ih (fun k hk => h k (by simp [hk]))]

lemma print_activities_eq (h : Consistent jobs) :
    print_activities jobs = (jobs.filter Job.live).flatMap Job.activityLines := by
  induction jobs with
  | nil => rfl
  | cons j jobs ih =>
    have hj : j.active = j.live := h j (by simp)
    have hjobs := ih (fun k hk => h k (by simp [hk]))
    rw [print_activities] at hjobs ⊢
    rw [flatMap_cons, hjobs, hj, filter_cons]
    cases j.live <;> simp

lemma findJob_eq (h : Consistent jobs) (job_id : Int) :
    findJob job_id jobs = jobs.findIdx? (fun j => j.live && j.job_id = job_id) := by
  induction jobs with
  | nil => rfl
  | cons j jobs ih =>
    have hj : j.active = j.live := h j (by simp)
    have hjobs := ih (fun k hk => h k (by simp [hk]))
    rw [findJob] at hjobs ⊢
    rw [List.findIdx?_cons, List.findIdx?_cons, hj, hjobs]

/-- **`active` is live.** After every sequence of `add_job`, `update_state`
and `resume` steps, a job is active exactly when one of its processes has not
terminated, and `activities`, `stopped`, `resume`, `ping` and `send_sighup`
work on exactly the jobs with a live process. -/
theorem active_iff_live (ls : List TableStep) (jobs : List Job)
    (hrun : Lib.Run tableStep Lib.anyStep [] ls jobs) :
    (∀ j ∈ jobs, j.active = true ↔ ∃ p ∈ j.prs, p.state ≠ .terminated) ∧
      print_activities jobs = (jobs.filter Job.live).flatMap Job.activityLines ∧
      (stopped jobs = true ↔ ∃ j ∈ jobs.filter Job.live, ∃ p ∈ j.prs, p.state = .stopped) ∧
      (∀ job_id, findJob job_id jobs = jobs.findIdx? (fun j => j.live && j.job_id = job_id)) ∧
      (∀ pid, pingFound pid jobs = true ↔
        ∃ j ∈ jobs.filter Job.live, ∃ p ∈ j.prs, p.pid = pid ∧ p.state ≠ .terminated) ∧
      send_sighup jobs =
        ((jobs.filter Job.live).filter (fun j => 0 < j.pgid)).map (fun j => -j.pgid) := by
  have hcons : Consistent jobs :=
    hrun.invariant Consistent (by simp [Consistent])
      (fun _ _ _ _ hstep h => tableStep_consistent hstep h)
  refine ⟨?_, ?_, ?_, ?_, ?_, ?_⟩
  · intro j hj
    rw [hcons j hj]
    simp [Job.live]
  · exact print_activities_eq hcons
  · rw [stopped, any_active_eq hcons]
    simp [and_assoc]
  · exact fun job_id => findJob_eq hcons job_id
  · intro pid
    rw [pingFound, any_active_eq hcons]
    simp [and_assoc]
  rw [send_sighup, filter_filter]
  refine congrArg _ (filter_congr fun j hj => ?_)
  rw [hcons j hj, Bool.and_comm]

/-- A two-stage job whose first process exits, while the second is stopped
and resumed: it is active, for the sake of the second. -/
theorem active_iff_live_pipeline :
    let jobs : List Job := [⟨1, true, true, 100, [⟨100, "cat", .terminated, true, false⟩,
      ⟨101, "wc", .running, true, false⟩], "cat | wc"⟩]
    ∀ j ∈ jobs, j.active = true ↔ ∃ p ∈ j.prs, p.state ≠ .terminated :=
  (active_iff_live
    [.add ⟨1, 100, [(100, "cat"), (101, "wc")], true, some "cat | wc"⟩, .update 100 0 [],
      .update (-1) 0 [(101, 5247)], .resumeBg 1] _ (Lib.Run.of_replay (by decide))).1

end CshellXv6.Shell
