import CshellXv6.Lib.Descriptors
import CshellXv6.Shell.Structure
import CshellXv6.Shell.Jobs

/-! # `execute`: opening and forking a pipeline

`c-shell/src/execution.c`, from the split at `|` to the release of the sync
pipe: the stages are opened and forked one by one, and every failure returns
at once, after some cleanup of its own. The wait loop of a foreground
pipeline, which comes next, is in `Wait`.

The outcome of every system call is a parameter (`Env`). The state is the
descriptor table of the shell and the processes forked so far; each of these
is kept with the table it inherits and with the variables of `execute` it
finds, from which follows what it closes afterwards.
-/

namespace CshellXv6.Shell

open Lib List

/-! ## Descriptors -/

/-- The pipes that one call of `execute` creates: `sync_pipe`, and for stage
`c` the pipe to the next stage (`fd`), the one of the feeder (`pipefd`) and
the one of the writer (`out_pipefd`). -/
inductive PipeId where
  | sync
  | stage (c : Nat)
  | feeder (c : Nat)
  | out (c : Nat)
deriving DecidableEq, Repr

/-- The files that one call of `execute` opens: the input and output files of
stage `c`, by their index, and `/dev/null`. -/
inductive FileId where
  | input (c i : Nat)
  | output (c i : Nat)
  | null
deriving DecidableEq, Repr

/-- What a descriptor refers to: something that was open before the call, a
file opened by the call, or an end of one of its pipes. -/
inductive Desc where
  | other (id : Nat)
  | file (f : FileId)
  | readEnd (k : PipeId)
  | writeEnd (k : PipeId)
deriving DecidableEq, Repr

/-- The outcomes of the system calls, by stage; for `open` also by the index
of the redirection. A `fork` returns the child's pid or fails. -/
structure Env where
  syncPipe : Bool
  stagePipe : Nat → Bool
  openIn : Nat → Nat → Bool
  openOut : Nat → Nat → Bool
  path : Nat → Bool
  feederPipe : Nat → Bool
  feederFork : Nat → Option Int
  outPipe : Nat → Bool
  writerFork : Nat → Option Int
  fork : Nat → Option Int

/-- Every call succeeds; the pids tell the kinds of children apart. -/
def Env.fine : Env where
  syncPipe := true
  stagePipe _ := true
  openIn _ _ := true
  openOut _ _ := true
  path _ := true
  feederPipe _ := true
  feederFork c := some (200 + c)
  outPipe _ := true
  writerFork c := some (300 + c)
  fork c := some (100 + c)

/-- The two ends of a pipe, if there is one. -/
abbrev PipeFds := Option (Nat × Nat)

/-- `pipe()`: both ends take the lowest free slots, or the two variables stay
`-1`, which is `none` here. -/
def openPipe (k : PipeId) (ok : Bool) (t : Table Desc) : PipeFds × Table Desc :=
  if ok then
    (some (t.fresh, (t.alloc (.readEnd k)).fresh), (t.alloc (.readEnd k)).alloc (.writeEnd k))
  else (none, t)

/-- `close` on both ends; on `-1` it does nothing. -/
def closePair (fds : PipeFds) (t : Table Desc) : Table Desc :=
  match fds with
  | none => t
  | some (r, w) => (t.close r).close w

/-- The result of an `open` loop: whether all went well, the descriptors
opened, and the table. -/
structure Opened where
  ok : Bool
  fds : List Nat
  table : Table Desc
deriving DecidableEq, Repr

/-- `for i: stored[i] = open(...)`, up to the first failure. -/
def openAll (ok : Nat → Bool) (name : Nat → FileId) : Nat → Nat → Table Desc → Opened
  | _, 0, t => ⟨true, [], t⟩
  | i, m + 1, t =>
    if ok i then
      let rest := openAll ok name (i + 1) m (t.alloc (.file (name i)))
      { rest with fds := t.fresh :: rest.fds }
    else ⟨false, [], t⟩

/-! ## Processes -/

/-- The three kinds of children. -/
inductive Role where
  | feeder | writer | command
deriving DecidableEq, Repr

/-- The descriptor variables of `execute` at a `fork`. -/
structure Locals where
  sync : PipeFds
  in_fd : Nat
  fd : PipeFds
  stored : List Nat
  out_stored : List Nat
  pipefd : PipeFds
  out_pipefd : PipeFds
deriving DecidableEq, Repr

/-- A forked process with the table it inherits. -/
structure Forked where
  role : Role
  stage : Nat
  pid : Int
  vars : Locals
  fds : Table Desc
deriving DecidableEq, Repr

/-- Close the first end of a pipe, if there is one. -/
def closeRead (fds : PipeFds) (t : Table Desc) : Table Desc :=
  match fds with
  | none => t
  | some (r, _) => t.close r

/-- Close the second end of a pipe, if there is one. -/
def closeWrite (fds : PipeFds) (t : Table Desc) : Table Desc :=
  match fds with
  | none => t
  | some (_, w) => t.close w

/-- A background command first reads `sync_pipe[0]` up to end of file, having
closed `sync_pipe[1]` only. -/
def Forked.blockedFds (p : Forked) : Table Desc := closeWrite p.vars.sync p.fds

/-- What a background command does once it is released: it closes the sync
pipe, and without any input it reads from `/dev/null`. -/
def Forked.releasedFds (devNull : Bool) (p : Forked) : Table Desc :=
  let t := closeRead p.vars.sync p.blockedFds
  if p.vars.stored = [] ∧ p.vars.in_fd = 0 ∧ devNull = true then
    ((t.alloc (.file .null)).dup2 t.fresh 0).close t.fresh
  else t

/-- The standard input of a command: its file, the feeder's pipe, or the pipe
from the stage before. -/
def redirectIn (v : Locals) (t : Table Desc) : Table Desc :=
  match v.stored with
  | [] => if v.in_fd ≠ 0 then t.dup2 v.in_fd 0 else t
  | [s] => t.dup2 s 0
  | _ =>
    match v.pipefd with
    | none => t
    | some (r, w) => ((t.dup2 r 0).close r).close w

/-- The standard output of a command: its file, the writer's pipe, or the pipe
to the next stage. -/
def redirectOut (v : Locals) (t : Table Desc) : Table Desc :=
  match v.out_stored with
  | [] =>
    match v.fd with
    | none => t
    | some (_, w) => t.dup2 w 1
  | [s] => t.dup2 s 1
  | _ =>
    match v.out_pipefd with
    | none => t
    | some (r, w) => ((t.dup2 w 1).close r).close w

/-- `if (in_fd != STDIN_FILENO) close(in_fd)`. -/
def closeIn (v : Locals) (t : Table Desc) : Table Desc :=
  if v.in_fd ≠ 0 then t.close v.in_fd else t

/-- The table with which a command comes to `execv`. -/
def Forked.execFds (bg devNull : Bool) (p : Forked) : Table Desc :=
  let t := if bg then p.releasedFds devNull else p.fds
  (((closePair p.vars.fd (closeIn p.vars (redirectOut p.vars (redirectIn p.vars t)))).closeAll
    p.vars.stored).closeAll p.vars.out_stored)

/-! ## One stage -/

/-- The early returns of `execute`. -/
inductive ExecError where
  | emptyStage
  | pipe
  | dangling
  | noInput
  | noOutput
  | notFound (name : String)
  | fork
deriving DecidableEq, Repr

/-- A leading `%` of the command name is dropped. -/
def commandName (cmd : String) : String :=
  if cmd.toList.head? = some '%' then String.ofList cmd.toList.tail else cmd

/-- What is printed to `stderr`; `pipe` and `fork` go through `perror`. -/
def ExecError.message : ExecError → String
  | .emptyStage => "cshell: syntax error near unexpected token `|`\n"
  | .pipe => "pipe error"
  | .dangling => "cshell: syntax error\n"
  | .noInput => "cshell: no such file or directory\n"
  | .noOutput => "cshell: unable to create file for writing\n"
  | .notFound name => "cshell: command not found (" ++ name ++ ")\n"
  | .fork => "fork error"

/-- A stage before its forks: it has no command word and is skipped, or its
files are open. -/
inductive Prepared where
  | skip (t : Table Desc)
  | ready (cmd : String) (v : Locals) (t : Table Desc)
deriving DecidableEq, Repr

/-- A stage up to `path(cmd)`. An error comes with the table as the stage's
own cleanup leaves it. -/
def prepare (env : Env) (n c : Nat) (sync : PipeFds) (in_fd : Nat)
    (words : List Token) (t : Table Desc) : Except (ExecError × Table Desc) Prepared :=
  if words = [] then .error (.emptyStage, t)
  else if c + 1 < n ∧ env.stagePipe c = false then .error (.pipe, t)
  else
    let piped := openPipe (.stage c) (c + 1 < n) t
    let s := scanText words
    if s.scanned = false then .error (.dangling, piped.2)
    else
      match s.arg with
      | [] => .ok (.skip piped.2)
      | cmd :: _ =>
        let ins := openAll (env.openIn c) (.input c) 0 s.files.length piped.2
        if ins.ok = false then .error (.noInput, ins.table.closeAll ins.fds)
        else
          let outs := openAll (env.openOut c) (.output c) 0 s.out_files.length ins.table
          if outs.ok = false then
            .error (.noOutput, (outs.table.closeAll ins.fds).closeAll outs.fds)
          else if env.path c = false then
            .error (.notFound (commandName cmd), (outs.table.closeAll ins.fds).closeAll outs.fds)
          else
            .ok (.ready (commandName cmd) ⟨sync, in_fd, piped.1, ins.fds, outs.fds, none, none⟩
              outs.table)

/-- The state of the loop over the stages. -/
structure Loop where
  fds : Table Desc
  in_fd : Nat
  pids : List Int
  names : List String
  procs : List Forked
deriving DecidableEq, Repr

/-- `fork`: on success the child joins the list. -/
def forkChild (role : Role) (c : Nat) (pid : Option Int) (v : Locals) (t : Table Desc)
    (procs : List Forked) : List Forked :=
  match pid with
  | none => procs
  | some pid => procs ++ [⟨role, c, pid, v, t⟩]

/-- The feeder: a pipe and a child, when there are several input files. The
result of `pipe` and that of `fork` are not checked. -/
def startFeeder (env : Env) (c : Nat) (v : Locals) (t : Table Desc) (procs : List Forked) :
    Locals × Table Desc × List Forked :=
  if 1 < v.stored.length then
    let piped := openPipe (.feeder c) (env.feederPipe c) t
    let v' := { v with pipefd := piped.1 }
    (v', piped.2, forkChild .feeder c (env.feederFork c) v' piped.2 procs)
  else (v, t, procs)

/-- The writer: a pipe and a child, when there are several output files. -/
def startWriter (env : Env) (c : Nat) (v : Locals) (t : Table Desc) (procs : List Forked) :
    Locals × Table Desc × List Forked :=
  if 1 < v.out_stored.length then
    let piped := openPipe (.out c) (env.outPipe c) t
    let v' := { v with out_pipefd := piped.1 }
    (v', piped.2, forkChild .writer c (env.writerFork c) v' piped.2 procs)
  else (v, t, procs)

/-- What the shell closes after the `fork` of a command. -/
def closeAfterFork (v : Locals) (t : Table Desc) : Table Desc :=
  closeWrite v.fd (closeIn v
    (((closePair v.out_pipefd (closePair v.pipefd t)).closeAll v.stored).closeAll v.out_stored))

/-- The forks of a stage. -/
def forkStage (env : Env) (c : Nat) (cmd : String) (v : Locals) (t : Table Desc) (st : Loop) :
    Except (ExecError × Loop) Loop :=
  let fed := startFeeder env c v t st.procs
  let written := startWriter env c fed.1 fed.2.1 fed.2.2
  match env.fork c with
  | none => .error (.fork, { st with fds := written.2.1, procs := written.2.2 })
  | some pid =>
    .ok { fds := closeAfterFork written.1 written.2.1
          in_fd := match written.1.fd with
            | none => st.in_fd
            | some (r, _) => r
          pids := st.pids ++ [pid]
          names := st.names ++ [cmd]
          procs := written.2.2 ++ [⟨.command, c, pid, written.1, written.2.1⟩] }

/-- One round of the loop over the stages. -/
def runStage (env : Env) (n : Nat) (sync : PipeFds) (c : Nat) (words : List Token)
    (st : Loop) : Except (ExecError × Loop) Loop :=
  match prepare env n c sync st.in_fd words st.fds with
  | .error (e, t) => .error (e, { st with fds := t })
  | .ok (.skip t) =>
    -- `continue`: `cmd_names[c]` stays unwritten
    .ok { st with fds := t, pids := st.pids ++ [-1], names := st.names ++ [""] }
  | .ok (.ready cmd v t) => forkStage env c cmd v t st

/-! ## The pipeline -/

/-- The loop over the stages, from stage `c` on. -/
def runStages (env : Env) (n : Nat) (sync : PipeFds) :
    Nat → List (List Token) → Loop → Except (ExecError × Loop) Loop
  | _, [], st => .ok st
  | c, words :: stages, st =>
    match runStage env n sync c words st with
    | .error e => .error e
    | .ok st' => runStages env n sync (c + 1) stages st'

/-- What `execute` works on: the shell's descriptors, the job table and the
next job id. -/
structure ShellState where
  fds : Table Desc
  jobs : List Job
  prs_id : Int
deriving DecidableEq, Repr

/-- A shell with its standard streams open. -/
def ShellState.start : ShellState :=
  ⟨[some (.other 0), some (.other 1), some (.other 2)], [], 1⟩

/-- `execute` returned 0 after an error, or it forked the whole pipeline.
`procs` are the processes this call forked. -/
inductive Executed where
  | failed (e : ExecError) (sh : ShellState) (procs : List Forked)
  | launched (sh : ShellState) (procs : List Forked)
deriving DecidableEq, Repr

/-- The stages of a command line: the split at `|`, by `strcmp`. -/
def stagesOf (input : List Token) : List (List Token) :=
  input.splitOnP (fun t => t.textType = .pipe)

/-- `sync_pipe` is created for a background pipeline only. -/
def openSync (env : Env) (bg : Bool) (t : Table Desc) : PipeFds × Table Desc :=
  openPipe .sync (bg && env.syncPipe) t

/-- `execute`, up to its wait loop. -/
def execute (env : Env) (input : List Token) (bg : Bool) (sh : ShellState) : Executed :=
  if input = [] then .launched sh []
  else
    let synced := openSync env bg sh.fds
    match runStages env (stagesOf input).length synced.1 0 (stagesOf input)
      ⟨synced.2, 0, [], [], []⟩ with
    -- every early return closes the sync pipe
    | .error (e, st) => .failed e { sh with fds := closePair synced.1 st.fds } st.procs
    | .ok st =>
      .launched
        { fds := closePair synced.1 st.fds
          jobs := add_job ⟨sh.prs_id, st.pids.headD (-1), st.pids.zip st.names, bg,
            some (" ".intercalate (input.map Token.val))⟩ sh.jobs
          prs_id := sh.prs_id + 1 } st.procs

/-! ## What each part does to the table -/

/-- The slot is one of the two ends. -/
def InPair (x : Nat) (fds : PipeFds) : Prop := ∃ r w, fds = some (r, w) ∧ (x = r ∨ x = w)

variable {x c : Nat} {fds : PipeFds} {t'' t t' : Table Desc} {procs : List Forked}
  {pid : Option Int} {role : Role} {p : Forked} {v : Locals}

lemma not_inPair_none (h : fds = none) : ¬ InPair x fds := by
  rintro ⟨r, w, hrw, -⟩
  rw [h] at hrw
  cases hrw

lemma get_closePair (fds : PipeFds) (t : Table Desc) :
    Table.Closes (InPair · fds) t (closePair fds t) := by
  intro x
  cases fds with
  | none => exact ⟨fun ⟨_, _, hcon, _⟩ => absurd hcon (by simp), fun _ => rfl⟩
  | some fds =>
    rcases fds with ⟨r, w⟩
    rw [closePair, Table.get_close, Table.get_close]
    constructor
    · rintro ⟨r', w', heq, hx⟩
      cases heq
      rcases hx with rfl | rfl <;> simp
    intro hx
    have hr : x ≠ r := fun h => hx ⟨r, w, rfl, .inl h⟩
    have hw : x ≠ w := fun h => hx ⟨r, w, rfl, .inr h⟩
    rw [if_neg hw, if_neg hr]

/-- Every descriptor open in `t` is open in `t'`, too. -/
def Extends (t t' : Table Desc) : Prop := ∀ x d, t.get x = some d → t'.get x = some d

lemma Extends.trans (h : Extends t t') (h' : Extends t' t'') :
    Extends t t'' := fun x d hx => h' x d (h x d hx)

/-- What `pipe` did: nothing, or two fresh descriptors. -/
inductive Piped (k : PipeId) (t : Table Desc) : PipeFds → Table Desc → Prop where
  | failed : Piped k t none t
  | opened {r w : Nat} {t' : Table Desc} (hr : t.get r = none) (hw : t.get w = none) (hne : r ≠ w)
      (hget : ∀ x, t'.get x =
        if x = w then some (.writeEnd k) else if x = r then some (.readEnd k) else t.get x) :
      Piped k t (some (r, w)) t'

lemma openPipe_piped (k : PipeId) (ok : Bool) (t : Table Desc) :
    Piped k t (openPipe k ok t).1 (openPipe k ok t).2 := by
  cases ok with
  | false => exact .failed
  | true =>
    have hr := Table.get_fresh t
    have hne : t.fresh ≠ (t.alloc (.readEnd k)).fresh :=
      Table.ne_fresh (d := .readEnd k) (by rw [Table.get_alloc, if_pos rfl])
    have hw : t.get (t.alloc (.readEnd k)).fresh = none := by
      have hfresh := Table.get_fresh (t.alloc (.readEnd k))
      rwa [Table.get_alloc, if_neg hne.symm] at hfresh
    refine .opened hr hw hne (fun x => ?_)
    show ((t.alloc (.readEnd k)).alloc (.writeEnd k)).get x = _
    rw [Table.get_alloc, Table.get_alloc]

lemma openPipe_isSome (k : PipeId) (ok : Bool) (t : Table Desc) :
    (openPipe k ok t).1.isSome = ok := by
  cases ok <;> rfl

namespace Piped

variable {k : PipeId} {t t' : Table Desc} {fds : PipeFds}

lemma keeps (h : Piped k t fds t') : Extends t t' := by
  intro x d hx
  cases h with
  | failed => exact hx
  | opened hr hw hne hget =>
    rw [hget, if_neg, if_neg, hx]
    · rintro rfl
      rw [hr] at hx
      cases hx
    rintro rfl
    rw [hw] at hx
    cases hx

/-- Outside the two new slots nothing changed. -/
lemma get_of_not_inPair (h : Piped k t fds t') (hx : ¬ InPair x fds) : t'.get x = t.get x := by
  cases h with
  | failed => rfl
  | @opened r w t' hr hw hne hget =>
    rw [hget, if_neg, if_neg]
    · exact fun h => hx ⟨r, w, rfl, .inl h⟩
    · exact fun h => hx ⟨r, w, rfl, .inr h⟩

lemma get_of_inPair (h : Piped k t fds t') (hx : InPair x fds) :
    t.get x = none ∧ ∃ d, t'.get x = some d := by
  rcases hx with ⟨r, w, rfl, hx⟩
  cases h with
  | opened hr hw hne hget =>
    rcases hx with rfl | rfl
    · exact ⟨hr, .readEnd k, by rw [hget, if_neg hne, if_pos rfl]⟩
    · exact ⟨hw, .writeEnd k, by rw [hget, if_pos rfl]⟩

/-- Closing a pipe undoes its creation. -/
lemma close_same (h : Piped k t fds t') : Table.Same (closePair fds t') t := by
  intro x
  by_cases hx : InPair x fds
  · rw [(get_closePair fds t' x).1 hx, (h.get_of_inPair hx).1]
  · rw [(get_closePair fds t' x).2 hx, h.get_of_not_inPair hx]

end Piped

/-- What an `open` loop did: fresh descriptors for files. -/
structure Filed (name : Nat → FileId) (t : Table Desc) (fds : List Nat) (t' : Table Desc) :
    Prop where
  fresh : ∀ x ∈ fds, t.get x = none
  get : ∀ x ∉ fds, t'.get x = t.get x
  file : ∀ (k x : Nat), fds[k]? = some x → t'.get x = some (.file (name k))

lemma openAll_filed (ok : Nat → Bool) (name : Nat → FileId) (i m : Nat) (t : Table Desc) :
    Filed (fun k => name (i + k)) t (openAll ok name i m t).fds (openAll ok name i m t).table := by
  induction m generalizing i t with
  | zero => exact ⟨by simp [openAll], by simp [openAll], by simp [openAll]⟩
  | succ m ih =>
    rw [openAll]
    split
    · have hrest := ih (i + 1) (t.alloc (.file (name i)))
      have hfirst : t.fresh ∉ (openAll ok name (i + 1) m (t.alloc (.file (name i)))).fds := by
        intro hmem
        have hnone := hrest.fresh _ hmem
        rw [Table.get_alloc, if_pos rfl] at hnone
        cases hnone
      refine ⟨fun x hx => ?_, fun x hx => ?_, fun k x hk => ?_⟩
      · rcases mem_cons.mp hx with rfl | hx
        · exact Table.get_fresh t
        have hnone := hrest.fresh x hx
        rw [Table.get_alloc] at hnone
        split at hnone
        · cases hnone
        · exact hnone
      · obtain ⟨hne, hx⟩ := not_or.mp fun h => hx (mem_cons.mpr h)
        have hget := hrest.get x hx
        rwa [Table.get_alloc, if_neg hne] at hget
      cases k with
      | zero =>
        have hx : t.fresh = x := Option.some.inj hk
        have hget := hrest.get _ hfirst
        rwa [Table.get_alloc, if_pos rfl, hx] at hget
      | succ k =>
        have hget := hrest.file k x hk
        rwa [Nat.add_right_comm] at hget
    · exact ⟨by simp, by simp, by simp⟩

/-- The loop succeeds when every `open` does; it then opens them all. -/
lemma openAll_ok_iff (ok : Nat → Bool) (name : Nat → FileId) (i m : Nat) (t : Table Desc) :
    (openAll ok name i m t).ok = true ↔ ∀ j < m, ok (i + j) = true := by
  induction m generalizing i t with
  | zero => simp [openAll]
  | succ m ih =>
    rw [openAll]
    split
    next hi =>
      rw [show (_ : Opened).ok =
        (openAll ok name (i + 1) m (t.alloc (.file (name i)))).ok from rfl, ih]
      constructor
      · intro h j hj
        cases j with
        | zero => exact hi
        | succ j =>
          have hok := h j (by omega)
          rwa [Nat.add_right_comm] at hok
      · intro h j hj
        have hok := h (j + 1) (by omega)
        rwa [← Nat.add_assoc, Nat.add_right_comm] at hok
    next hi =>
      constructor
      · exact nofun
      · exact fun h => absurd (h 0 (by omega)) hi

lemma openAll_length (ok : Nat → Bool) (name : Nat → FileId) (i m : Nat) (t : Table Desc)
    (h : (openAll ok name i m t).ok = true) : (openAll ok name i m t).fds.length = m := by
  induction m generalizing i t with
  | zero => rfl
  | succ m ih =>
    rw [openAll] at h ⊢
    split at h
    next hi =>
      rw [if_pos hi]
      exact congrArg (· + 1) (ih (i + 1) (t.alloc (.file (name i))) h)
    · cases h

section Filed

variable {name name' : Nat → FileId} {t t' t'' : Table Desc} {fds fds' : List Nat}

lemma Filed.keeps (h : Filed name t fds t') : Extends t t' := by
  intro x d hx
  rw [h.get, hx]
  intro hmem
  rw [h.fresh x hmem] at hx
  cases hx

/-- A slot of a file holds that file. -/
lemma Filed.get_mem (h : Filed name t fds t') (hx : x ∈ fds) : ∃ f, t'.get x = some (.file f) := by
  obtain ⟨k, hk⟩ := mem_iff_getElem?.mp hx
  exact ⟨name k, h.file k x hk⟩

/-- Closing the files undoes the loop. -/
lemma Filed.close_same (h : Filed name t fds t') : Table.Same (t'.closeAll fds) t := by
  intro x
  rw [Table.get_closeAll]
  split
  next hx => rw [h.fresh x hx]
  next hx => rw [h.get x hx]

/-- Two loops one after the other, both undone. -/
lemma Filed.close_same_two (h : Filed name t fds t') (h' : Filed name' t' fds' t'') :
    Table.Same ((t''.closeAll fds).closeAll fds') t := by
  intro x
  rw [Table.get_closeAll, Table.get_closeAll]
  by_cases hx : x ∈ fds
  · simp [hx, h.fresh x hx]
  by_cases hx' : x ∈ fds'
  · have hnone := h'.fresh x hx'
    rw [h.get x hx] at hnone
    simp [hx', hnone]
  · rw [if_neg hx', if_neg hx, h'.get x hx', h.get x hx]

end Filed

/-! ## What a stage can do -/

/-- Nothing stops the stage before its forks. -/
structure Startable (env : Env) (c : Nat) (words : List Token) : Prop where
  scanned : (scanText words).scanned = true
  openIn : ∀ i < (scanText words).files.length, env.openIn c i = true
  openOut : ∀ i < (scanText words).out_files.length, env.openOut c i = true
  path : env.path c = true

/-- The pipe to the next stage is needed and cannot be created. -/
def PipeFails (env : Env) (n c : Nat) : Prop := c + 1 < n ∧ env.stagePipe c = false

/-- The outcomes of `prepare`. `fd` and `t1` are the pipe to the next stage
and the table with it. -/
inductive PrepareCase (env : Env) (n c : Nat) (sync : PipeFds) (in_fd : Nat)
    (words : List Token) (t : Table Desc) : Except (ExecError × Table Desc) Prepared → Prop where
  | early {e : ExecError} (h : words = [] ∨ PipeFails env n c) :
      PrepareCase env n c sync in_fd words t (.error (e, t))
  | stopped {e : ExecError} {fd : PipeFds} {t1 t' : Table Desc}
      (hlate : ¬ (words = [] ∨ PipeFails env n c)) (hpiped : Piped (.stage c) t fd t1)
      (hfd : fd.isSome = decide (c + 1 < n)) (hsame : Table.Same t' t1)
      (harg : (scanText words).scanned = true →
        (scanText words).arg ≠ [])
      (hnot : ¬ Startable env c words) :
      PrepareCase env n c sync in_fd words t (.error (e, t'))
  | skip {fd : PipeFds} {t1 : Table Desc}
      (hlate : ¬ (words = [] ∨ PipeFails env n c)) (hpiped : Piped (.stage c) t fd t1)
      (hfd : fd.isSome = decide (c + 1 < n)) (harg : (scanText words).arg = []) :
      PrepareCase env n c sync in_fd words t (.ok (.skip t1))
  | ready {cmd : String} {v : Locals} {t1 t2 t3 : Table Desc}
      (hlate : ¬ (words = [] ∨ PipeFails env n c)) (hpiped : Piped (.stage c) t v.fd t1)
      (hfd : v.fd.isSome = decide (c + 1 < n)) (hins : Filed (.input c) t1 v.stored t2)
      (houts : Filed (.output c) t2 v.out_stored t3)
      (hinlen : v.stored.length = (scanText words).files.length)
      (houtlen : v.out_stored.length = (scanText words).out_files.length)
      (hsync : v.sync = sync) (hin : v.in_fd = in_fd) (hpipefd : v.pipefd = none)
      (hout : v.out_pipefd = none) (harg : (scanText words).arg ≠ [])
      (hstart : Startable env c words) :
      PrepareCase env n c sync in_fd words t (.ok (.ready cmd v t3))

lemma prepare_case (env : Env) (n c : Nat) (sync : PipeFds) (in_fd : Nat)
    (words : List Token) (t : Table Desc) :
    PrepareCase env n c sync in_fd words t (prepare env n c sync in_fd words t) := by
  rw [prepare]
  split
  next hnil => exact .early (.inl hnil)
  next hnil =>
    split
    next hpipe => exact .early (.inr hpipe)
    next hpipe =>
      have hlate : ¬ (words = [] ∨ PipeFails env n c) := not_or.mpr ⟨hnil, hpipe⟩
      have hpiped := openPipe_piped (.stage c) (c + 1 < n) t
      have hfd := openPipe_isSome (.stage c) (c + 1 < n) t
      have hsame : ∀ t' : Table Desc, Table.Same t' t' := fun _ _ => rfl
      dsimp only
      split
      next hscan =>
        refine .stopped hlate hpiped hfd (hsame _) ?_ (fun h => ?_)
        · rw [hscan]
          exact nofun
        · rw [h.scanned] at hscan
          cases hscan
      next hscan =>
        split
        next harg => exact .skip hlate hpiped hfd harg
        next cmd args harg =>
          have harg' : (scanText words).arg ≠ [] := by simp [harg]
          have hins := openAll_filed (env.openIn c) (.input c) 0
            (scanText words).files.length
            (openPipe (.stage c) (c + 1 < n) t).2
          simp only [Nat.zero_add] at hins
          have hinok := openAll_ok_iff (env.openIn c) (.input c) 0
            (scanText words).files.length
            (openPipe (.stage c) (c + 1 < n) t).2
          simp only [Nat.zero_add] at hinok
          split
          next hok =>
            refine .stopped hlate hpiped hfd hins.close_same (fun _ => harg') (fun h => ?_)
            rw [hinok.mpr h.openIn] at hok
            cases hok
          next hok =>
            have houts := openAll_filed (env.openOut c) (.output c) 0
              (scanText words).out_files.length
              (openAll (env.openIn c) (.input c) 0 (scanText words).files.length
                (openPipe (.stage c) (c + 1 < n) t).2).table
            simp only [Nat.zero_add] at houts
            have houtok := openAll_ok_iff (env.openOut c) (.output c) 0
              (scanText words).out_files.length
              (openAll (env.openIn c) (.input c) 0 (scanText words).files.length
                (openPipe (.stage c) (c + 1 < n) t).2).table
            simp only [Nat.zero_add] at houtok
            split
            next hok' =>
              refine .stopped hlate hpiped hfd (hins.close_same_two houts)
                (fun _ => harg') (fun h => ?_)
              rw [houtok.mpr h.openOut] at hok'
              cases hok'
            next hok' =>
              split
              next hpath =>
                refine .stopped hlate hpiped hfd (hins.close_same_two houts)
                  (fun _ => harg') (fun h => ?_)
                rw [h.path] at hpath
                cases hpath
              next hpath =>
                have hok1 := by simpa using hok
                have hok2 := by simpa using hok'
                exact .ready hlate hpiped hfd hins houts
                  (openAll_length _ _ _ _ _ hok1) (openAll_length _ _ _ _ _ hok2) rfl
                  rfl rfl rfl harg' ⟨by simpa using hscan, hinok.mp hok1,
                    houtok.mp hok2, by simpa using hpath⟩

/-- The children that a helper's start adds. -/
lemma mem_forkChild :
    p ∈ forkChild role c pid v t procs ↔
      p ∈ procs ∨ ∃ pid', pid = some pid' ∧ p = ⟨role, c, pid', v, t⟩ := by
  cases pid <;> simp [forkChild]

/-- What the start of a helper does: its pipe, if it is needed and can be
created, and a child, if it is needed and can be forked. -/
structure HelperStarted (role : Role) (k : PipeId) (c : Nat) (needed pipeOk : Bool)
    (pid : Option Int) (t : Table Desc) (procs : List Forked) (fds : PipeFds)
    (v' : Locals) (t' : Table Desc) (procs' : List Forked) : Prop where
  piped : Piped k t fds t'
  isSome : fds.isSome = (needed && pipeOk)
  procs : ∀ p, p ∈ procs' ↔
    p ∈ procs ∨ (needed = true ∧ ∃ pid', pid = some pid' ∧ p = ⟨role, c, pid', v', t'⟩)

lemma startFeeder_started (env : Env) (c : Nat) (v : Locals) (t : Table Desc)
    (procs : List Forked) (hv : v.pipefd = none) :
    ∃ fds, (startFeeder env c v t procs).1 = { v with pipefd := fds } ∧
      HelperStarted .feeder (.feeder c) c (1 < v.stored.length) (env.feederPipe c)
        (env.feederFork c) t procs fds { v with pipefd := fds } (startFeeder env c v t procs).2.1
        (startFeeder env c v t procs).2.2 := by
  unfold startFeeder
  split
  next hlen =>
    refine ⟨_, rfl, openPipe_piped _ _ t, ?_, fun p => ?_⟩
    · rw [openPipe_isSome]
      simp [hlen]
    · simp only [mem_forkChild, hlen, decide_true, true_and]
  next hlen =>
    refine ⟨none, ?_, .failed, ?_, fun p => ?_⟩
    · rw [← hv]
    · simp [hlen]
    · simp [hlen]

lemma startWriter_started (env : Env) (c : Nat) (v : Locals) (t : Table Desc)
    (procs : List Forked) (hv : v.out_pipefd = none) :
    ∃ fds, (startWriter env c v t procs).1 = { v with out_pipefd := fds } ∧
      HelperStarted .writer (.out c) c (1 < v.out_stored.length) (env.outPipe c)
        (env.writerFork c) t procs fds { v with out_pipefd := fds }
        (startWriter env c v t procs).2.1 (startWriter env c v t procs).2.2 := by
  unfold startWriter
  split
  next hlen =>
    refine ⟨_, rfl, openPipe_piped _ _ t, ?_, fun p => ?_⟩
    · rw [openPipe_isSome]
      simp [hlen]
    · simp only [mem_forkChild, hlen, decide_true, true_and]
  next hlen =>
    refine ⟨none, ?_, .failed, ?_, fun p => ?_⟩
    · rw [← hv]
    · simp [hlen]
    · simp [hlen]

/-- A stage that comes to the `fork` of its command, from the table `t` on:
the pipe to the next stage (`t1`), the input files (`t2`), the output files
(`t3`), the feeder (`t4`) and the writer (`t5`). `v` are the variables at the
`fork`. -/
structure Ready (env : Env) (n c : Nat) (sync : PipeFds) (words : List Token)
    (st : Loop) (v : Locals) (t1 t2 t3 t4 t5 : Table Desc) (procs1 procs2 : List Forked) :
    Prop where
  late : ¬ (words = [] ∨ PipeFails env n c)
  piped : Piped (.stage c) st.fds v.fd t1
  fd : v.fd.isSome = decide (c + 1 < n)
  ins : Filed (.input c) t1 v.stored t2
  outs : Filed (.output c) t2 v.out_stored t3
  inlen : v.stored.length = (scanText words).files.length
  outlen : v.out_stored.length = (scanText words).out_files.length
  sync : v.sync = sync
  in_fd : v.in_fd = st.in_fd
  arg : (scanText words).arg ≠ []
  start : Startable env c words
  feeder : HelperStarted .feeder (.feeder c) c (1 < v.stored.length) (env.feederPipe c)
    (env.feederFork c) t3 st.procs v.pipefd { v with out_pipefd := none } t4 procs1
  writer : HelperStarted .writer (.out c) c (1 < v.out_stored.length) (env.outPipe c)
    (env.writerFork c) t4 procs1 v.out_pipefd v t5 procs2

/-- The outcomes of one round of the loop. -/
inductive StageCase (env : Env) (n : Nat) (sync : PipeFds) (c : Nat)
    (words : List Token) (st : Loop) : Except (ExecError × Loop) Loop → Prop where
  | early {e : ExecError} (h : words = [] ∨ PipeFails env n c) :
      StageCase env n sync c words st (.error (e, st))
  | stopped {e : ExecError} {fd : PipeFds} {t1 t' : Table Desc}
      (hlate : ¬ (words = [] ∨ PipeFails env n c)) (hpiped : Piped (.stage c) st.fds fd t1)
      (hfd : fd.isSome = decide (c + 1 < n)) (hsame : Table.Same t' t1)
      (hnot : ¬ Startable env c words) :
      StageCase env n sync c words st (.error (e, { st with fds := t' }))
  | skip {fd : PipeFds} {t1 : Table Desc}
      (hlate : ¬ (words = [] ∨ PipeFails env n c)) (hpiped : Piped (.stage c) st.fds fd t1)
      (hfd : fd.isSome = decide (c + 1 < n)) (harg : (scanText words).arg = []) :
      StageCase env n sync c words st
        (.ok { st with fds := t1, pids := st.pids ++ [-1], names := st.names ++ [""] })
  | forkFails {v : Locals} {t1 t2 t3 t4 t5 : Table Desc} {procs1 procs2 : List Forked}
      (hready : Ready env n c sync words st v t1 t2 t3 t4 t5 procs1 procs2)
      (hfork : env.fork c = none) :
      StageCase env n sync c words st (.error (.fork, { st with fds := t5, procs := procs2 }))
  | forked {cmd : String} {pid : Int} {v : Locals} {t1 t2 t3 t4 t5 : Table Desc}
      {procs1 procs2 : List Forked}
      (hready : Ready env n c sync words st v t1 t2 t3 t4 t5 procs1 procs2)
      (hfork : env.fork c = some pid) :
      StageCase env n sync c words st
        (.ok { fds := closeAfterFork v t5
               in_fd := match v.fd with
                 | none => st.in_fd
                 | some (r, _) => r
               pids := st.pids ++ [pid]
               names := st.names ++ [cmd]
               procs := procs2 ++ [⟨.command, c, pid, v, t5⟩] })

lemma runStage_case (env : Env) (n : Nat) (sync : PipeFds) (c : Nat) (words : List Token)
    (st : Loop) : StageCase env n sync c words st (runStage env n sync c words st) := by
  unfold runStage
  generalize hprep : prepare env n c sync st.in_fd words st.fds = r
  have hcase : PrepareCase env n c sync st.in_fd words st.fds r :=
    hprep ▸ prepare_case env n c sync st.in_fd words st.fds
  cases hcase with
  | early h => exact .early h
  | stopped hlate hpiped hfd hsame harg hnot => exact .stopped hlate hpiped hfd hsame hnot
  | skip hlate hpiped hfd harg => exact .skip hlate hpiped hfd harg
  | @ready cmd v t1 t2 t3 hlate hpiped hfd hins houts hinlen houtlen hsync hin hpipefd hout harg
      hstart =>
      simp only [forkStage]
      rcases startFeeder_started env c v t3 st.procs hpipefd with ⟨pf, hv, hfeeder⟩
      generalize hfed : startFeeder env c v t3 st.procs = fed at hv hfeeder ⊢
      have hout' : fed.1.out_pipefd = none := by rw [hv]; exact hout
      rcases startWriter_started env c fed.1 fed.2.1 fed.2.2 hout' with ⟨wf, hv', hwriter⟩
      generalize startWriter env c fed.1 fed.2.1 fed.2.2 = written at hv' hwriter ⊢
      rw [hv] at hv' hwriter
      have hready : Ready env n c sync words st { v with pipefd := pf, out_pipefd := wf } t1 t2 t3
          fed.2.1 written.2.1 fed.2.2 written.2.2 := by
        refine ⟨hlate, hpiped, hfd, hins, houts, hinlen, houtlen, hsync, hin, harg, hstart, ?_,
          hwriter⟩
        rw [← hout]
        exact hfeeder
      rw [hv']
      split
      next hfork => exact .forkFails hready hfork
      next pid hfork => exact .forked hready hfork

namespace Ready

variable {env : Env} {n c : Nat} {sync : PipeFds} {words : List Token} {st : Loop}
  {v : Locals} {t1 t2 t3 t4 t5 : Table Desc} {procs1 procs2 : List Forked}

/-- Up to the `fork` descriptors are only added. -/
lemma keeps (h : Ready env n c sync words st v t1 t2 t3 t4 t5 procs1 procs2) : Extends st.fds t5 :=
  (((h.piped.keeps.trans h.ins.keeps).trans h.outs.keeps).trans h.feeder.piped.keeps).trans
    h.writer.piped.keeps

/-- The children of the stages before are still there. -/
lemma procs_subset (h : Ready env n c sync words st v t1 t2 t3 t4 t5 procs1 procs2) :
    ∀ p ∈ st.procs, p ∈ procs2 :=
  fun p hp => (h.writer.procs p).mpr (.inl ((h.feeder.procs p).mpr (.inl hp)))

end Ready

end CshellXv6.Shell
