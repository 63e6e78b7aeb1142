import CshellXv6.Lib.Words
import CshellXv6.Shell.Execute
import CshellXv6.Shell.Wait

/-! # A session of the shell

`main` reads a line, cuts it into commands and runs them one after the other:
a pipeline with `execute`, the builtins `resume`, `ping`, `activities`,
`snoop` and `exit` by themselves. All of them share the job table, the
children and the `SIGCHLD` handler of `Wait`; what this file adds is the rest
of the control: the points of `resume` with its `SIGALRM` handler, the lookups
and the `kill` calls, `send_sighup`, and the `update_state(-1, 0)` with which
these commands start and `print_prs` reports.

A step of the machine is a step of the shell at its control point (`Mode`), of
one of the handlers, or of a child. Between two steps of the shell a handler
may run to its end, or a child may change.
-/

namespace CshellXv6.Shell.Session

open Wait

/-! ## Commands -/

/-- The number that a word of digits denotes. -/
def decimal (digits : List Char) : Nat :=
  digits.foldl (fun n c => 10 * n + (c.toNat - '0'.toNat)) 0

/-- A number as `atoi` returns it: `strtol` stops at `LONG_MAX`, and the result is cut to
an `int`. -/
def cut (n : Nat) : Int := Lib.toInt (min n (2 ^ 63 - 1) : Nat)

/-- `atoi` of a word of digits. -/
def atoi (digits : List Char) : Int := cut (decimal digits)

/-- What `resume` and `ping` ask for. `timeout` is 0 without `--timeout`;
`unknown` is a target of `ping` that is neither `%n` nor a pid. -/
inductive Request where
  | resume (job_id : Int) (fg : Bool) (timeout : Int)
  | pingJob (job_id : Int) (sig : Int)
  | pingPid (pid : Int) (sig : Int)
  | unknown
deriving DecidableEq, Repr

/-- The argument checks of `resume`; `none` is `resume: invalid syntax`. -/
def parseResume : List String → Option Request
  | _ :: target :: how :: rest =>
    match target.toList with
    | '%' :: num =>
      if num = [] ∨ num.all Char.isDigit = false then none
      else if how = "bg" then
        if rest = [] then some (.resume (atoi num) false 0) else none
      else if how = "fg" then
        match rest with
        | [] => some (.resume (atoi num) true 0)
        | [option, secs] =>
          if option = "--timeout" ∧ secs.toList.all Char.isDigit ∧ 0 < atoi secs.toList then
            some (.resume (atoi num) true (atoi secs.toList))
          else none
        | _ => none
      else none
    | _ => none
  | _ => none

/-- The argument checks of `ping`; `none` is `ping: invalid syntax`. -/
def parsePing : List String → Option Request
  | [_, target, sig] =>
    if sig.toList = [] ∨ sig.toList.all Char.isDigit = false then none
    else
      match target.toList with
      | '%' :: num =>
        if num = [] ∨ num.all Char.isDigit = false then some .unknown
        else some (.pingJob (atoi num) ((atoi sig.toList).tmod 64))
      | num =>
        if num.all Char.isDigit = false then some .unknown
        else some (.pingPid (atoi num) ((atoi sig.toList).tmod 64))
  | _ => none

/-- The command word of a stage, as `execute` stores it in `cmd_names`. -/
def stageName (words : List Token) : Option String :=
  (scanText words).arg.head?.map commandName

/-- The pipeline that `execute` makes of a command. -/
def plan (c : Command) (sync : Bool) (prs_id : Int) : Plan :=
  ⟨(stagesOf c.input).map stageName, c.bg, sync, prs_id, " ".intercalate (c.input.map Token.val)⟩

/-- The stage where `execute` gives up with a syntax error: an empty one, or
one with a dangling operator. The number of stages when there is none. -/
def badStage (c : Command) : Nat :=
  (stagesOf c.input).findIdx
    (fun words => words.isEmpty || !(scanText words).scanned)

/-! ## Control -/

/-- The signals that the shell sends. -/
inductive Sig where
  | cont | term | hup
  | number (n : Int)
deriving DecidableEq, Repr

/-- What a `kill` is aimed at: the group of the job at an index of the table,
or a pid. -/
inductive Aim where
  | job (i : Nat)
  | pid (p : Int)
deriving DecidableEq, Repr

/-- The variables of `resume` once it has found its job: `job_i`, `fgbg` and
`timeout`. -/
structure Resume where
  job : Nat
  fg : Bool
  timeout : Int
deriving DecidableEq, Repr

/-- Where `resume` stands, after the lookup. `record k pid status` is the
point between the return of `waitpid` and `update_state`; `interrupted k` the
test of `timed_out` after `EINTR`, and `check k` the one after the inner
loop. -/
inductive Point where
  | test (k : Nat)
  | store (k : Nat)
  | arm
  | loop (k : Nat)
  | call (k : Nat)
  | blocked (k : Nat)
  | interrupted (k : Nat)
  | record (k : Nat) (pid status : Int)
  | check (k : Nat)
  | disarm
  | expired
  | report
deriving DecidableEq, Repr

/-- Where the shell stands. `drain next` is an `update_state(-1, 0)` before
`next`, and `signal sig aim next` the point right before a `kill`. In
`execute pl bad` the place is the `pc` of `execute`. -/
inductive Mode where
  | prompt
  | line
  | execute (pl : Plan) (bad : Nat)
  | lookup (req : Request)
  | resume (r : Resume) (stopped : Bool) (pt : Point)
  | signal (sig : Sig) (aim : Aim) (next : Mode)
  | sighup (i : Nat)
  | quit
  | snoop
  | drain (next : Mode)
  | ended
deriving DecidableEq, Repr

/-- The session: children, table and `execute`'s variables (`st`), the globals
`prs_id` and `timed_out`, whether an alarm is set, `main`'s `warning`, the
commands of the line still to be run, and the pid and status that the `waitpid`
of an `update_state(-1, 0)` of the shell has returned and that are still to be
stored (`taken`). -/
structure State where
  st : St
  prs_id : Int
  timed_out : Bool
  alarm : Bool
  warning : Bool
  todo : List Command
  mode : Mode
  taken : Option (Int × Int)

/-- The shell at its first `print_prs`. -/
def State.start : State := ⟨St.start, 1, false, false, false, [], .drain .prompt, none⟩

/-- The job table. -/
def State.jobs (s : State) : List Job := s.st.old ++ s.st.job.toList

/-- `jobs[i].prs[k]`, as `resume` reads it. -/
def State.entry (s : State) (i k : Nat) : Option Process := (s.st.old[i]?).bind (·.prs[k]?)

/-- The first argument of the `kill`. -/
def State.target (s : State) : Aim → Option Int
  | .job i => (s.st.old[i]?).map (fun j => -j.pgid)
  | .pid p => some p

/-- The children that `waitpid(p, ...)` asks about. -/
def State.asked (s : State) (p : Int) : List Int := if p = -1 then s.st.born else [p]

/-- One of them has something to report. -/
def State.returns (s : State) (p : Int) : Bool :=
  (s.asked p).any (fun q => (s.st.kids q).any Child.waitable)

/-- One of them is left. -/
def State.remains (s : State) (p : Int) : Bool :=
  (s.asked p).any (fun q => (s.st.kids q).any (fun k => !k.reaped))

/-! ## Steps of the shell -/

/-- `main` after `getline`: the line is converted, checked and cut. -/
def State.read (text : List Char) (s : State) : Option State :=
  match convert text with
  | .overflow => none
  | .invalid => some { s with warning := false, mode := .drain .prompt }
  | .ok tokens =>
    if tokens ≠ [] ∧ check tokens then
      some { s with warning := false, todo := splitLine Token.textType tokens, mode := .line }
    else some { s with warning := false, mode := .drain .prompt }

/-- What `main` does with a command: where the shell stands next. -/
def dispatch (c : Command) (sync : Bool) (prs_id : Int) : Mode :=
  if c.builtin then
    match (c.input.map Token.val).headD "" with
    | "resume" =>
      match parseResume (c.input.map Token.val) with
      | none => .line
      | some req => .drain (.lookup req)
    | "ping" =>
      match parsePing (c.input.map Token.val) with
      | none => .line
      | some req => .drain (.lookup req)
    | "activities" => .drain .line
    | "exit" => .drain (.sighup 0)
    | "snoop" => .snoop
    -- the other builtins neither look at jobs nor fork
    | _ => .line
  else .execute (plan c sync prs_id) (badStage c)

/-- The loop of `main` over the commands of the line, and the `print_prs`
after it. -/
def State.command (sync : Bool) (s : State) : State :=
  match s.todo with
  | [] => { s with mode := .drain .prompt }
  | c :: todo => { s with todo := todo, mode := dispatch c sync s.prs_id }

/-- What `execute` may do in this session: pid 1 is never a child of the shell,
a bad stage is not passed, and `print_prs` returns when it has stored what it got.
The steps of the children and of the handler are not its own. -/
def State.permits (s : State) (bad : Nat) : Wait.Label → Bool
  | .fork p => 1 < p && s.st.pc ≠ .fork bad
  | .helper p => 1 < p && s.st.pc ≠ .fork bad
  | .skip => s.st.pc ≠ .fork bad
  | .ret => s.taken = none
  | .change _ _ => false
  | .sigchld _ => false
  | .reap _ => false
  | .handlerDone => false
  | _ => true

/-- A step of `execute`; `prs_id` advances with `add_job`. -/
def State.exec (pl : Plan) (bad : Nat) (l : Wait.Label) (s : State) : Option State :=
  if s.permits bad l then
    (shellStep pl l s.st).map (fun st =>
      { s with st := st, prs_id := if l = .addJob then s.prs_id + 1 else s.prs_id })
  else none

/-- `execute` returned: its variables are gone, the job stays in the table. -/
def State.leave (s : State) : State :=
  { s with
    st := { s.st with old := s.jobs, job := none, pids := [], pc := .fork 0, released := false }
    mode := .line }

/-- `execute` returned 0 before `add_job`: what it forked stays unregistered,
and the rest of the line is dropped unless the command was a background one. -/
def State.abandon (bg : Bool) (s : State) : State :=
  { s.leave with todo := if bg then s.todo else [] }

/-- The lookup of `resume` and `ping`. -/
def State.lookup (s : State) : Request → State
  | .resume job_id fg timeout =>
    match findJob job_id s.st.old with
    | none => { s with mode := .line }
    | some i =>
      { s with
        st := { s.st with
          old := if fg then s.st.old else s.st.old.modify i (fun j => { j with bg := true }) }
        mode := .resume ⟨i, fg, timeout⟩ false (.test 0) }
  | .pingJob job_id sig =>
    match findJob job_id s.st.old with
    | none => { s with mode := .line }
    | some i => { s with mode := .signal (.number sig) (.job i) .line }
  | .pingPid pid sig =>
    if pingFound pid s.st.old then { s with mode := .signal (.number sig) (.pid pid) .line }
    else { s with mode := .line }
  | .unknown => { s with mode := .line }

/-- `jobs[i].prs[k].state = 0`. -/
def State.setRunning (i k : Nat) (s : State) : State :=
  { s with st := { s.st with
      old := s.st.old.modify i (fun j =>
        { j with prs := j.prs.modify k (fun e => { e with state := .running }) }) } }

/-- `resume` moves to another point. -/
def State.goto (r : Resume) (stopped : Bool) (pt : Point) (s : State) : State :=
  { s with mode := .resume r stopped pt }

/-- After the `SIGCONT`, `resume bg` is done and `resume fg` goes on. -/
def Resume.resumed (r : Resume) (stopped : Bool) : Mode :=
  if r.fg then .resume r stopped .arm else .line

/-- `resume` after its lookup, apart from a `waitpid` that returns. -/
def State.resume (r : Resume) (stopped : Bool) (s : State) : Point → Option State
  | .test k =>
    match s.entry r.job k with
    | none =>
      some { s with mode := .signal .cont (.job r.job) (r.resumed stopped) }
    | some e =>
      if e.state ≠ .terminated then some (s.goto r stopped (.store k))
      else some (s.goto r stopped (.test (k + 1)))
  | .store k => some ((s.setRunning r.job k).goto r stopped (.test (k + 1)))
  | .arm =>
    if 0 < r.timeout then
      some ({ s with timed_out := false, alarm := true }.goto r stopped (.loop 0))
    else some (s.goto r stopped (.loop 0))
  | .loop k =>
    match s.entry r.job k with
    | none => some (s.goto r stopped .disarm)
    | some e =>
      if e.state = .terminated then some (s.goto r stopped (.loop (k + 1)))
      else some (s.goto r stopped (.call k))
  | .call k =>
    match s.entry r.job k with
    | none => none
    | some e =>
      if s.returns e.pid then none
      else if s.remains e.pid then some (s.goto r stopped (.blocked k))
      -- `ECHILD`
      else some (s.goto r stopped (.check k))
  | .blocked _ => none
  | .interrupted k =>
    if s.timed_out then some (s.goto r stopped .disarm) else some (s.goto r stopped (.call k))
  | .record k pid status =>
    some ({ s with st := s.st.record pid status }.goto r (stopped || WIFSTOPPED status) (.check k))
  | .check k =>
    if s.timed_out then some (s.goto r stopped .disarm)
    else some (s.goto r stopped (.loop (k + 1)))
  | .disarm => some ({ s with alarm := false }.goto r stopped .expired)
  | .expired =>
    if s.timed_out then
      some { s with mode := .signal .term (.job r.job) (.drain (.resume r stopped .report)) }
    else some (s.goto r stopped .report)
  | .report => some { s with mode := .drain .line }

/-- The loop of `send_sighup`. -/
def State.sighup (i : Nat) (s : State) : State :=
  match s.st.old[i]? with
  | none => { s with mode := .ended }
  | some j =>
    if j.active ∧ 0 < j.pgid then { s with mode := .signal .hup (.job i) (.sighup (i + 1)) }
    else { s with mode := .sighup (i + 1) }

/-- End of input: a warning, or `send_sighup`. -/
def State.quit (s : State) : State :=
  if stopped s.st.old ∧ s.warning = false then
    { s with warning := true, mode := .drain .prompt }
  else { s with mode := .drain (.sighup 0) }

/-- The steps that have only one continuation. -/
def State.advance (s : State) : Option State :=
  match s.mode with
  | .lookup req => some (s.lookup req)
  | .resume r stopped pt => s.resume r stopped pt
  | .sighup i => some (s.sighup i)
  | .quit => some s.quit
  | .snoop => some { s with mode := .line }
  | .drain next => if s.st.quiet ∧ s.taken = none then some { s with mode := next } else none
  | _ => none

/-- The `waitpid` of `resume` returns child `q`. -/
def State.wait (r : Resume) (stopped : Bool) (k : Nat) (q : Int) (s : State) : Option State :=
  match s.entry r.job k, s.st.kids q with
  | some e, some c =>
    if q ∈ s.asked e.pid ∧ c.waitable then
      some ({ s with st := s.st.setChild q { c with pending := false } }.goto r stopped
        (.record k q c.real.status))
    else none
  | _, _ => none

/-- The shell is in an `update_state(-1, 0)` of its own. -/
def State.draining (s : State) : Bool :=
  match s.mode with
  | .drain _ => true
  | .execute _ _ => s.st.pc = .drain
  | _ => false

/-- Its `waitpid` returns child `p`. -/
def State.take (p : Int) (s : State) : Option State :=
  match s.st.kids p with
  | none => none
  | some k =>
    if s.draining ∧ s.taken = none ∧ k.pending then
      some { s with
        st := s.st.setChild p { k with pending := false }
        taken := some (p, k.real.status) }
    else none

/-- The labels of the machine. `retry` is a `getline` that failed without end
of input, `spawn` and `collect` the `fork` and the `waitpid` of `snoop`, `take` and
`record` the `waitpid` of an `update_state(-1, 0)` of the shell and its stores, and
`reap` both in the handler. -/
inductive Label where
  | read (text : List Char)
  | eof
  | retry
  | command (sync : Bool)
  | exec (l : Wait.Label)
  | fail
  | finish
  | next
  | kill
  | wait (q : Int)
  | spawn (p : Int)
  | collect (p : Int)
  | take (p : Int)
  | record
  | change (p : Int) (r : Wait.Real)
  | sigchld (garbage : Int)
  | sigalrm
  | reap (p : Int)
  | handlerDone
deriving DecidableEq, Repr

/-- What the shell itself does. -/
def mainStep (l : Label) (s : State) : Option State :=
  match l, s.mode with
  | .read text, .prompt => s.read text
  | .eof, .prompt => some { s with mode := .drain .quit }
  | .retry, .prompt => some { s with warning := false, mode := .drain .prompt }
  | .command sync, .line => some (s.command sync)
  | .exec l, .execute pl bad => s.exec pl bad l
  | .fail, .execute pl _ =>
    match s.st.pc with
    | .fork c => if c < pl.stages.length then some (s.abandon pl.bg) else none
    | _ => none
  | .finish, .execute _ _ => if s.st.pc = .returned then some s.leave else none
  | .kill, .signal _ _ next => some { s with mode := next }
  | .wait q, .resume r stopped (.call k) => s.wait r stopped k q
  | .wait q, .resume r stopped (.blocked k) => s.wait r stopped k q
  | .spawn p, .snoop =>
    if 1 < p ∧ s.st.free p then some { s with st := s.st.spawn p } else none
  | .collect p, .snoop =>
    match s.st.kids p with
    | none => none
    | some k =>
      if k.pending then some { s with st := s.st.setChild p { k with pending := false } } else none
  | .take p, _ => s.take p
  | .record, _ => s.taken.map fun e => { s with st := s.st.record e.1 e.2, taken := none }
  | .next, _ => s.advance
  | _, _ => none

/-- `EINTR`. -/
def Mode.interrupt : Mode → Mode
  | .resume r stopped (.blocked k) => .resume r stopped (.interrupted k)
  | m => m

/-- One step of the shell, of a handler or of a child. While the handler of
`SIGCHLD` runs the shell does not; `SIGALRM` may arrive even then. -/
def step (l : Label) (s : State) : Option State :=
  match l with
  | .change p r =>
    match s.st.kids p with
    | none => none
    | some k =>
      if k.real.canBecome r then some { s with st := s.st.setChild p ⟨r, true⟩ } else none
  | .sigchld garbage =>
    if s.st.handler then none
    else
      some { s with
        st := { s.st with
          handler := true
          pc := match s.st.pc with
            | .blocked c => .update c garbage none
            | pc => pc }
        mode := s.mode.interrupt }
  | .sigalrm =>
    if s.alarm then
      some { s with timed_out := true, alarm := false, mode := s.mode.interrupt }
    else none
  | .reap p =>
    match s.st.kids p with
    | none => none
    | some k =>
      if s.st.handler ∧ k.pending then
        some { s with st := (s.st.setChild p { k with pending := false }).record p k.real.status }
      else none
  | .handlerDone =>
    if s.st.handler ∧ s.st.quiet then some { s with st := { s.st with handler := false } }
    else none
  | l => if s.st.handler then none else mainStep l s

/-! ## What a step can do

Every case of `step`, with its guard and its effect. The steps that leave the
children and the table alone are `Control`. -/

/-- The shell is not in `execute` and not about to enter it. -/
def Mode.calm : Mode → Bool
  | .execute _ _ => false
  | .signal _ _ next => next.calm
  | .drain next => next.calm
  | _ => true

/-- A point of the shell outside `execute` and `resume`, with no `kill` ahead. -/
def Mode.plain : Mode → Bool
  | .execute _ _ => false
  | .resume _ _ _ => false
  | .signal _ _ _ => false
  | .drain next => next.plain
  | _ => true

/-- Such a point that is not in an `update_state(-1, 0)` either. -/
def Mode.resting (m : Mode) : Bool :=
  match m with
  | .drain _ => false
  | m => m.plain

/-- The labels of the steps that leave the children alone. -/
def Label.control : Label → Bool
  | .read _ => true
  | .eof => true
  | .retry => true
  | .command _ => true
  | .next => true
  | .kill => true
  | .sigalrm => true
  | _ => false

inductive Control (s : State) : Label → State → Prop where
  | plain {l : Label} {warning : Bool} {todo : List Command} {m : Mode}
      (hl : l.control = true) (hmode : s.mode.resting = true) (hm : m.plain = true) :
      Control s l { s with warning := warning, todo := todo, mode := m }
  | command {sync : Bool} {c : Command} {todo : List Command} (hmode : s.mode = .line)
      (htodo : s.todo = c :: todo) (hext : c.builtin = false) :
      Control s (.command sync)
        { s with todo := todo, mode := .execute (plan c sync s.prs_id) (badStage c) }
  | foreground {job_id timeout : Int} {i : Nat}
      (hmode : s.mode = .lookup (.resume job_id true timeout))
      (hfind : findJob job_id s.st.old = some i) :
      Control s .next (s.goto ⟨i, true, timeout⟩ false (.test 0))
  | aimJob {job_id sig : Int} {i : Nat} (hmode : s.mode = .lookup (.pingJob job_id sig))
      (hfind : findJob job_id s.st.old = some i) :
      Control s .next { s with mode := .signal (.number sig) (.job i) .line }
  | aimPid {pid sig : Int} (hmode : s.mode = .lookup (.pingPid pid sig))
      (hfound : pingFound pid s.st.old = true) :
      Control s .next { s with mode := .signal (.number sig) (.pid pid) .line }
  | aimHup {i : Nat} {j : Job} (hmode : s.mode = .sighup i) (hj : s.st.old[i]? = some j)
      (hactive : j.active = true) (hpgid : 0 < j.pgid) :
      Control s .next { s with mode := .signal .hup (.job i) (.sighup (i + 1)) }
  | tested {r : Resume} {stopped : Bool} {k : Nat} (hmode : s.mode = .resume r stopped (.test k))
      (he : s.entry r.job k = none) :
      Control s .next { s with mode := .signal .cont (.job r.job) (r.resumed stopped) }
  | testLive {r : Resume} {stopped : Bool} {k : Nat} {e : Process}
      (hmode : s.mode = .resume r stopped (.test k)) (he : s.entry r.job k = some e)
      (hlive : e.state ≠ .terminated) : Control s .next (s.goto r stopped (.store k))
  | testDead {r : Resume} {stopped : Bool} {k : Nat} {e : Process}
      (hmode : s.mode = .resume r stopped (.test k)) (he : s.entry r.job k = some e)
      (hdead : e.state = .terminated) : Control s .next (s.goto r stopped (.test (k + 1)))
  | armed {r : Resume} {stopped : Bool} (hmode : s.mode = .resume r stopped .arm)
      (ht : 0 < r.timeout) :
      Control s .next ({ s with timed_out := false, alarm := true }.goto r stopped (.loop 0))
  | unarmed {r : Resume} {stopped : Bool} (hmode : s.mode = .resume r stopped .arm)
      (ht : ¬ 0 < r.timeout) : Control s .next (s.goto r stopped (.loop 0))
  | loopDone {r : Resume} {stopped : Bool} {k : Nat}
      (hmode : s.mode = .resume r stopped (.loop k)) (he : s.entry r.job k = none) :
      Control s .next (s.goto r stopped .disarm)
  | loopSkip {r : Resume} {stopped : Bool} {k : Nat} {e : Process}
      (hmode : s.mode = .resume r stopped (.loop k)) (he : s.entry r.job k = some e)
      (hdead : e.state = .terminated) : Control s .next (s.goto r stopped (.loop (k + 1)))
  | loopCall {r : Resume} {stopped : Bool} {k : Nat} {e : Process}
      (hmode : s.mode = .resume r stopped (.loop k)) (he : s.entry r.job k = some e)
      (hlive : e.state ≠ .terminated) : Control s .next (s.goto r stopped (.call k))
  | callBlock {r : Resume} {stopped : Bool} {k : Nat} {e : Process}
      (hmode : s.mode = .resume r stopped (.call k)) (he : s.entry r.job k = some e)
      (hret : s.returns e.pid = false) (hrem : s.remains e.pid = true) :
      Control s .next (s.goto r stopped (.blocked k))
  | callLost {r : Resume} {stopped : Bool} {k : Nat} {e : Process}
      (hmode : s.mode = .resume r stopped (.call k)) (he : s.entry r.job k = some e)
      (hrem : s.remains e.pid = false) : Control s .next (s.goto r stopped (.check k))
  | again {r : Resume} {stopped : Bool} {k : Nat}
      (hmode : s.mode = .resume r stopped (.interrupted k)) (ht : s.timed_out = false) :
      Control s .next (s.goto r stopped (.call k))
  | checked {r : Resume} {stopped : Bool} {k : Nat}
      (hmode : s.mode = .resume r stopped (.check k)) (ht : s.timed_out = false) :
      Control s .next (s.goto r stopped (.loop (k + 1)))
  | timedOut {r : Resume} {stopped : Bool} {k : Nat}
      (hmode : s.mode = .resume r stopped (.interrupted k) ∨ s.mode = .resume r stopped (.check k))
      (ht : s.timed_out = true) : Control s .next (s.goto r stopped .disarm)
  | disarm {r : Resume} {stopped : Bool} (hmode : s.mode = .resume r stopped .disarm) :
      Control s .next ({ s with alarm := false }.goto r stopped .expired)
  | expired {r : Resume} {stopped : Bool} (hmode : s.mode = .resume r stopped .expired)
      (ht : s.timed_out = true) :
      Control s .next
        { s with mode := .signal .term (.job r.job) (.drain (.resume r stopped .report)) }
  | inTime {r : Resume} {stopped : Bool} (hmode : s.mode = .resume r stopped .expired)
      (ht : s.timed_out = false) : Control s .next (s.goto r stopped .report)
  | reported {r : Resume} {stopped : Bool} (hmode : s.mode = .resume r stopped .report) :
      Control s .next { s with mode := .drain .line }
  | drained {next : Mode} (hmode : s.mode = .drain next) (htaken : s.taken = none) :
      Control s .next { s with mode := next }
  | kill {sig : Sig} {aim : Aim} {next : Mode} (hmode : s.mode = .signal sig aim next) :
      Control s .kill { s with mode := next }
  | alarm (ha : s.alarm = true) :
      Control s .sigalrm { s with timed_out := true, alarm := false, mode := s.mode.interrupt }

inductive Move (s : State) : Label → State → Prop where
  | exec {pl : Plan} {bad : Nat} {l : Wait.Label} {st : St} (hmode : s.mode = .execute pl bad)
      (hok : s.permits bad l = true) (hmove : Wait.Move pl s.st l st) :
      Move s (.exec l)
        { s with st := st, prs_id := if l = .addJob then s.prs_id + 1 else s.prs_id }
  | fail {pl : Plan} {bad c : Nat} (hmode : s.mode = .execute pl bad) (hpc : s.st.pc = .fork c) :
      Move s .fail (s.abandon pl.bg)
  | finish {pl : Plan} {bad : Nat} (hmode : s.mode = .execute pl bad)
      (hpc : s.st.pc = .returned) : Move s .finish s.leave
  | background {job_id timeout : Int} {i : Nat}
      (hmode : s.mode = .lookup (.resume job_id false timeout))
      (hfind : findJob job_id s.st.old = some i) :
      Move s .next
        { s with
          st := { s.st with old := s.st.old.modify i (fun j => { j with bg := true }) }
          mode := .resume ⟨i, false, timeout⟩ false (.test 0) }
  | store {r : Resume} {stopped : Bool} {k : Nat} (hmode : s.mode = .resume r stopped (.store k)) :
      Move s .next ((s.setRunning r.job k).goto r stopped (.test (k + 1)))
  | record {r : Resume} {stopped : Bool} {k : Nat} {q status : Int}
      (hmode : s.mode = .resume r stopped (.record k q status)) :
      Move s .next
        ({ s with st := s.st.record q status }.goto r (stopped || WIFSTOPPED status) (.check k))
  | wait {r : Resume} {stopped : Bool} {k : Nat} {e : Process} {q : Int} {c : Child}
      (hmode : s.mode = .resume r stopped (.call k) ∨ s.mode = .resume r stopped (.blocked k))
      (he : s.entry r.job k = some e) (hk : s.st.kids q = some c) (hq : q ∈ s.asked e.pid)
      (hw : c.waitable = true) :
      Move s (.wait q)
        ({ s with st := s.st.setChild q { c with pending := false } }.goto r stopped
          (.record k q c.real.status))
  | spawn {p : Int} (hmode : s.mode = .snoop) (hp : 1 < p) (hfree : s.st.free p = true) :
      Move s (.spawn p) { s with st := s.st.spawn p }
  | collect {p : Int} {k : Child} (hmode : s.mode = .snoop) (hk : s.st.kids p = some k)
      (hpend : k.pending = true) :
      Move s (.collect p) { s with st := s.st.setChild p { k with pending := false } }
  | change {p : Int} {k : Child} {r : Wait.Real} (hk : s.st.kids p = some k)
      (hr : k.real.canBecome r = true) :
      Move s (.change p r) { s with st := s.st.setChild p ⟨r, true⟩ }
  | interrupt {c : Nat} {garbage : Int} (hpc : s.st.pc = .blocked c) :
      Move s (.sigchld garbage)
        { s with st := { s.st with handler := true, pc := .update c garbage none }
                 mode := s.mode.interrupt }
  | sigchld {garbage : Int} (hpc : ∀ c, s.st.pc ≠ .blocked c) :
      Move s (.sigchld garbage)
        { s with st := { s.st with handler := true }, mode := s.mode.interrupt }
  | take {p : Int} {k : Child} (hdrain : s.draining = true) (htaken : s.taken = none)
      (hk : s.st.kids p = some k) (hpend : k.pending = true) :
      Move s (.take p)
        { s with
          st := s.st.setChild p { k with pending := false }
          taken := some (p, k.real.status) }
  | recorded {p status : Int} (htaken : s.taken = some (p, status)) :
      Move s .record { s with st := s.st.record p status, taken := none }
  | reap {p : Int} {k : Child} (hrun : s.st.handler = true)
      (hk : s.st.kids p = some k) (hpend : k.pending = true) :
      Move s (.reap p)
        { s with st := (s.st.setChild p { k with pending := false }).record p k.real.status }
  | handlerDone : Move s .handlerDone { s with st := { s.st with handler := false } }
  | control {l : Label} {s' : State} (hctl : Control s l s') : Move s l s'

variable {s s' : State} {l : Label} {req : Request} {r : Resume} {pt : Point} {k bad : Nat}
  {q : Int} {pl : Plan}

/-- The builtin looks for its job. -/
lemma Move.of_lookup (hmode : s.mode = .lookup req) : Move s .next (s.lookup req) := by
  cases req with
  | resume job_id fg timeout =>
    rw [State.lookup]
    split
    · exact .control (.plain rfl (hmode ▸ rfl) rfl)
    next i hfind =>
      cases fg with
      | false => exact .background hmode hfind
      | true => exact .control (.foreground hmode hfind)
  | pingJob job_id sig =>
    rw [State.lookup]
    split
    · exact .control (.plain rfl (hmode ▸ rfl) rfl)
    next i hfind => exact .control (.aimJob hmode hfind)
  | pingPid pid sig =>
    rw [State.lookup]
    split
    next hfound => exact .control (.aimPid hmode hfound)
    · exact .control (.plain rfl (hmode ▸ rfl) rfl)
  | unknown => exact .control (.plain rfl (hmode ▸ rfl) rfl)

/-- `fg` and `bg` from the signal to the report. -/
lemma Move.of_resume {stopped : Bool} (hmode : s.mode = .resume r stopped pt)
    (h : s.resume r stopped pt = some s') : Move s .next s' := by
  cases pt with
  | test k =>
    rw [State.resume] at h
    split at h
    next he =>
      cases h
      exact .control (.tested hmode he)
    next e he =>
      split at h
      next hlive =>
        cases h
        exact .control (.testLive hmode he hlive)
      next hdead =>
        cases h
        exact .control (.testDead hmode he (not_not.mp hdead))
  | store k =>
    cases h
    exact .store hmode
  | arm =>
    rw [State.resume] at h
    split at h
    next ht =>
      cases h
      exact .control (.armed hmode ht)
    next ht =>
      cases h
      exact .control (.unarmed hmode ht)
  | loop k =>
    rw [State.resume] at h
    split at h
    next he =>
      cases h
      exact .control (.loopDone hmode he)
    next e he =>
      split at h
      next hdead =>
        cases h
        exact .control (.loopSkip hmode he hdead)
      next hlive =>
        cases h
        exact .control (.loopCall hmode he hlive)
  | call k =>
    rw [State.resume] at h
    split at h
    · cases h
    next e he =>
      split at h
      · cases h
      next hret =>
        split at h
        next hrem =>
          cases h
          exact .control (.callBlock hmode he (Bool.eq_false_iff.mpr hret) hrem)
        next hrem =>
          cases h
          exact .control (.callLost hmode he (Bool.eq_false_iff.mpr hrem))
  | blocked k => cases h
  | interrupted k =>
    rw [State.resume] at h
    split at h
    next ht =>
      cases h
      exact .control (.timedOut (.inl hmode) ht)
    next ht =>
      cases h
      exact .control (.again hmode (Bool.eq_false_iff.mpr ht))
  | record k q status =>
    cases h
    exact .record hmode
  | check k =>
    rw [State.resume] at h
    split at h
    next ht =>
      cases h
      exact .control (.timedOut (.inr hmode) ht)
    next ht =>
      cases h
      exact .control (.checked hmode (Bool.eq_false_iff.mpr ht))
  | disarm =>
    cases h
    exact .control (.disarm hmode)
  | expired =>
    rw [State.resume] at h
    split at h
    next ht =>
      cases h
      exact .control (.expired hmode ht)
    next ht =>
      cases h
      exact .control (.inTime hmode (Bool.eq_false_iff.mpr ht))
  | report =>
    cases h
    exact .control (.reported hmode)

lemma Move.of_advance (h : s.advance = some s') : Move s .next s' := by
  rw [State.advance] at h
  split at h
  next req hmode =>
    cases h
    exact Move.of_lookup hmode
  next r stopped pt hmode => exact Move.of_resume hmode h
  next i hmode =>
    cases h
    rw [State.sighup]
    split
    · exact .control (.plain rfl (hmode ▸ rfl) rfl)
    next j hj =>
      split
      next ha => exact .control (.aimHup hmode hj ha.1 ha.2)
      · exact .control (.plain rfl (hmode ▸ rfl) rfl)
  next hmode =>
    cases h
    rw [State.quit]
    split
    all_goals exact .control (.plain rfl (hmode ▸ rfl) rfl)
  next hmode =>
    cases h
    exact .control (.plain rfl (hmode ▸ rfl) rfl)
  next next hmode =>
    obtain ⟨⟨_, htaken⟩, rfl⟩ := Lib.of_guard h
    exact .control (.drained hmode htaken)
  · cases h

lemma dispatch_eq (c : Command) (sync : Bool) (prs_id : Int) :
    (dispatch c sync prs_id).plain = true ∨
      (c.builtin = false ∧
        dispatch c sync prs_id = .execute (plan c sync prs_id) (badStage c)) := by
  rw [dispatch]
  split
  · refine .inl ?_
    split
    · split <;> rfl
    · split <;> rfl
    all_goals rfl
  next hext => exact .inr ⟨Bool.eq_false_iff.mpr hext, rfl⟩

/-- The line is run as a builtin, or handed to `execute`. -/
lemma Move.of_command (sync : Bool) (hmode : s.mode = .line) :
    Move s (.command sync) (s.command sync) := by
  rw [State.command]
  split
  · exact .control (.plain rfl (hmode ▸ rfl) rfl)
  next c todo htodo =>
    rcases dispatch_eq c sync s.prs_id with hplain | ⟨hext, hexec⟩
    · exact .control (.plain rfl (hmode ▸ rfl) hplain)
    · rw [hexec]
      exact .control (.command hmode htodo hext)

/-- `waitpid` in `fg` returns a status. -/
lemma Move.of_wait {stopped : Bool}
    (hmode : s.mode = .resume r stopped (.call k) ∨ s.mode = .resume r stopped (.blocked k))
    (h : s.wait r stopped k q = some s') : Move s (.wait q) s' := by
  rw [State.wait] at h
  split at h
  next e c he hk =>
    obtain ⟨hg, rfl⟩ := Lib.of_guard h
    exact .wait hmode he hk hg.1 hg.2
  · cases h

lemma Move.of_mainStep (h : mainStep l s = some s') : Move s l s' := by
  unfold mainStep at h
  split at h
  next text hmode =>
    rw [State.read] at h
    split at h
    · cases h
    · cases h
      exact .control (.plain rfl (hmode ▸ rfl) rfl)
    split at h
    all_goals
      cases h
      exact .control (.plain rfl (hmode ▸ rfl) rfl)
  next hmode =>
    cases h
    exact .control (.plain rfl (hmode ▸ rfl) rfl)
  next hmode =>
    cases h
    exact .control (.plain rfl (hmode ▸ rfl) rfl)
  next sync hmode =>
    cases h
    exact Move.of_command sync hmode
  next l' pl bad hmode =>
    rw [State.exec] at h
    split at h
    next hok =>
      obtain ⟨st, hst, rfl⟩ := Option.map_eq_some_iff.mp h
      exact .exec hmode hok (Wait.Move.of_shellStep hst)
    · cases h
  next pl bad hmode =>
    split at h
    next c hpc =>
      obtain ⟨_, rfl⟩ := Lib.of_guard h
      exact .fail hmode hpc
    · cases h
  next pl bad hmode =>
    obtain ⟨hpc, rfl⟩ := Lib.of_guard h
    exact .finish hmode hpc
  next sig aim next hmode =>
    cases h
    exact .control (.kill hmode)
  next q r stopped k hmode => exact Move.of_wait (.inl hmode) h
  next q r stopped k hmode => exact Move.of_wait (.inr hmode) h
  next p hmode =>
    obtain ⟨hg, rfl⟩ := Lib.of_guard h
    exact .spawn hmode hg.1 hg.2
  next p hmode =>
    split at h
    · cases h
    next k hk =>
      obtain ⟨hpend, rfl⟩ := Lib.of_guard h
      exact .collect hmode hk hpend
  · rw [State.take] at h
    split at h
    · cases h
    next k hk =>
      obtain ⟨⟨hdrain, htaken, hpend⟩, rfl⟩ := Lib.of_guard h
      exact .take hdrain htaken hk hpend
  · obtain ⟨e, htaken, rfl⟩ := Option.map_eq_some_iff.mp h
    exact .recorded htaken
  · exact Move.of_advance h
  · cases h

/-- Every step is one of these moves. -/
lemma Move.of_step (h : step l s = some s') : Move s l s' := by
  unfold step at h
  split at h
  next p r =>
    split at h
    · cases h
    next k hk =>
      obtain ⟨hr, rfl⟩ := Lib.of_guard h
      exact .change hk hr
  next garbage =>
    split at h
    · cases h
    cases h
    split
    next c hpc => exact .interrupt hpc
    next hpc => exact .sigchld (fun c hc => hpc c hc)
  · obtain ⟨ha, rfl⟩ := Lib.of_guard h
    exact .control (.alarm ha)
  next p =>
    split at h
    · cases h
    next k hk =>
      obtain ⟨hg, rfl⟩ := Lib.of_guard h
      exact .reap hg.1 hk hg.2
  · obtain ⟨_, rfl⟩ := Lib.of_guard h
    exact .handlerDone
  split at h
  · cases h
  · exact Move.of_mainStep h

lemma entry_goto (r : Resume) (stopped : Bool) (pt : Point) (s : State) (i k : Nat) :
    (s.goto r stopped pt).entry i k = s.entry i k := rfl

/-- A control step leaves the children and the table alone. -/
lemma Control.st_eq (h : Control s l s') : s'.st = s.st := by
  cases h <;> rfl

lemma Control.taken_eq (h : Control s l s') : s'.taken = s.taken := by
  cases h <;> rfl

lemma Control.prs_id_eq (h : Control s l s') : s'.prs_id = s.prs_id := by
  cases h <;> rfl

lemma Control.label (h : Control s l s') : l.control = true := by
  cases h with
  | plain hl => exact hl
  | _ => rfl

lemma Mode.plain_of_resting {m : Mode} (h : m.resting = true) : m.plain = true := by
  unfold Mode.resting at h
  split at h
  · cases h
  · exact h

lemma Mode.calm_of_plain {m : Mode} (h : m.plain = true) : m.calm = true := by
  induction m with
  | drain next ih => exact ih h
  | execute | signal => cases h
  | _ => rfl

/-- `EINTR` changes nothing for what does not tell a blocked `waitpid` from an
interrupted one. -/
lemma Mode.congr_interrupt {β : Sort*} (f : Mode → β)
    (hf : ∀ r stopped k,
      f (.resume r stopped (.interrupted k)) = f (.resume r stopped (.blocked k)))
    (m : Mode) : f m.interrupt = f m := by
  unfold Mode.interrupt
  split
  · exact hf _ _ _
  · rfl

lemma Mode.calm_interrupt (m : Mode) : m.interrupt.calm = m.calm :=
  Mode.congr_interrupt Mode.calm (fun _ _ _ => rfl) m

lemma Mode.interrupt_execute {m : Mode} (h : m = .execute pl bad) :
    m.interrupt = .execute pl bad := by
  rw [h]
  rfl

lemma Resume.calm_resumed (r : Resume) (stopped : Bool) : (r.resumed stopped).calm = true := by
  unfold Resume.resumed
  split <;> rfl

/-- Only `main` enters `execute`. -/
lemma Control.calm (h : Control s l s') (hcalm : s.mode.calm = true) :
    s'.mode.calm = true ∨ ∃ sync c todo, l = .command sync ∧ s.todo = c :: todo ∧
      c.builtin = false ∧ s'.mode = .execute (plan c sync s.prs_id) (badStage c) := by
  cases h with
  | plain _ _ hm => exact .inl (Mode.calm_of_plain hm)
  | command _ htodo hext => exact .inr ⟨_, _, _, rfl, htodo, hext, rfl⟩
  | tested => exact .inl (Resume.calm_resumed _ _)
  | drained hmode _ | kill hmode =>
    rw [hmode] at hcalm
    exact .inl hcalm
  | alarm =>
    refine .inl ?_
    rw [← hcalm]
    exact Mode.calm_interrupt s.mode
  | _ => exact .inl rfl

/-- In `execute` the only control step is the delivery of `SIGALRM`. -/
lemma Control.executing (h : Control s l s')
    (hmode : s.mode = .execute pl bad) : s'.mode = .execute pl bad := by
  cases h with
  | alarm => exact Mode.interrupt_execute hmode
  | plain _ hrest => simp [hmode, Mode.resting, Mode.plain] at hrest
  | timedOut hor => simp [hmode] at hor
  | _ => simp_all

end CshellXv6.Shell.Session
