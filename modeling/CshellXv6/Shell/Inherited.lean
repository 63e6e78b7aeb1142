import CshellXv6.Shell.Execute

/-! # The descriptors that the processes of a pipeline inherit

Every `fork` of `execute` duplicates the descriptors then open in the shell.
Along the loop over the stages this file keeps track of where the ends of the
call's pipes are: in the shell between two stages (`Head`), and in the tables
with which the children of a stage start (`Staged`). `launched_roster` is
what the results about end of file rest on: the processes of a launched
pipeline, each with its stage and its table.
-/

namespace CshellXv6.Shell

open Lib List

/-! ## Known descriptors -/

/-- Stage `e` has no command word and is skipped. -/
def Skipped (stages : List (List Token)) (e : Nat) : Prop :=
  ∃ words, stages[e]? = some words ∧ (scanText words).arg = []

/-- What may be open at stage `c`, and under which variable. The pipe of a
skipped stage stays open; of the other stages before `c` only the read end in
`in_fd` is left. -/
inductive Entry (skips : Nat → Prop) (c : Nat) (v : Locals) : Nat → Desc → Prop where
  | other {x i : Nat} : Entry skips c v x (.other i)
  | file {x : Nat} {f : FileId} : Entry skips c v x (.file f)
  | syncRead {r w : Nat} (h : v.sync = some (r, w)) : Entry skips c v r (.readEnd .sync)
  | syncWrite {r w : Nat} (h : v.sync = some (r, w)) : Entry skips c v w (.writeEnd .sync)
  | leakedRead {x e : Nat} (he : e < c) (hskip : skips e) :
      Entry skips c v x (.readEnd (.stage e))
  | leakedWrite {x e : Nat} (he : e < c) (hskip : skips e) :
      Entry skips c v x (.writeEnd (.stage e))
  | input {e : Nat} (he : e < c) (hskip : ¬ skips e) (hin : v.in_fd ≠ 0) :
      Entry skips c v v.in_fd (.readEnd (.stage e))
  | stageRead {r w : Nat} (h : v.fd = some (r, w)) : Entry skips c v r (.readEnd (.stage c))
  | stageWrite {r w : Nat} (h : v.fd = some (r, w)) : Entry skips c v w (.writeEnd (.stage c))
  | feederRead {r w : Nat} (h : v.pipefd = some (r, w)) : Entry skips c v r (.readEnd (.feeder c))
  | feederWrite {r w : Nat} (h : v.pipefd = some (r, w)) :
      Entry skips c v w (.writeEnd (.feeder c))
  | outRead {r w : Nat} (h : v.out_pipefd = some (r, w)) : Entry skips c v r (.readEnd (.out c))
  | outWrite {r w : Nat} (h : v.out_pipefd = some (r, w)) :
      Entry skips c v w (.writeEnd (.out c))

/-- Every open descriptor is known. -/
def Known (skips : Nat → Prop) (c : Nat) (v : Locals) (t : Table Desc) : Prop :=
  ∀ x d, t.get x = some d → Entry skips c v x d

/-- The variables at the head of the loop. -/
def headLocals (sync : PipeFds) (in_fd : Nat) : Locals :=
  ⟨sync, in_fd, none, [], [], none, none⟩

variable {sync fds : PipeFds} {d : Desc} {x in_fd c r w : Nat} {v : Locals}
  {skips : Nat → Prop} {t t' : Table Desc} {k : PipeId} {st' st : Loop} {env : Env}
  {stages rest : List (List Token)} {input : List Token} {sh' sh : ShellState} {bg : Bool}
  {procs : List Forked}

/-- What is known at the head of the loop stays known during the stage. -/
lemma Entry.of_head (hsync : v.sync = sync) (hin : v.in_fd = in_fd)
    (h : Entry skips c (headLocals sync in_fd) x d) : Entry skips c v x d := by
  cases h with
  | other => exact .other
  | file => exact .file
  | syncRead h => exact .syncRead (hsync.trans h)
  | syncWrite h => exact .syncWrite (hsync.trans h)
  | leakedRead he hskip => exact .leakedRead he hskip
  | leakedWrite he hskip => exact .leakedWrite he hskip
  | input he hskip hne =>
    show Entry skips c v in_fd _
    rw [← hin]
    exact .input he hskip (hin ▸ hne)
  | stageRead h | stageWrite h | feederRead h | feederWrite h | outRead h | outWrite h => cases h

lemma Piped.get_cases (h : Piped k t fds t') (hx : t'.get x = some d) :
    t.get x = some d ∨ ∃ r w, fds = some (r, w) ∧
      ((x = r ∧ d = .readEnd k) ∨ (x = w ∧ d = .writeEnd k)) := by
  cases h with
  | failed => exact .inl hx
  | @opened r w t' hr hw hne hget =>
    rw [hget] at hx
    split at hx
    next hxw =>
      cases hx
      exact .inr ⟨r, w, rfl, .inr ⟨hxw, rfl⟩⟩
    · split at hx
      next hxr =>
        cases hx
        exact .inr ⟨r, w, rfl, .inl ⟨hxr, rfl⟩⟩
      · exact .inl hx

lemma Piped.get_ends (h : Piped k t (some (r, w)) t') :
    t'.get r = some (.readEnd k) ∧ t'.get w = some (.writeEnd k) := by
  cases h with
  | opened hr hw hne hget => exact ⟨by rw [hget, if_neg hne, if_pos rfl], by rw [hget, if_pos rfl]⟩

lemma Filed.get_cases {fds : List Nat} {name : Nat → FileId} (h : Filed name t fds t')
    (hx : t'.get x = some d) : t.get x = some d ∨ ∃ f, d = .file f := by
  by_cases hmem : x ∈ fds
  · obtain ⟨f, hf⟩ := h.get_mem hmem
    exact .inr ⟨f, Option.some.inj (hx.symm.trans hf)⟩
  · rw [h.get x hmem] at hx
    exact .inl hx

/-- The standard streams of the shell are what they were before the call. -/
def StdOpen (t : Table Desc) : Prop :=
  (∃ i, t.get 0 = some (.other i)) ∧ ∃ i, t.get 1 = some (.other i)

lemma StdOpen.keeps (h : StdOpen t) (hkeep : Extends t t') : StdOpen t' := by
  rcases h with ⟨⟨i, hi⟩, ⟨j, hj⟩⟩
  exact ⟨⟨i, hkeep 0 _ hi⟩, ⟨j, hkeep 1 _ hj⟩⟩

/-! ## The children of a stage -/

/-- The tables and variables with which the children of stage `e` start: the
feeder from `t4`, the writer and the command from `t5`. -/
structure Staged (env : Env) (stages : List (List Token)) (e : Nat) (words : List Token)
    (sync : PipeFds) (v : Locals) (t4 t5 : Table Desc) : Prop where
  arg : (scanText words).arg ≠ []
  inlen : v.stored.length = (scanText words).files.length
  outlen : v.out_stored.length = (scanText words).out_files.length
  pipefd : v.pipefd.isSome = (decide (1 < v.stored.length) && env.feederPipe e)
  out_pipefd : v.out_pipefd.isSome = (decide (1 < v.out_stored.length) && env.outPipe e)
  sync : v.sync = sync
  known4 : Known (Skipped stages) e { v with out_pipefd := none } t4
  known5 : Known (Skipped stages) e v t5
  keeps : Extends t4 t5
  fdOpen : ∀ r w, v.fd = some (r, w) →
    t5.get r = some (.readEnd (.stage e)) ∧ t5.get w = some (.writeEnd (.stage e))
  feederOpen : ∀ r w, v.pipefd = some (r, w) →
    t4.get r = some (.readEnd (.feeder e)) ∧ t4.get w = some (.writeEnd (.feeder e))
  outOpen : ∀ r w, v.out_pipefd = some (r, w) →
    t5.get r = some (.readEnd (.out e)) ∧ t5.get w = some (.writeEnd (.out e))
  filesOpen : ∀ x, x ∈ v.stored ∨ x ∈ v.out_stored → ∃ f, t5.get x = some (.file f)
  input : v.in_fd ≠ 0 → ∃ e' < e, ¬ Skipped stages e' ∧ t5.get v.in_fd = some (.readEnd (.stage e'))
  syncOpen : ∀ r w, v.sync = some (r, w) →
    t4.get r = some (.readEnd .sync) ∧ t4.get w = some (.writeEnd .sync)
  std : StdOpen t5

/-- The process is one of the children of a stage. -/
inductive ChildOf (env : Env) (e : Nat) (v : Locals) (t4 t5 : Table Desc) : Forked → Prop where
  | feeder {pid : Int} (hneed : 1 < v.stored.length) (hfork : env.feederFork e = some pid) :
      ChildOf env e v t4 t5 ⟨.feeder, e, pid, { v with out_pipefd := none }, t4⟩
  | writer {pid : Int} (hneed : 1 < v.out_stored.length) (hfork : env.writerFork e = some pid) :
      ChildOf env e v t4 t5 ⟨.writer, e, pid, v, t5⟩
  | command {pid : Int} (hfork : env.fork e = some pid) :
      ChildOf env e v t4 t5 ⟨.command, e, pid, v, t5⟩

/-! ## Between two stages -/

/-- The state of the loop before stage `c`. -/
structure Head (env : Env) (stages : List (List Token)) (sync : PipeFds) (c : Nat)
    (st : Loop) : Prop where
  known : Known (Skipped stages) c (headLocals sync st.in_fd) st.fds
  input : c < stages.length → st.in_fd ≠ 0 →
    ∃ e < c, ¬ Skipped stages e ∧ st.fds.get st.in_fd = some (.readEnd (.stage e))
  syncOpen : ∀ r w, sync = some (r, w) →
    st.fds.get r = some (.readEnd .sync) ∧ st.fds.get w = some (.writeEnd .sync)
  std : StdOpen st.fds
  procs : ∀ p ∈ st.procs, ∃ e words v t4 t5, e < c ∧ stages[e]? = some words ∧
    Staged env stages e words sync v t4 t5 ∧ ChildOf env e v t4 t5 p
  present : ∀ e words, e < c → stages[e]? = some words →
    (scanText words).arg ≠ [] → ∃ v t4 t5,
      Staged env stages e words sync v t4 t5 ∧ (∃ pid, env.fork e = some pid) ∧
        ∀ p, ChildOf env e v t4 t5 p → p ∈ st.procs

section Stage

variable {env : Env} {stages : List (List Token)} {sync fd : PipeFds} {c : Nat}
  {words : List Token} {st : Loop} {v : Locals} {t1 t2 t3 t4 t5 : Table Desc}
  {procs1 procs2 : List Forked} {pid : Int} {cmd : String}

/-- A stage that comes to its `fork` from a known table. -/
lemma Ready.staged (h : Ready env stages.length c sync words st v t1 t2 t3 t4 t5 procs1 procs2)
    (hhead : Head env stages sync c st) (hc : c < stages.length) :
    Staged env stages c words sync v t4 t5 := by
  have h3 : Extends t1 t3 := h.ins.keeps.trans h.outs.keeps
  have h4 : Extends t1 t4 := h3.trans h.feeder.piped.keeps
  have h5 : Extends t1 t5 := h4.trans h.writer.piped.keeps
  have hstart : Extends st.fds t5 := h.piped.keeps.trans h5
  have hknown4 : Known (Skipped stages) c { v with out_pipefd := none } t4 := by
    intro x d hx
    rcases h.feeder.piped.get_cases hx with hx | ⟨r, w, hrw, ⟨rfl, rfl⟩ | ⟨rfl, rfl⟩⟩
    · rcases h.outs.get_cases hx with hx | ⟨f, rfl⟩
      · rcases h.ins.get_cases hx with hx | ⟨f, rfl⟩
        · rcases h.piped.get_cases hx with hx | ⟨r, w, hrw, ⟨rfl, rfl⟩ | ⟨rfl, rfl⟩⟩
          · exact (hhead.known x d hx).of_head (v := { v with out_pipefd := none }) h.sync h.in_fd
          · exact .stageRead hrw
          · exact .stageWrite hrw
        · exact .file
      · exact .file
    · exact .feederRead hrw
    · exact .feederWrite hrw
  refine ⟨h.arg, h.inlen, h.outlen, h.feeder.isSome, h.writer.isSome, h.sync, hknown4, ?_,
    h.writer.piped.keeps, ?_, ?_, ?_, ?_, ?_, ?_, hhead.std.keeps hstart⟩
  · intro x d hx
    rcases h.writer.piped.get_cases hx with hx | ⟨r, w, hrw, ⟨rfl, rfl⟩ | ⟨rfl, rfl⟩⟩
    · -- the variables differ in `out_pipefd` only
      cases hknown4 x d hx with
      | other => exact .other
      | file => exact .file
      | syncRead h => exact .syncRead h
      | syncWrite h => exact .syncWrite h
      | leakedRead he hskip => exact .leakedRead he hskip
      | leakedWrite he hskip => exact .leakedWrite he hskip
      | input he hskip hne => exact .input he hskip hne
      | stageRead h => exact .stageRead h
      | stageWrite h => exact .stageWrite h
      | feederRead h => exact .feederRead h
      | feederWrite h => exact .feederWrite h
      | outRead h | outWrite h => cases h
    · exact .outRead hrw
    · exact .outWrite hrw
  · intro r w hrw
    have hends := (hrw ▸ h.piped).get_ends
    exact ⟨h5 r _ hends.1, h5 w _ hends.2⟩
  · intro r w hrw
    exact (hrw ▸ h.feeder.piped).get_ends
  · intro r w hrw
    exact (hrw ▸ h.writer.piped).get_ends
  · intro x hx
    have hopen : ∃ f, t3.get x = some (.file f) := by
      rcases hx with hx | hx
      · obtain ⟨f, hf⟩ := h.ins.get_mem hx
        exact ⟨f, h.outs.keeps x _ hf⟩
      · exact h.outs.get_mem hx
    obtain ⟨f, hf⟩ := hopen
    exact ⟨f, h.writer.piped.keeps x _ (h.feeder.piped.keeps x _ hf)⟩
  · intro hne
    rw [h.in_fd] at hne ⊢
    rcases hhead.input hc hne with ⟨e, he, hskip, hopen⟩
    exact ⟨e, he, hskip, hstart _ _ hopen⟩
  · intro r w hrw
    have hends := hhead.syncOpen r w (h.sync ▸ hrw)
    have hkeep : Extends st.fds t4 := h.piped.keeps.trans h4
    exact ⟨hkeep r _ hends.1, hkeep w _ hends.2⟩

/-- The children of the stage, as the two helpers and the command. -/
lemma Ready.mem_procs (h : Ready env stages.length c sync words st v t1 t2 t3 t4 t5 procs1 procs2)
    (hfork : env.fork c = some pid) (p : Forked) :
    p ∈ procs2 ++ [⟨.command, c, pid, v, t5⟩] ↔ p ∈ st.procs ∨ ChildOf env c v t4 t5 p := by
  rw [mem_append, mem_singleton, h.writer.procs, h.feeder.procs]
  constructor
  · rintro (((hold | ⟨hneed, pid', hpid, rfl⟩) | ⟨hneed, pid', hpid, rfl⟩) | rfl)
    · exact .inl hold
    · exact .inr (.feeder (by simpa using hneed) hpid)
    · exact .inr (.writer (by simpa using hneed) hpid)
    · exact .inr (.command hfork)
  rintro (hold | hchild)
  · exact .inl (.inl (.inl hold))
  cases hchild with
  | feeder hneed hpid => exact .inl (.inl (.inr ⟨by simpa using hneed, _, hpid, rfl⟩))
  | writer hneed hpid => exact .inl (.inr ⟨by simpa using hneed, _, hpid, rfl⟩)
  | command hpid =>
    cases hfork.symm.trans hpid
    exact .inr rfl

/-- What the shell closes after the `fork`. -/
def ClosedAfter (v : Locals) (x : Nat) : Prop :=
  (∃ r, v.fd = some (r, x)) ∨ (v.in_fd ≠ 0 ∧ x = v.in_fd) ∨ x ∈ v.out_stored ∨ x ∈ v.stored ∨
    InPair x v.out_pipefd ∨ InPair x v.pipefd

lemma get_closeIn (v : Locals) (t : Table Desc) :
    Table.Closes (fun x => v.in_fd ≠ 0 ∧ x = v.in_fd) t (closeIn v t) := by
  intro x
  unfold closeIn
  by_cases h : v.in_fd ≠ 0
  · rw [if_pos h, Table.get_close]
    exact ⟨fun hx => if_pos hx.2, fun hx => if_neg fun heq => hx ⟨h, heq⟩⟩
  · rw [if_neg h]
    exact ⟨fun hx => absurd hx.1 h, fun _ => rfl⟩

lemma get_closeWrite (fds : PipeFds) (t : Table Desc) :
    Table.Closes (fun x => ∃ r, fds = some (r, x)) t (closeWrite fds t) := by
  intro x
  cases fds with
  | none => exact ⟨fun h => absurd h.choose_spec (by simp), fun _ => rfl⟩
  | some fds =>
    rcases fds with ⟨r, w⟩
    rw [closeWrite, Table.get_close]
    constructor
    · rintro ⟨r', h⟩
      cases h
      exact if_pos rfl
    · intro h
      refine if_neg (fun hx => h ⟨r, by rw [hx]⟩)

lemma get_closeAfterFork (v : Locals) (t : Table Desc) :
    Table.Closes (ClosedAfter v) t (closeAfterFork v t) :=
  (((((get_closePair v.pipefd t).trans (get_closePair v.out_pipefd _)).trans
    (Table.closes_closeAll _ v.stored)).trans (Table.closes_closeAll _ v.out_stored)).trans
    (get_closeIn v _)).trans (get_closeWrite v.fd _)

/-- What a command closes before `execv`. -/
lemma closes_execFds (bg devNull : Bool) (p : Forked) :
    Table.Closes (fun x => x ∈ p.vars.out_stored ∨ x ∈ p.vars.stored ∨ InPair x p.vars.fd ∨
        (p.vars.in_fd ≠ 0 ∧ x = p.vars.in_fd))
      (redirectOut p.vars (redirectIn p.vars (if bg then p.releasedFds devNull else p.fds)))
      (p.execFds bg devNull) :=
  (((get_closeIn p.vars _).trans (get_closePair p.vars.fd _)).trans
    (Table.closes_closeAll _ p.vars.stored)).trans (Table.closes_closeAll _ p.vars.out_stored)

/-- What is closed then is a file, an end of a pipe of this stage, or the read
end in `in_fd`. -/
lemma Staged.closed_desc (h : Staged env stages c words sync v t4 t5)
    (hclosed : ClosedAfter v x) (hx : t5.get x = some d) :
    (∃ f, d = .file f) ∨ (∃ e < c, d = .readEnd (.stage e)) ∨ d = .writeEnd (.stage c) ∨
      d = .readEnd (.feeder c) ∨ d = .writeEnd (.feeder c) ∨ d = .readEnd (.out c) ∨
      d = .writeEnd (.out c) := by
  have hd : ∀ {d'}, t5.get x = some d' → d = d' := fun h' => Option.some.inj (hx.symm.trans h')
  rcases hclosed with ⟨r, hr⟩ | ⟨hne, rfl⟩ | hx' | hx' | ⟨r, w, hrw, rfl | rfl⟩ |
    ⟨r, w, hrw, rfl | rfl⟩
  · have := hd (h.fdOpen _ _ hr).2
    tauto
  · rcases h.input hne with ⟨e, he, -, hopen⟩
    exact .inr (.inl ⟨e, he, hd hopen⟩)
  · obtain ⟨f, hf⟩ := h.filesOpen x (.inr hx')
    exact .inl ⟨f, hd hf⟩
  · obtain ⟨f, hf⟩ := h.filesOpen x (.inl hx')
    exact .inl ⟨f, hd hf⟩
  · have := hd (h.outOpen _ _ hrw).1
    tauto
  · have := hd (h.outOpen _ _ hrw).2
    tauto
  · have := hd (h.keeps _ _ (h.feederOpen _ _ hrw).1)
    tauto
  · have := hd (h.keeps _ _ (h.feederOpen _ _ hrw).2)
    tauto

/-- After the `fork` only what the next stage needs is left. -/
lemma Staged.known_after (h : Staged env stages c words sync v t4 t5) (hskip : ¬ Skipped stages c)
    (hin : ∀ r w, v.fd = some (r, w) → in_fd = r) :
    Known (Skipped stages) (c + 1) (headLocals sync in_fd) (closeAfterFork v t5) := by
  intro x d hx
  obtain ⟨hx, hopen⟩ := (get_closeAfterFork v t5).of_get hx
  simp only [ClosedAfter, not_or] at hopen
  obtain ⟨hnext, hinput, -, -, hout, hfeeder⟩ := hopen
  cases h.known5 x d hx with
  | other => exact .other
  | file => exact .file
  | syncRead hs => exact .syncRead (h.sync ▸ hs)
  | syncWrite hs => exact .syncWrite (h.sync ▸ hs)
  | leakedRead he hskip => exact .leakedRead (Nat.lt_succ_of_lt he) hskip
  | leakedWrite he hskip => exact .leakedWrite (Nat.lt_succ_of_lt he) hskip
  | input he _ hne => exact absurd ⟨hne, rfl⟩ hinput
  | stageRead hs =>
    have hne : x ≠ 0 := by
      rintro rfl
      rcases h.std.1 with ⟨i, hi⟩
      cases hx.symm.trans hi
    have heq := hin _ _ hs
    subst heq
    exact .input (Nat.lt_succ_self c) hskip hne
  | stageWrite hs => exact absurd ⟨_, hs⟩ hnext
  | feederRead hs => exact absurd ⟨_, _, hs, .inl rfl⟩ hfeeder
  | feederWrite hs => exact absurd ⟨_, _, hs, .inr rfl⟩ hfeeder
  | outRead hs => exact absurd ⟨_, _, hs, .inl rfl⟩ hout
  | outWrite hs => exact absurd ⟨_, _, hs, .inr rfl⟩ hout

/-- What the shell keeps open across the `fork`. -/
lemma Staged.get_after (h : Staged env stages c words sync v t4 t5)
    (hx : t5.get x = some d) (hd : (∃ i, d = .other i) ∨ d = .readEnd .sync ∨ d = .writeEnd .sync) :
    (closeAfterFork v t5).get x = some d := by
  rw [(get_closeAfterFork v t5 x).2, hx]
  intro hclosed
  rcases h.closed_desc hclosed hx with ⟨f, rfl⟩ | ⟨e, -, rfl⟩ | rfl | rfl | rfl | rfl | rfl <;>
    rcases hd with ⟨i, hi⟩ | hi | hi <;> cases hi

/-- The read end of the pipe to the next stage stays open. -/
lemma Staged.get_next (h : Staged env stages c words sync v t4 t5)
    (hrw : v.fd = some (r, w)) : (closeAfterFork v t5).get r = some (.readEnd (.stage c)) := by
  have hopen := (h.fdOpen r w hrw).1
  rw [(get_closeAfterFork v t5 r).2, hopen]
  intro hclosed
  rcases h.closed_desc hclosed hopen with
    ⟨f, hd⟩ | ⟨e, he, hd⟩ | hd | hd | hd | hd | hd <;> cases hd
  -- the input of this stage is the pipe of an earlier one
  exact absurd he (lt_irrefl c)

/-- A stage without a command word leaves its pipe open. -/
lemma Head.skip (hhead : Head env stages sync c st) (hwords : stages[c]? = some words)
    (hpiped : Piped (.stage c) st.fds fd t1) (harg : (scanText words).arg = []) :
    Head env stages sync (c + 1)
      { st with fds := t1, pids := st.pids ++ [-1], names := st.names ++ [""] } := by
  have hc : c < stages.length := (List.getElem?_eq_some_iff.mp hwords).1
  have hskip : Skipped stages c := ⟨words, hwords, harg⟩
  refine ⟨?_, ?_, ?_, hhead.std.keeps hpiped.keeps, ?_, ?_⟩
  · intro x d hx
    rcases hpiped.get_cases hx with hx | ⟨r, w, hrw, ⟨rfl, rfl⟩ | ⟨rfl, rfl⟩⟩
    · cases hhead.known x d hx with
      | other => exact .other
      | file => exact .file
      | syncRead hs => exact .syncRead hs
      | syncWrite hs => exact .syncWrite hs
      | leakedRead he hskip => exact .leakedRead (Nat.lt_succ_of_lt he) hskip
      | leakedWrite he hskip => exact .leakedWrite (Nat.lt_succ_of_lt he) hskip
      | input he hskip hne => exact .input (Nat.lt_succ_of_lt he) hskip hne
      | stageRead hs | stageWrite hs | feederRead hs | feederWrite hs | outRead hs | outWrite hs =>
        cases hs
    · exact .leakedRead (Nat.lt_succ_self c) hskip
    · exact .leakedWrite (Nat.lt_succ_self c) hskip
  · intro _ hne
    rcases hhead.input hc hne with ⟨e, he, hnot, hopen⟩
    exact ⟨e, Nat.lt_succ_of_lt he, hnot, hpiped.keeps _ _ hopen⟩
  · intro r w hrw
    have hends := hhead.syncOpen r w hrw
    exact ⟨hpiped.keeps _ _ hends.1, hpiped.keeps _ _ hends.2⟩
  · intro p hp
    rcases hhead.procs p hp with ⟨e, w, v, t4, t5, he, hrest⟩
    exact ⟨e, w, v, t4, t5, Nat.lt_succ_of_lt he, hrest⟩
  · intro e w he hw harg'
    rcases Nat.lt_succ_iff_lt_or_eq.mp he with he | rfl
    · exact hhead.present e w he hw harg'
    · cases hwords.symm.trans hw
      exact absurd harg harg'

/-- A stage whose command has been forked. -/
lemma Head.forked (hhead : Head env stages sync c st) (hwords : stages[c]? = some words)
    (hready : Ready env stages.length c sync words st v t1 t2 t3 t4 t5 procs1 procs2)
    (hfork : env.fork c = some pid) :
    Head env stages sync (c + 1)
      { fds := closeAfterFork v t5
        in_fd := match v.fd with
          | none => st.in_fd
          | some (r, _) => r
        pids := st.pids ++ [pid]
        names := st.names ++ [cmd]
        procs := procs2 ++ [⟨.command, c, pid, v, t5⟩] } := by
  have hc : c < stages.length := (List.getElem?_eq_some_iff.mp hwords).1
  have hstaged := hready.staged hhead hc
  have hskip : ¬ Skipped stages c := by
    rintro ⟨w, hw, harg⟩
    cases hwords.symm.trans hw
    exact hready.arg harg
  refine ⟨hstaged.known_after hskip ?_, ?_, ?_, ?_, ?_, ?_⟩
  · intro r w hrw
    rw [hrw]
  · -- the next stage reads from this one
    intro hnext _
    have hsome : v.fd.isSome = true := by rw [hready.fd]; simpa using hnext
    rcases Option.isSome_iff_exists.mp hsome with ⟨⟨r, w⟩, hrw⟩
    refine ⟨c, Nat.lt_succ_self c, hskip, ?_⟩
    rw [hrw]
    exact hstaged.get_next hrw
  · intro r w hrw
    have hends := hstaged.syncOpen r w (hstaged.sync ▸ hrw)
    exact ⟨hstaged.get_after (hstaged.keeps _ _ hends.1) (by simp),
      hstaged.get_after (hstaged.keeps _ _ hends.2) (by simp)⟩
  · rcases hstaged.std with ⟨⟨i, hi⟩, ⟨j, hj⟩⟩
    exact ⟨⟨i, hstaged.get_after hi (by simp)⟩, ⟨j, hstaged.get_after hj (by simp)⟩⟩
  · intro p hp
    rcases (hready.mem_procs hfork p).mp hp with hold | hchild
    · rcases hhead.procs p hold with ⟨e, w, v, t4, t5, he, hrest⟩
      exact ⟨e, w, v, t4, t5, Nat.lt_succ_of_lt he, hrest⟩
    · exact ⟨c, words, v, t4, t5, Nat.lt_succ_self c, hwords, hstaged, hchild⟩
  intro e w he hw harg'
  rcases Nat.lt_succ_iff_lt_or_eq.mp he with he | rfl
  · rcases hhead.present e w he hw harg' with ⟨v', t4', t5', hst, hpid, hall⟩
    exact ⟨v', t4', t5', hst, hpid, fun p hp => (hready.mem_procs hfork p).mpr (.inl (hall p hp))⟩
  cases hwords.symm.trans hw
  exact ⟨v, t4, t5, hstaged, ⟨pid, hfork⟩, fun p hp => (hready.mem_procs hfork p).mpr (.inr hp)⟩

/-- One round of the loop. -/
lemma Head.step (hhead : Head env stages sync c st) (hwords : stages[c]? = some words)
    (hrun : runStage env stages.length sync c words st = .ok st') :
    Head env stages sync (c + 1) st' := by
  have hcase := runStage_case env stages.length sync c words st
  rw [hrun] at hcase
  cases hcase with
  | skip _ hpiped _ harg => exact hhead.skip hwords hpiped harg
  | forked hready hfork => exact hhead.forked hwords hready hfork

end Stage

/-! ## The whole pipeline -/

lemma Head.run (hhead : Head env stages sync c st) (hrest : stages.drop c = rest)
    (hc : c ≤ stages.length) (hrun : runStages env stages.length sync c rest st = .ok st') :
    Head env stages sync stages.length st' := by
  induction rest generalizing c st with
  | nil =>
    cases hrun
    have hlen := drop_eq_nil_iff.mp hrest
    rwa [show stages.length = c by omega]
  | cons words rest ih =>
    have hwords : stages[c]? = some words := by
      rw [← List.head?_drop, hrest]
      rfl
    have hlt := (List.getElem?_eq_some_iff.mp hwords).1
    rw [runStages] at hrun
    split at hrun
    · cases hrun
    next st1 hstage =>
      refine ih (hhead.step hwords hstage) ?_ hlt hrun
      rw [← tail_drop, hrest]
      rfl

/-- Before the call nothing but the standard streams and other old
descriptors is open. -/
structure Fresh (t : Table Desc) : Prop where
  old : ∀ x d, t.get x = some d → ∃ i, d = .other i
  stdin : ∃ i, t.get 0 = some (.other i)
  stdout : ∃ i, t.get 1 = some (.other i)

lemma Head.start (hfresh : Fresh t)
    (hpiped : Piped .sync t sync t') : Head env stages sync 0 ⟨t', 0, [], [], []⟩ := by
  refine ⟨?_, ?_, ?_, ?_, ?_, ?_⟩
  · intro x d hx
    rcases hpiped.get_cases hx with hx | ⟨r, w, hrw, ⟨rfl, rfl⟩ | ⟨rfl, rfl⟩⟩
    · rcases hfresh.old x d hx with ⟨i, rfl⟩
      exact .other
    · exact .syncRead hrw
    · exact .syncWrite hrw
  · exact fun _ hne => absurd rfl hne
  · intro r w hrw
    exact (hrw ▸ hpiped).get_ends
  · exact StdOpen.keeps ⟨hfresh.stdin, hfresh.stdout⟩ hpiped.keeps
  · exact fun p hp => absurd hp (by simp)
  · exact fun e w he => absurd he (by omega)

/-- The processes of a launched pipeline: every one is a child of a stage, and
every stage with a command has all its children. The shell itself holds none
of the helpers' pipes. -/
structure Roster (env : Env) (stages : List (List Token)) (sync : PipeFds)
    (fds : Table Desc) (procs : List Forked) : Prop where
  child : ∀ p ∈ procs, ∃ e words v t4 t5, stages[e]? = some words ∧
    Staged env stages e words sync v t4 t5 ∧ ChildOf env e v t4 t5 p
  present : ∀ e words, stages[e]? = some words → (scanText words).arg ≠ [] →
    ∃ v t4 t5, Staged env stages e words sync v t4 t5 ∧ (∃ pid, env.fork e = some pid) ∧
      ∀ p, ChildOf env e v t4 t5 p → p ∈ procs
  shell : ∀ x e, fds.get x ≠ some (.writeEnd (.feeder e)) ∧ fds.get x ≠ some (.writeEnd (.out e))

/-- What a successful call leaves behind. -/
lemma launched_roster (hfresh : Fresh sh.fds) (hne : input ≠ [])
    (h : execute env input bg sh = .launched sh' procs) :
    Roster env (stagesOf input) (openSync env bg sh.fds).1 sh'.fds procs := by
  unfold execute at h
  rw [if_neg hne] at h
  dsimp only at h
  split at h
  · cases h
  next st hrun =>
    cases h
    have hstart : Head env (stagesOf input) (openSync env bg sh.fds).1 0
        ⟨(openSync env bg sh.fds).2, 0, [], [], []⟩ :=
      Head.start hfresh (openPipe_piped .sync (bg && env.syncPipe) sh.fds)
    have hend := hstart.run rfl (Nat.zero_le _) hrun
    refine ⟨?_, ?_, ?_⟩
    · intro p hp
      rcases hend.procs p hp with ⟨e, words, v, t4, t5, -, hrest⟩
      exact ⟨e, words, v, t4, t5, hrest⟩
    · intro e words hwords
      exact hend.present e words (List.getElem?_eq_some_iff.mp hwords).1 hwords
    -- such an end would be known at the head of the loop
    have hnot : ∀ x d, (closePair (openSync env bg sh.fds).1 st.fds).get x = some d →
        Entry (Skipped (stagesOf input)) (stagesOf input).length
          (headLocals (openSync env bg sh.fds).1 st.in_fd) x d := by
      intro x d hx
      by_cases hin : InPair x (openSync env bg sh.fds).1
      · rw [(get_closePair _ _ x).1 hin] at hx
        cases hx
      · rw [(get_closePair _ _ x).2 hin] at hx
        exact hend.known x d hx
    intro x e
    constructor
    · intro hx
      cases hnot x _ hx with
      | feederWrite hs => cases hs
    intro hx
    cases hnot x _ hx with
    | outWrite hs => cases hs

end CshellXv6.Shell
