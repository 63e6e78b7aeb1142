import CshellXv6.Lib.Waits
import CshellXv6.Shell.Inherited

/-! # End of file in a foreground pipeline

A process that reads a pipe goes on when nobody holds the write end any more.
From the tables of `Inherited` follows which pipe each process of a
foreground pipeline reads and which ones it can write, and so when the
pipeline can be caught in a circular wait for end of file
(`no_circular_wait_iff`): a writer inherits the write end of the feeder's
pipe and never closes it.
-/

namespace CshellXv6.Shell

open Lib Option

/-- The descriptor is open in the table. -/
def Holds (t : Table Desc) (d : Desc) : Prop := ∃ x, t.get x = some d

/-- The pipe behind a descriptor that is read. -/
def readPipe : Option Desc → Option PipeId
  | some (.readEnd k) => some k
  | _ => none

variable {k : PipeId} {x : Nat} {d : Desc}

lemma readPipe_eq_some {d : Option Desc} (h : readPipe d = some k) : d = some (.readEnd k) := by
  unfold readPipe at h
  split at h
  · cases h
    rfl
  · cases h

/-! ## The table of a command at `execv` -/

section Exec

variable {env : Env} {stages : List (List Token)} {sync : PipeFds} {c y : Nat}
  {words : List Token} {v : Locals} {t4 t5 : Table Desc} {d' : Desc}

/-- A helper's pipe exists for several redirections only. -/
lemma Staged.pipefd_none (h : Staged env stages c words sync v t4 t5)
    (hlen : v.stored.length ≤ 1) : v.pipefd = none := by
  have hsome := h.pipefd
  rw [decide_eq_false (by omega), Bool.false_and] at hsome
  exact not_isSome_iff_eq_none.mp (by simp [hsome])

lemma Staged.out_pipefd_none (h : Staged env stages c words sync v t4 t5)
    (hlen : v.out_stored.length ≤ 1) : v.out_pipefd = none := by
  have hsome := h.out_pipefd
  rw [decide_eq_false (by omega), Bool.false_and] at hsome
  exact not_isSome_iff_eq_none.mp (by simp [hsome])

/-- Two slots with different descriptors are different. -/
lemma ne_of_get {t : Table Desc} (hx : t.get x = some d)
    (hy : t.get y = some d') (hne : d ≠ d') : x ≠ y := by
  rintro rfl
  exact hne (Option.some.inj (hx.symm.trans hy))

/-- A slot of the standard streams is no end of a pipe. -/
lemma Staged.std_not_pair (h : Staged env stages c words sync v t4 t5)
    (hx : ∃ i, t5.get x = some (.other i)) :
    ¬ InPair x v.pipefd ∧ ¬ InPair x v.out_pipefd ∧ ¬ InPair x v.fd := by
  rcases hx with ⟨i, hi⟩
  refine ⟨?_, ?_, ?_⟩
  · rintro ⟨r, w, hrw, rfl | rfl⟩
    · cases (h.keeps _ _ (h.feederOpen _ _ hrw).1).symm.trans hi
    · cases (h.keeps _ _ (h.feederOpen _ _ hrw).2).symm.trans hi
  · rintro ⟨r, w, hrw, rfl | rfl⟩
    · cases (h.outOpen _ _ hrw).1.symm.trans hi
    · cases (h.outOpen _ _ hrw).2.symm.trans hi
  rintro ⟨r, w, hrw, rfl | rfl⟩
  · cases (h.fdOpen _ _ hrw).1.symm.trans hi
  · cases (h.fdOpen _ _ hrw).2.symm.trans hi

/-- The descriptors that a command may get as its standard input. -/
def IsInput (stages : List (List Token)) (c : Nat) (v : Locals) (d : Desc) : Prop :=
  (∃ i, d = .other i) ∨ (∃ f, d = .file f) ∨ (v.pipefd.isSome = true ∧ d = .readEnd (.feeder c)) ∨
    ∃ e < c, ¬ Skipped stages e ∧ d = .readEnd (.stage e)

/-- `dup2` onto the standard input, and the feeder's pipe closed. -/
lemma Staged.get_redirectIn (h : Staged env stages c words sync v t4 t5) :
    (∃ d, (redirectIn v t5).get 0 = some d ∧ IsInput stages c v d ∧
      (v.pipefd.isSome = true → d = .readEnd (.feeder c))) ∧
      ∀ x ≠ 0, (InPair x v.pipefd → (redirectIn v t5).get x = none) ∧
        (¬ InPair x v.pipefd → (redirectIn v t5).get x = t5.get x) := by
  rcases h.std.1 with ⟨i, hi⟩
  unfold redirectIn
  split
  next hst =>
    have hpf := h.pipefd_none (by simp [hst])
    split
    next hne =>
      rcases h.input hne with ⟨e, he, hskip, hopen⟩
      refine ⟨⟨.readEnd (.stage e), ?_, ?_, by simp [hpf]⟩, fun x hx => ⟨?_, fun _ => ?_⟩⟩
      · rw [Table.get_dup2 hopen, if_pos rfl]
      · exact .inr (.inr (.inr ⟨e, he, hskip, rfl⟩))
      · exact fun hpair => absurd hpair (not_inPair_none hpf)
      · rw [Table.get_dup2 hopen, if_neg hx]
    · refine ⟨⟨.other i, hi, .inl ⟨i, rfl⟩, by simp [hpf]⟩, fun x _ => ⟨?_, fun _ => rfl⟩⟩
      exact fun hpair => absurd hpair (not_inPair_none hpf)
  next s hst =>
    have hpf := h.pipefd_none (by simp [hst])
    obtain ⟨f, hopen⟩ := h.filesOpen s (.inl (by simp [hst]))
    refine ⟨⟨.file f, ?_, .inr (.inl ⟨f, rfl⟩), by simp [hpf]⟩, fun x hx => ⟨?_, fun _ => ?_⟩⟩
    · rw [Table.get_dup2 hopen, if_pos rfl]
    · exact fun hpair => absurd hpair (not_inPair_none hpf)
    · rw [Table.get_dup2 hopen, if_neg hx]
  · split
    next hpf =>
      refine ⟨⟨.other i, hi, .inl ⟨i, rfl⟩, by simp [hpf]⟩, fun x _ => ⟨?_, fun _ => rfl⟩⟩
      exact fun hpair => absurd hpair (not_inPair_none hpf)
    next r w hpf =>
      have hends := h.feederOpen r w hpf
      have hopen := h.keeps _ _ hends.1
      have hr0 : (0 : Nat) ≠ r := ne_of_get hi hopen (by simp)
      have hw0 : (0 : Nat) ≠ w := ne_of_get hi (h.keeps _ _ hends.2) (by simp)
      refine ⟨⟨.readEnd (.feeder c), ?_, ?_, fun _ => rfl⟩, fun x hx => ⟨?_, fun hpair => ?_⟩⟩
      · rw [Table.get_dup2_close hopen, if_neg (not_or.mpr ⟨hr0, hw0⟩), if_pos rfl]
      · exact .inr (.inr (.inl ⟨by simp [hpf], rfl⟩))
      · rintro ⟨r', w', hrw, hx'⟩
        cases hpf.symm.trans hrw
        rw [Table.get_dup2_close hopen, if_pos hx']
      · have hends : ¬ (x = r ∨ x = w) := fun hcon => hpair ⟨r, w, hpf, hcon⟩
        rw [Table.get_dup2_close hopen, if_neg hends, if_neg hx]

/-- The descriptors that a command may get as its standard output. -/
def IsOutput (c : Nat) (v : Locals) (d : Desc) : Prop :=
  (∃ i, d = .other i) ∨ (∃ f, d = .file f) ∨ (v.fd.isSome = true ∧ d = .writeEnd (.stage c)) ∨
    (v.out_pipefd.isSome = true ∧ d = .writeEnd (.out c))

/-- `dup2` onto the standard output, in a table that agrees with the inherited
one outside the feeder's pipe and the standard input. -/
lemma Staged.get_redirectOut (h : Staged env stages c words sync v t4 t5) {t : Table Desc}
    (ht : ∀ x ≠ 0, ¬ InPair x v.pipefd → t.get x = t5.get x) :
    (∃ d, (redirectOut v t).get 1 = some d ∧ IsOutput c v d ∧
      (v.out_pipefd.isSome = true → d = .writeEnd (.out c))) ∧
      ∀ x ≠ 1, (redirectOut v t).get x = t.get x ∨ (redirectOut v t).get x = none ∧
        InPair x v.out_pipefd := by
  rcases h.std.1 with ⟨i, hi⟩
  rcases h.std.2 with ⟨j, hj⟩
  have hone : t.get 1 = some (.other j) := by
    rw [ht 1 (by omega) (h.std_not_pair ⟨j, hj⟩).1, hj]
  -- a slot of this stage that is no feeder's end still holds what it held
  have hslot : ∀ {x d}, t5.get x = some d → d ≠ .other i → d ≠ .readEnd (.feeder c) →
      d ≠ .writeEnd (.feeder c) → t.get x = some d := by
    intro x d hx h0 hr hw
    rw [ht x (ne_of_get hx hi h0), hx]
    rintro ⟨r, w, hrw, rfl | rfl⟩
    · exact hr (Option.some.inj (hx.symm.trans (h.keeps _ _ (h.feederOpen _ _ hrw).1)))
    · exact hw (Option.some.inj (hx.symm.trans (h.keeps _ _ (h.feederOpen _ _ hrw).2)))
  unfold redirectOut
  split
  next hst =>
    have hop := h.out_pipefd_none (by simp [hst])
    split
    · exact ⟨⟨.other j, hone, .inl ⟨j, rfl⟩, by simp [hop]⟩, fun x _ => .inl rfl⟩
    next r w hfd =>
      have hopen := hslot (h.fdOpen r w hfd).2 (by simp) (by simp) (by simp)
      refine ⟨⟨.writeEnd (.stage c), ?_, ?_, by simp [hop]⟩, fun x hx => .inl ?_⟩
      · rw [Table.get_dup2 hopen, if_pos rfl]
      · exact .inr (.inr (.inl ⟨by simp [hfd], rfl⟩))
      · rw [Table.get_dup2 hopen, if_neg hx]
  next s hst =>
    have hop := h.out_pipefd_none (by simp [hst])
    obtain ⟨f, hfile⟩ := h.filesOpen s (.inr (by simp [hst]))
    have hopen := hslot hfile (by simp) (by simp) (by simp)
    refine ⟨⟨.file f, ?_, .inr (.inl ⟨f, rfl⟩), by simp [hop]⟩, fun x hx => .inl ?_⟩
    · rw [Table.get_dup2 hopen, if_pos rfl]
    · rw [Table.get_dup2 hopen, if_neg hx]
  · split
    next hop =>
      exact ⟨⟨.other j, hone, .inl ⟨j, rfl⟩, by simp [hop]⟩, fun x _ => .inl rfl⟩
    next r w hop =>
      have hends := h.outOpen r w hop
      have hopen := hslot hends.2 (by simp) (by simp) (by simp)
      have hr1 : (1 : Nat) ≠ r := ne_of_get hj hends.1 (by simp)
      have hw1 : (1 : Nat) ≠ w := ne_of_get hj hends.2 (by simp)
      refine ⟨⟨.writeEnd (.out c), ?_, ?_, fun _ => rfl⟩, fun x hx => ?_⟩
      · rw [Table.get_dup2_close hopen, if_neg (not_or.mpr ⟨hr1, hw1⟩), if_pos rfl]
      · exact .inr (.inr (.inr ⟨by simp [hop], rfl⟩))
      rw [Table.get_dup2_close hopen]
      by_cases hends : x = r ∨ x = w
      · exact .inr ⟨if_pos hends, r, w, hop, hends⟩
      · rw [if_neg hends, if_neg hx]
        exact .inl rfl

/-- The table with which a foreground command comes to `execv`. -/
structure ExecTable (stages : List (List Token)) (c : Nat) (v : Locals) (t5 t : Table Desc) :
    Prop where
  stdin : ∃ d, t.get 0 = some d ∧ IsInput stages c v d ∧
    (v.pipefd.isSome = true → d = .readEnd (.feeder c))
  stdout : ∃ d, t.get 1 = some d ∧ IsOutput c v d ∧
    (v.out_pipefd.isSome = true → d = .writeEnd (.out c))
  rest : ∀ x d, x ≠ 0 → x ≠ 1 → t.get x = some d → t5.get x = some d ∧ ¬ InPair x v.pipefd

lemma Staged.execTable (h : Staged env stages c words sync v t4 t5) (devNull : Bool) (pid : Int) :
    ExecTable stages c v t5 (Forked.execFds false devNull ⟨.command, c, pid, v, t5⟩) := by
  rcases h.get_redirectIn with ⟨⟨d0, hd0, hin, hfeed⟩, hothers⟩
  rcases h.get_redirectOut (t := redirectIn v t5) (fun x hx => (hothers x hx).2) with
    ⟨⟨d1, hd1, hout, htee⟩, hothers'⟩
  have hstd0 := h.std_not_pair h.std.1
  have hstd1 := h.std_not_pair h.std.2
  have hcloses := closes_execFds false devNull ⟨.command, c, pid, v, t5⟩
  -- the closes at the end touch neither standard stream
  have hkeep : ∀ x, (∃ i, t5.get x = some (.other i)) →
      (Forked.execFds false devNull ⟨.command, c, pid, v, t5⟩).get x =
        (redirectOut v (redirectIn v t5)).get x := by
    rintro x ⟨i, hi⟩
    refine (hcloses x).2 ?_
    rintro (hx | hx | hx | ⟨hne, rfl⟩)
    · obtain ⟨f, hf⟩ := h.filesOpen x (.inr hx)
      cases hf.symm.trans hi
    · obtain ⟨f, hf⟩ := h.filesOpen x (.inl hx)
      cases hf.symm.trans hi
    · exact (h.std_not_pair ⟨i, hi⟩).2.2 hx
    · rcases h.input hne with ⟨e, -, -, hopen⟩
      cases hopen.symm.trans hi
  refine ⟨⟨d0, ?_, hin, hfeed⟩, ⟨d1, ?_, hout, htee⟩, ?_⟩
  · rw [hkeep 0 h.std.1]
    rcases hothers' 0 (by omega) with heq | ⟨-, hpair⟩
    · rw [heq, hd0]
    · exact absurd hpair hstd0.2.1
  · rw [hkeep 1 h.std.2, hd1]
  intro x d hx0 hx1 hx
  -- a descriptor that is open at the end was open before every close
  have hout' : (redirectOut v (redirectIn v t5)).get x = some d := (hcloses.of_get hx).1
  rcases hothers' x hx1 with heq | ⟨hnone, -⟩
  · rw [heq] at hout'
    by_cases hpair : InPair x v.pipefd
    · rw [(hothers x hx0).1 hpair] at hout'
      cases hout'
    · rw [(hothers x hx0).2 hpair] at hout'
      exact ⟨hout', hpair⟩
  · rw [hnone] at hout'
    cases hout'

end Exec

/-! ## Foreground: circular waits -/

/-- The table of a process of a foreground pipeline after the closes it
performs at its start. -/
def Forked.runFds (p : Forked) : Table Desc :=
  match p.role with
  | .feeder => closeRead p.vars.pipefd p.fds
  | .writer => closeWrite p.vars.out_pipefd p.fds
  | .command => p.execFds false false

/-- The pipe that a process reads up to end of file: a writer the pipe from
its command, a command its standard input. A feeder reads files. -/
def Forked.reads (p : Forked) : Option PipeId :=
  match p.role with
  | .feeder => none
  | .writer => p.vars.out_pipefd.bind (fun f => readPipe (p.runFds.get f.1))
  | .command => readPipe (p.runFds.get 0)

/-- The process can write to the pipe. -/
def Forked.writes (p : Forked) (k : PipeId) : Prop := Holds p.runFds (.writeEnd k)

/-- A stage with a feeder's pipe and with a writer that waits for end of file:
at least two inputs and at least two outputs. -/
structure FedAndTeed (env : Env) (c : Nat) (words : List Token) : Prop where
  arg : (scanText words).arg ≠ []
  files : 1 < (scanText words).files.length
  out_files : 1 < (scanText words).out_files.length
  feederPipe : env.feederPipe c = true
  outPipe : env.outPipe c = true
  writerFork : (env.writerFork c).isSome = true

section Foreground

variable {env : Env} {stages : List (List Token)} {sync : PipeFds} {c : Nat}
  {words : List Token} {v : Locals} {t4 t5 t fds : Table Desc} {p q : Forked} {k : PipeId}
  {procs : List Forked}

lemma closeRead_get {fds : PipeFds} (h : (closeRead fds t).get x = some d) :
    t.get x = some d := by
  cases fds with
  | none => exact h
  | some fds =>
    rcases fds with ⟨r, w⟩
    rw [closeRead, Table.get_close] at h
    split at h
    · cases h
    · exact h

/-- What a process of stage `c` reads. -/
lemma ChildOf.reads_cases (hst : Staged env stages c words sync v t4 t5)
    (hp : ChildOf env c v t4 t5 p) (hk : p.reads = some k) :
    (p.role = .writer ∧ p.vars.out_pipefd ≠ none ∧ k = .out c) ∨
      (p.role = .command ∧ (k = .feeder c ∨ ∃ e < c, ¬ Skipped stages e ∧ k = .stage e)) := by
  cases hp with
  | feeder => cases hk
  | writer =>
    refine .inl ⟨rfl, ?_⟩
    rcases bind_eq_some_iff.mp hk with ⟨⟨r, w⟩, hrw, hread⟩
    have hopen := ((get_closeWrite _ _).of_get (readPipe_eq_some hread)).1
    have hends := hst.outOpen r w hrw
    cases hopen.symm.trans hends.1
    exact ⟨by rw [hrw]; simp, rfl⟩
  | @command pid hfork =>
    refine .inr ⟨rfl, ?_⟩
    rcases (hst.execTable false pid).stdin with ⟨d, hd, hin, -⟩
    have hread := readPipe_eq_some hk
    cases hd.symm.trans hread
    rcases hin with ⟨i, hi⟩ | ⟨f, hi⟩ | ⟨-, hi⟩ | ⟨e, he, hskip, hi⟩
    · cases hi
    · cases hi
    · cases hi
      exact .inl rfl
    · cases hi
      exact .inr ⟨e, he, hskip, rfl⟩

/-- What a process of stage `c` can write: the pipe to the next stage, pipes of
skipped stages, a helper the feeder's pipe, and only the command the writer's
pipe. -/
inductive Writable (stages : List (List Token)) (c : Nat) (v : Locals) (p : Forked) : PipeId → Prop
  | sync : Writable stages c v p .sync
  | stage : Writable stages c v p (.stage c)
  | leaked {e : Nat} (hskip : Skipped stages e) : Writable stages c v p (.stage e)
  | feeder (hrole : p.role ≠ .command) (hpipe : v.pipefd.isSome = true) :
      Writable stages c v p (.feeder c)
  | out (hrole : p.role = .command) : Writable stages c v p (.out c)

lemma ChildOf.writable (hst : Staged env stages c words sync v t4 t5)
    (hp : ChildOf env c v t4 t5 p) (hk : p.writes k) : Writable stages c v p k := by
  rcases hk with ⟨x, hx⟩
  cases hp with
  | feeder =>
    cases hst.known4 x _ (closeRead_get hx) with
    | syncWrite => exact .sync
    | leakedWrite he hskip => exact .leaked hskip
    | stageWrite => exact .stage
    | feederWrite h => exact .feeder (by simp) (isSome_iff_exists.mpr ⟨_, h⟩)
    | outWrite h => cases h
  | writer =>
    obtain ⟨hopen, hnot⟩ := (get_closeWrite _ _).of_get hx
    cases hst.known5 x _ hopen with
    | syncWrite => exact .sync
    | leakedWrite he hskip => exact .leaked hskip
    | stageWrite => exact .stage
    | feederWrite h => exact .feeder (by simp) (isSome_iff_exists.mpr ⟨_, h⟩)
    | outWrite h => exact absurd ⟨_, h⟩ hnot
  | @command pid hfork =>
    have hexec := hst.execTable false pid
    by_cases hx0 : x = 0
    · rcases hexec.stdin with ⟨d, hd, hin, -⟩
      subst hx0
      cases hd.symm.trans hx
      rcases hin with ⟨i, hi⟩ | ⟨f, hi⟩ | ⟨-, hi⟩ | ⟨e, -, -, hi⟩ <;> cases hi
    by_cases hx1 : x = 1
    · rcases hexec.stdout with ⟨d, hd, hout, -⟩
      subst hx1
      cases hd.symm.trans hx
      rcases hout with ⟨i, hi⟩ | ⟨f, hi⟩ | ⟨-, hi⟩ | ⟨-, hi⟩
      · cases hi
      · cases hi
      · cases hi
        exact .stage
      · cases hi
        exact .out rfl
    · rcases hexec.rest x _ hx0 hx1 hx with ⟨hopen, hpair⟩
      cases hst.known5 x _ hopen with
      | syncWrite => exact .sync
      | leakedWrite he hskip => exact .leaked hskip
      | stageWrite => exact .stage
      | feederWrite h => exact absurd ⟨_, _, h, .inr rfl⟩ hpair
      | outWrite h => exact .out rfl

/-- The order in which the processes of a pipeline can end: by stage, and
within a stage the feeder, the command, the writer. A writer without a pipe
ends at once. -/
def Forked.rank (p : Forked) : Nat :=
  match p.role with
  | .feeder => 3 * p.stage
  | .command => 3 * p.stage + 1
  | .writer => if p.vars.out_pipefd = none then 3 * p.stage else 3 * p.stage + 2

lemma Forked.rank_le (p : Forked) : p.rank ≤ 3 * p.stage + 2 := by
  unfold Forked.rank
  split
  · omega
  · omega
  · split <;> omega

lemma ChildOf.stage_eq (hp : ChildOf env c v t4 t5 p) : p.stage = c := by
  cases hp <;> rfl

/-- Who can write what a process reads comes before it, unless a stage has
both helpers. -/
lemma rank_lt_of_writes (hroster : Roster env stages sync fds procs)
    (hnone : ¬ ∃ (c : Nat) (words : List Token), stages[c]? = some words ∧ FedAndTeed env c words)
    (hp : p ∈ procs) (hk : p.reads = some k) (hq : q ∈ procs) (hw : q.writes k) :
    q.rank < p.rank := by
  rcases hroster.child p hp with ⟨c, words, v, t4, t5, hwords, hst, hchild⟩
  rcases hroster.child q hq with ⟨c', words', v', t4', t5', hwords', hst', hchild'⟩
  have hcase := hchild'.writable hst' hw
  have hpc := hchild.stage_eq
  have hqc := hchild'.stage_eq
  rcases hchild.reads_cases hst hk with ⟨hrole, hpipe, rfl⟩ | ⟨hrole, rfl | ⟨e, he, hskip, rfl⟩⟩
  · -- a writer waits for its command
    have hq' : q.role = .command ∧ c' = c := by
      cases hcase with
      | out hr => exact ⟨hr, rfl⟩
    rw [Forked.rank, Forked.rank, hrole, hq'.1]
    simp only [hpipe, if_false]
    omega
  · -- a command waits for the feeder; a writer would make the stage a bad one
    have hq' : q.role ≠ .command ∧ v'.pipefd.isSome = true ∧ c' = c := by
      cases hcase with
      | feeder hr hsome => exact ⟨hr, hsome, rfl⟩
    rcases hq' with ⟨hr, hsome, rfl⟩
    have hrank : p.rank = 3 * p.stage + 1 := by rw [Forked.rank, hrole]
    rw [hrank]
    cases hchild' with
    | feeder =>
      rw [Forked.rank]
      show 3 * c' < _
      omega
    | @writer pid hneed hfork =>
      have hpipe : v'.out_pipefd = none := by
        by_contra hcon
        have hout := hst'.out_pipefd
        have hin := hst'.pipefd
        rw [isSome_iff_ne_none.mpr hcon] at hout
        rw [hsome] at hin
        rcases Bool.and_eq_true_iff.mp hin.symm with ⟨hin1, hin2⟩
        rcases Bool.and_eq_true_iff.mp hout.symm with ⟨hout1, hout2⟩
        refine hnone ⟨c', words', hwords', hst'.arg, ?_, ?_, hin2, hout2, by simp [hfork]⟩
        · rw [← hst'.inlen]
          exact of_decide_eq_true hin1
        · rw [← hst'.outlen]
          exact of_decide_eq_true hout1
      rw [Forked.rank]
      simp only [hpipe, if_true]
      omega
    | command => exact absurd rfl hr
  · -- a command waits for an earlier stage
    have hq' : c' = e := by
      cases hcase with
      | stage => rfl
      | leaked hs => exact absurd hs hskip
    have hrank : p.rank = 3 * p.stage + 1 := by rw [Forked.rank, hrole]
    have hle := q.rank_le
    omega

/-- A stage with both helpers is caught: the writer holds the write end of
the feeder's pipe, from which the command reads, and the command that of the
writer's pipe. -/
lemma circularWait_of_fedAndTeed (hroster : Roster env stages sync fds procs)
    (hwords : stages[c]? = some words) (h : FedAndTeed env c words) :
    CircularWait { p | p ∈ procs } Forked.reads Forked.writes
      (fun k => Holds fds (.writeEnd k)) := by
  rcases hroster.present c words hwords h.arg with ⟨v, t4, t5, hst, ⟨pid, hpid⟩, hall⟩
  rcases isSome_iff_exists.mp h.writerFork with ⟨wpid, hwpid⟩
  have hmany : 1 < v.stored.length ∧ 1 < v.out_stored.length := by
    rw [hst.inlen, hst.outlen]
    exact ⟨h.files, h.out_files⟩
  have hin : v.pipefd.isSome = true := by rw [hst.pipefd, h.feederPipe]; simpa using hmany.1
  have hout : v.out_pipefd.isSome = true := by rw [hst.out_pipefd, h.outPipe]; simpa using hmany.2
  rcases isSome_iff_exists.mp hin with ⟨⟨r, w⟩, hrw⟩
  rcases isSome_iff_exists.mp hout with ⟨⟨r', w'⟩, hrw'⟩
  have hexec := hst.execTable false pid
  have hends := hst.feederOpen r w hrw
  have hends' := hst.outOpen r' w' hrw'
  refine circularWait_of_pair ⟨.command, c, pid, v, t5⟩ ⟨.writer, c, wpid, v, t5⟩ (.feeder c)
    (.out c) (hall _ (.command hpid)) (hall _ (.writer hmany.2 hwpid)) ?_ ?_ ?_ ?_ ?_ ?_
  · rcases hexec.stdin with ⟨d, hd, -, hfeed⟩
    show readPipe ((Forked.execFds false false ⟨.command, c, pid, v, t5⟩).get 0) = _
    rw [hd, hfeed hin]
    rfl
  · have hne : ¬ ∃ s, v.out_pipefd = some (s, r') := by
      rintro ⟨s, hs⟩
      cases hrw'.symm.trans hs
      cases hends'.1.symm.trans hends'.2
    show (v.out_pipefd.bind fun f => readPipe ((closeWrite v.out_pipefd t5).get f.1)) = _
    rw [hrw', bind_some, ← hrw', (get_closeWrite _ _ r').2 hne, hends'.1]
    rfl
  · have hne : ¬ ∃ s, v.out_pipefd = some (s, w) := by
      rintro ⟨s, hs⟩
      cases hrw'.symm.trans hs
      cases hends'.2.symm.trans (hst.keeps _ _ hends.2)
    refine ⟨w, ?_⟩
    show (closeWrite v.out_pipefd t5).get w = _
    rw [(get_closeWrite _ _ w).2 hne, hst.keeps _ _ hends.2]
  · rcases hexec.stdout with ⟨d, hd, -, htee⟩
    exact ⟨1, by rw [← htee hout]; exact hd⟩
  · rintro ⟨x, hx⟩
    exact (hroster.shell x c).1 hx
  · rintro ⟨x, hx⟩
    exact (hroster.shell x c).2 hx

end Foreground

/-- **When a foreground pipeline cannot be caught.** Once `execute` has forked
a foreground pipeline, there is no circular wait for end of file exactly if no
stage has both at least two inputs and at least two outputs, with the pipes
and the writer that go with them. -/
theorem no_circular_wait_iff (env : Env) (input : List Token) (sh sh' : ShellState)
    (procs : List Forked) (hfresh : Fresh sh.fds)
    (h : execute env input false sh = .launched sh' procs) :
    ¬ CircularWait { p | p ∈ procs } Forked.reads Forked.writes
        (fun k => Holds sh'.fds (.writeEnd k)) ↔
      ¬ ∃ (c : Nat) (words : List Token),
        (stagesOf input)[c]? = some words ∧ FedAndTeed env c words := by
  by_cases hne : input = []
  · -- nothing is forked
    subst hne
    cases h
    refine iff_of_true ?_ ?_
    · rintro ⟨live, S, hlive, hS, ⟨p, hp⟩, -⟩
      exact absurd (hlive (hS hp)) (by simp)
    rintro ⟨c, words, hwords, hbad⟩
    have hnil : words ∈ [([] : List Token)] := List.mem_of_getElem? hwords
    rw [List.mem_singleton.mp hnil] at hbad
    exact hbad.arg rfl
  · have hroster := launched_roster hfresh hne h
    rw [not_iff_not]
    constructor
    · intro hwait
      by_contra hnone
      exact not_circularWait_of_rank Forked.rank
        (fun p hp k hk q hq hw => rank_lt_of_writes hroster hnone hp hk hq hw) hwait
    · rintro ⟨c, words, hwords, hbad⟩
      exact circularWait_of_fedAndTeed hroster hwords hbad

lemma start_fresh : Fresh ShellState.start.fds := by
  refine ⟨fun x d hx => ?_, ⟨0, rfl⟩, ⟨1, rfl⟩⟩
  match x with
  | 0 | 1 | 2 =>
    cases hx
    exact ⟨_, rfl⟩
  | x + 3 => cases hx

/-- `cat < a < b | tee > c > d`: a feeder in the first stage and a writer in
the second one do not get in each other's way. -/
theorem no_circular_wait_iff_two_stages :
    let input : List Token := [⟨.word, "cat"⟩, ⟨.less, "<"⟩, ⟨.word, "a"⟩, ⟨.less, "<"⟩,
      ⟨.word, "b"⟩, ⟨.pipe, "|"⟩, ⟨.word, "tee"⟩, ⟨.greater, ">"⟩, ⟨.word, "c"⟩,
      ⟨.greater, ">"⟩, ⟨.word, "d"⟩]
    ∃ sh' procs, execute .fine input false .start = .launched sh' procs ∧
      procs.map (fun p => (p.role, p.stage)) =
        [(.feeder, 0), (.command, 0), (.writer, 1), (.command, 1)] ∧
      ¬ CircularWait { p | p ∈ procs } Forked.reads Forked.writes
        (fun k => Holds sh'.fds (.writeEnd k)) := by
  intro input
  have hrun : ∃ sh' procs, execute .fine input false .start = .launched sh' procs ∧
      procs.map (fun p => (p.role, p.stage)) =
        [(.feeder, 0), (.command, 0), (.writer, 1), (.command, 1)] := ⟨_, _, rfl, rfl⟩
  rcases hrun with ⟨sh', procs, hrun, hroles⟩
  refine ⟨sh', procs, hrun, hroles,
    (no_circular_wait_iff .fine input .start sh' procs start_fresh hrun).mpr ?_⟩
  rintro ⟨c, words, hwords, hbad⟩
  match c with
  | 0 =>
    cases hwords
    exact absurd hbad.out_files (by decide)
  | 1 =>
    cases hwords
    exact absurd hbad.files (by decide)
  | c + 2 => cases hwords

/-- `cat < a < b > c > d`: the command waits for the end of the feeder's pipe,
whose write end the writer holds, and the writer for the end of its own pipe,
whose write end the command holds. -/
theorem cat_with_both_helpers_hangs :
    let input : List Token := [⟨.word, "cat"⟩, ⟨.less, "<"⟩, ⟨.word, "a"⟩, ⟨.less, "<"⟩,
      ⟨.word, "b"⟩, ⟨.greater, ">"⟩, ⟨.word, "c"⟩, ⟨.greater, ">"⟩, ⟨.word, "d"⟩]
    ∃ sh' procs, execute .fine input false .start = .launched sh' procs ∧
      CircularWait { p | p ∈ procs } Forked.reads Forked.writes
        (fun k => Holds sh'.fds (.writeEnd k)) := by
  intro input
  have hrun : ∃ sh' procs, execute .fine input false .start = .launched sh' procs := ⟨_, _, rfl⟩
  rcases hrun with ⟨sh', procs, hrun⟩
  have hstage : (stagesOf input)[0]? = some input := rfl
  have hbad : FedAndTeed .fine 0 input := by constructor <;> decide
  exact ⟨sh', procs, hrun,
    circularWait_of_fedAndTeed (launched_roster start_fresh (by simp [input]) hrun) hstage hbad⟩

end CshellXv6.Shell
