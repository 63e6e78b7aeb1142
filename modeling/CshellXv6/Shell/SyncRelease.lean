import CshellXv6.Shell.EndOfFile

/-! # The release of a background pipeline

The commands of a background pipeline wait for end of file on `sync_pipe`
before `execv`. The shell closes both its ends after `add_job`, and each
command has closed the write end before it reads. The feeders and writers,
however, inherit the write end and never close it: a command is released only
after every helper has ended, and some helpers end only after their command
has run. `sync_released_iff` says for which pipelines this happens.
-/

namespace CshellXv6.Shell

open Lib Option

/-! ## Who waits for whom -/

/-- The table of a process of a background pipeline while the commands wait. -/
def Forked.heldFds (p : Forked) : Table Desc :=
  match p.role with
  | .feeder => closeRead p.vars.pipefd p.fds
  | .writer => closeWrite p.vars.out_pipefd p.fds
  | .command => p.blockedFds

/-- The pipe on which a process waits for end of file meanwhile. -/
def Forked.awaits (p : Forked) : Option PipeId :=
  match p.role with
  | .feeder => none
  | .writer => p.vars.out_pipefd.bind (fun f => readPipe (p.heldFds.get f.1))
  | .command => p.vars.sync.bind (fun f => readPipe (p.heldFds.get f.1))

/-- The pipe that a process fills up before it can end: a feeder whose files
hold more than a pipe takes. `data c` is the total size of the input files of
stage `c`, `cap` the capacity of a pipe. -/
def Forked.fills (cap : Nat) (data : Nat → Nat) (p : Forked) : Option PipeId :=
  match p.role with
  | .feeder =>
    if p.vars.pipefd.isSome = true ∧ cap < data p.stage then some (.feeder p.stage) else none
  | _ => none

/-- `p` cannot end before `q` has moved on: `q` can still write what `p` waits
for, or could read what `p` has to write. -/
def DependsOn (cap : Nat) (data : Nat → Nat) (p q : Forked) : Prop :=
  (∃ k, p.awaits = some k ∧ Holds q.heldFds (.writeEnd k)) ∨
    ∃ k, p.fills cap data = some k ∧ Holds q.heldFds (.readEnd k)

/-- The commands are released: no process that holds the write end of the sync
pipe depends, directly or through other processes, on a command that still
waits for its end of file. -/
def SyncReleased (cap : Nat) (data : Nat → Nat) (procs : List Forked) : Prop :=
  ∀ p ∈ procs, Holds p.heldFds (.writeEnd .sync) →
    ¬ ∃ q ∈ procs, q.role = .command ∧ q.awaits = some .sync ∧
      Relation.TransGen (fun a b => b ∈ procs ∧ DependsOn cap data a b) p q

/-- A stage with a helper that waits for its command: a writer, or a feeder
with more data than the pipe takes. -/
def HasWaitingHelper (env : Env) (cap : Nat) (data : Nat → Nat) (c : Nat) (words : List Token) :
    Prop :=
  (scanText words).arg ≠ [] ∧
    ((1 < (scanText words).out_files.length ∧ env.outPipe c = true ∧
        (env.writerFork c).isSome = true) ∨
      (1 < (scanText words).files.length ∧ env.feederPipe c = true ∧
        (env.feederFork c).isSome = true ∧ cap < data c))

section Background

variable {env : Env} {stages : List (List Token)} {sync : PipeFds} {c x r w : Nat}
  {words : List Token} {v : Locals} {t4 t5 fds : Table Desc} {p q : Forked} {cap : Nat}
  {data : Nat → Nat} {d : Desc} {procs : List Forked}

/-- A command holds everything it inherited but the write end of the sync
pipe. -/
lemma Staged.blocked_get (h : Staged env stages c words sync v t4 t5) (pid : Int)
    (hx : t5.get x = some d) (hd : d ≠ .writeEnd .sync) :
    (Forked.heldFds ⟨.command, c, pid, v, t5⟩).get x = some d := by
  show (closeWrite v.sync t5).get x = some d
  rw [(get_closeWrite v.sync t5 x).2, hx]
  rintro ⟨r, hr⟩
  have hopen := h.keeps _ _ (h.syncOpen r x hr).2
  exact hd (Option.some.inj (hx.symm.trans hopen))

/-- A waiting command waits for the sync pipe. -/
lemma Staged.command_awaits (h : Staged env stages c words sync v t4 t5) (pid : Int)
    (hrw : v.sync = some (r, w)) : Forked.awaits ⟨.command, c, pid, v, t5⟩ = some .sync := by
  have hopen := h.keeps _ _ (h.syncOpen r w hrw).1
  have hheld := h.blocked_get pid hopen (by simp)
  show (v.sync.bind fun f => readPipe ((Forked.heldFds ⟨.command, c, pid, v, t5⟩).get f.1)) = _
  rw [hrw, bind_some, hheld]
  rfl

/-- A helper of the stage that waits keeps the commands from their release. -/
lemma not_released_of_waiting (hroster : Roster env stages sync fds procs)
    (hsync : sync.isSome = true) (hwords : stages[c]? = some words)
    (h : HasWaitingHelper env cap data c words) : ¬ SyncReleased cap data procs := by
  intro hreleased
  rcases h with ⟨harg, hhelper⟩
  rcases hroster.present c words hwords harg with ⟨v, t4, t5, hst, ⟨pid, hpid⟩, hall⟩
  rcases isSome_iff_exists.mp hsync with ⟨⟨r, w⟩, hrw⟩
  have hsyncv : v.sync = some (r, w) := hst.sync.trans hrw
  have hends := hst.syncOpen r w hsyncv
  have hcommand := hall _ (.command hpid)
  have hawaits := hst.command_awaits pid hsyncv
  -- one step leads from the helper to the command of its stage
  have hstuck : ∀ p ∈ procs, Holds p.heldFds (.writeEnd .sync) →
      ¬ DependsOn cap data p ⟨.command, c, pid, v, t5⟩ := by
    intro p hp hholds hdep
    exact hreleased p hp hholds
      ⟨_, hcommand, rfl, hawaits, Relation.TransGen.single ⟨hcommand, hdep⟩⟩
  rcases hhelper with ⟨hlen, hpipe, hfork⟩ | ⟨hlen, hpipe, hfork, hdata⟩
  · rcases isSome_iff_exists.mp hfork with ⟨wpid, hwpid⟩
    have hmany : 1 < v.out_stored.length := by rw [hst.outlen]; exact hlen
    have hsome : v.out_pipefd.isSome = true := by rw [hst.out_pipefd, hpipe]; simpa using hmany
    rcases isSome_iff_exists.mp hsome with ⟨⟨r', w'⟩, hrw'⟩
    have hends' := hst.outOpen r' w' hrw'
    -- the writer closes `out_pipefd[1]` only
    have hkept : ∀ {x d}, t5.get x = some d → d ≠ .writeEnd (.out c) →
        (closeWrite v.out_pipefd t5).get x = some d := by
      intro x d hx hd
      rw [(get_closeWrite _ _ x).2, hx]
      rintro ⟨s, hs⟩
      exact hd (Option.some.inj (hx.symm.trans (hst.outOpen s x hs).2))
    refine hstuck _ (hall _ (.writer hmany hwpid)) ?_ (.inl ⟨.out c, ?_, ?_⟩)
    · exact ⟨w, hkept (hst.keeps _ _ hends.2) (by simp)⟩
    · show (v.out_pipefd.bind fun f => readPipe ((closeWrite v.out_pipefd t5).get f.1)) = _
      rw [hrw', bind_some, ← hrw', hkept hends'.1 (by simp)]
      rfl
    · exact ⟨w', hst.blocked_get pid hends'.2 (by simp)⟩
  · rcases isSome_iff_exists.mp hfork with ⟨fpid, hfpid⟩
    have hmany : 1 < v.stored.length := by rw [hst.inlen]; exact hlen
    have hsome : v.pipefd.isSome = true := by rw [hst.pipefd, hpipe]; simpa using hmany
    rcases isSome_iff_exists.mp hsome with ⟨⟨r', w'⟩, hrw'⟩
    have hends' := hst.feederOpen r' w' hrw'
    refine hstuck _ (hall _ (.feeder hmany hfpid)) ?_ (.inr ⟨.feeder c, ?_, ?_⟩)
    · -- the feeder closes `pipefd[0]` only
      refine ⟨w, ?_⟩
      show (closeRead v.pipefd t4).get w = _
      have hne : w ≠ r' := ne_of_get hends.2 hends'.1 (by simp)
      rw [hrw', closeRead, Table.get_close, if_neg hne, hends.2]
    · exact if_pos ⟨hsome, hdata⟩
    · exact ⟨r', hst.blocked_get pid (hst.keeps _ _ hends'.1) (by simp)⟩

/-- Who holds the write end of the sync pipe is a helper. -/
lemma ChildOf.not_command_of_holds (hst : Staged env stages c words sync v t4 t5)
    (hp : ChildOf env c v t4 t5 p) (hholds : Holds p.heldFds (.writeEnd .sync)) :
    p.role ≠ .command ∧ sync.isSome = true := by
  rcases hholds with ⟨x, hx⟩
  cases hp with
  | feeder =>
    refine ⟨by simp, ?_⟩
    cases hst.known4 x _ (closeRead_get hx) with
    | syncWrite h => exact isSome_iff_exists.mpr ⟨_, hst.sync.symm.trans h⟩
  | writer =>
    refine ⟨by simp, ?_⟩
    cases hst.known5 x _ ((get_closeWrite _ _).of_get hx).1 with
    | syncWrite h => exact isSome_iff_exists.mpr ⟨_, hst.sync.symm.trans h⟩
  | command =>
    -- a command has closed it, under the only descriptor it had
    exfalso
    obtain ⟨hopen, hnot⟩ := (get_closeWrite _ _).of_get hx
    cases hst.known5 x _ hopen with
    | syncWrite h => exact hnot ⟨_, h⟩

/-- A helper that depends on anything is one of a stage with a waiting
helper. -/
lemma ChildOf.waiting_of_dependsOn (hst : Staged env stages c words sync v t4 t5)
    (hp : ChildOf env c v t4 t5 p) (hrole : p.role ≠ .command) (hdep : DependsOn cap data p q) :
    HasWaitingHelper env cap data c words := by
  cases hp with
  | @feeder pid hneed hfork =>
    -- a feeder only waits to write more than its pipe takes
    have hfull : env.feederPipe c = true ∧ cap < data c := by
      rcases hdep with ⟨k, hk, -⟩ | ⟨k, hk, -⟩
      · cases hk
      simp only [Forked.fills] at hk
      split at hk
      next hfull =>
        have hsome := hst.pipefd
        rw [hfull.1] at hsome
        exact ⟨(Bool.and_eq_true_iff.mp hsome.symm).2, hfull.2⟩
      · cases hk
    refine ⟨hst.arg, .inr ⟨?_, hfull.1, by simp [hfork], hfull.2⟩⟩
    rw [← hst.inlen]
    exact hneed
  | @writer pid hneed hfork =>
    refine ⟨hst.arg, .inl ⟨by rw [← hst.outlen]; exact hneed, ?_, by simp [hfork]⟩⟩
    rcases hdep with ⟨k, hk, -⟩ | ⟨k, hk, -⟩
    · rcases bind_eq_some_iff.mp hk with ⟨f, hf, -⟩
      have hsome := hst.out_pipefd
      rw [show v.out_pipefd = some f from hf, isSome_some] at hsome
      exact (Bool.and_eq_true_iff.mp hsome.symm).2
    · cases hk
  | command => exact absurd rfl hrole

end Background

/-- **When a background pipeline is released.** After the shell has closed
both ends of the sync pipe, no holder of its write end depends on a command
that waits for it, exactly if there is no sync pipe at all or no stage has a
writer or a feeder with more data than a pipe takes. -/
theorem sync_released_iff (env : Env) (input : List Token) (sh sh' : ShellState)
    (procs : List Forked) (cap : Nat) (data : Nat → Nat) (hfresh : Fresh sh.fds)
    (h : execute env input true sh = .launched sh' procs) :
    SyncReleased cap data procs ↔
      ¬ (env.syncPipe = true ∧ ∃ (c : Nat) (words : List Token),
        (stagesOf input)[c]? = some words ∧ HasWaitingHelper env cap data c words) := by
  by_cases hne : input = []
  · -- nothing is forked
    subst hne
    cases h
    refine iff_of_true (fun p hp => absurd hp (by simp)) ?_
    rintro ⟨-, c, words, hwords, hbad⟩
    have hnil : words ∈ [([] : List Token)] := List.mem_of_getElem? hwords
    rw [List.mem_singleton.mp hnil] at hbad
    exact hbad.1 rfl
  have hroster := launched_roster hfresh hne h
  have hsync : (openSync env true sh.fds).1.isSome = env.syncPipe := by
    rw [openSync, openPipe_isSome, Bool.true_and]
  constructor
  · rintro hreleased ⟨hpipe, c, words, hwords, hbad⟩
    exact not_released_of_waiting hroster (hsync.trans hpipe) hwords hbad hreleased
  rintro hnone p hp hholds ⟨q, hq, -, -, hdep⟩
  rcases hroster.child p hp with ⟨c, words, v, t4, t5, hwords, hst, hchild⟩
  rcases hchild.not_command_of_holds hst hholds with ⟨hrole, hsome⟩
  -- the chain of dependencies starts at the helper itself
  have hfirst : ∃ b, DependsOn cap data p b := by
    rcases Relation.TransGen.head'_iff.mp hdep with ⟨b, hb, -⟩
    exact ⟨b, hb.2⟩
  rcases hfirst with ⟨b, hb⟩
  exact hnone ⟨hsync.symm.trans hsome, c, words, hwords, hchild.waiting_of_dependsOn hst hrole hb⟩

/-- `cat < a < b &` with less data than a pipe takes: the feeder ends, and the
command is released. -/
theorem sync_released_iff_small_files :
    let input : List Token := [⟨.word, "cat"⟩, ⟨.less, "<"⟩, ⟨.word, "a"⟩, ⟨.less, "<"⟩,
      ⟨.word, "b"⟩]
    ∃ sh' procs, execute .fine input true .start = .launched sh' procs ∧
      procs.map (fun p => (p.role, p.stage)) = [(.feeder, 0), (.command, 0)] ∧
      SyncReleased 65536 (fun _ => 1000) procs := by
  intro input
  have hrun : ∃ sh' procs, execute .fine input true .start = .launched sh' procs ∧
      procs.map (fun p => (p.role, p.stage)) = [(.feeder, 0), (.command, 0)] := ⟨_, _, rfl, rfl⟩
  rcases hrun with ⟨sh', procs, hrun, hroles⟩
  refine ⟨sh', procs, hrun, hroles, (sync_released_iff .fine input .start sh' procs 65536
    (fun _ => 1000) start_fresh hrun).mpr ?_⟩
  rintro ⟨-, c, words, hwords, -, hbad⟩
  match c with
  | 0 =>
    cases hwords
    rcases hbad with ⟨hlen, -⟩ | ⟨-, -, -, hdata⟩
    · exact absurd hlen (by decide)
    · exact absurd hdata (by decide)
  | c + 1 => cases hwords

/-- `cat > a > b &`: the writer holds the write end of the sync pipe and waits
for the command, which waits for the sync pipe. -/
theorem background_writer_blocks_release :
    let input : List Token := [⟨.word, "cat"⟩, ⟨.greater, ">"⟩, ⟨.word, "a"⟩, ⟨.greater, ">"⟩,
      ⟨.word, "b"⟩]
    ∃ sh' procs, execute .fine input true .start = .launched sh' procs ∧
      ¬ SyncReleased 65536 (fun _ => 0) procs := by
  intro input
  have hrun : ∃ sh' procs, execute .fine input true .start = .launched sh' procs := ⟨_, _, rfl⟩
  rcases hrun with ⟨sh', procs, hrun⟩
  have hstage : (stagesOf input)[0]? = some input := rfl
  have hbad : HasWaitingHelper .fine 65536 (fun _ => 0) 0 input :=
    ⟨by decide, .inl ⟨by decide, rfl, rfl⟩⟩
  exact ⟨sh', procs, hrun, not_released_of_waiting
    (launched_roster start_fresh (by simp [input]) hrun) rfl hstage hbad⟩

end CshellXv6.Shell
