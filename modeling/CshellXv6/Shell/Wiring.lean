import CshellXv6.Shell.Inherited

/-! # The standard streams of a pipeline

What each command of a pipeline reads and writes when every call succeeds, and that
`execute` leaves the descriptors of the shell as it found them.

Everything rests on one fact about a stage: the descriptors that it opens take slots
that are free in the table at the beginning of the loop (`Ready.slot_free`). So they
are neither the standard streams nor the ends of the sync pipe, and closing them gives
that table back.
-/

namespace CshellXv6.Shell

open Lib List

/-! ## What the streams are to be -/

/-- The standard input of stage `c`; `t` is the table of the shell. -/
def stdinOf (bg : Bool) (t : Table Desc) : Nat → List String → Option Desc
  | c, [_] => some (.file (.input c 0))
  | c, _ :: _ :: _ => some (.readEnd (.feeder c))
  | c + 1, [] => some (.readEnd (.stage c))
  | 0, [] => if bg then some (.file .null) else t.get 0

/-- The standard output of stage `c` of `n`. -/
def stdoutOf (t : Table Desc) (n c : Nat) : List (String × Bool) → Option Desc
  | [_] => some (.file (.output c 0))
  | _ :: _ :: _ => some (.writeEnd (.out c))
  | [] => if c + 1 < n then some (.writeEnd (.stage c)) else t.get 1

/-- Every call that stage `c` needs succeeds. -/
structure Runnable (env : Env) (n c : Nat) (words : List Token) : Prop where
  arg : (scanText words).arg ≠ []
  start : Startable env c words
  stagePipe : c + 1 < n → env.stagePipe c = true
  feederPipe : 1 < (scanText words).files.length → env.feederPipe c = true
  outPipe : 1 < (scanText words).out_files.length → env.outPipe c = true
  fork : (env.fork c).isSome = true

/-- The command gets the streams it is to have. -/
def Wired (bg : Bool) (t : Table Desc) (stages : List (List Token)) (p : Forked) : Prop :=
  ∃ words, stages[p.stage]? = some words ∧
    (p.execFds bg true).get 0 = stdinOf bg t p.stage (scanText words).files ∧
    (p.execFds bg true).get 1 =
      stdoutOf t stages.length p.stage (scanText words).out_files

/-! ## Between two stages -/

/-- The table before stage `c`: that of the beginning, and the pipe from the stage
before. -/
structure Linked (base : Table Desc) (c : Nat) (st : Loop) : Prop where
  others : ∀ x, ¬ (0 < c ∧ x = st.in_fd) → st.fds.get x = base.get x
  first : c = 0 → st.in_fd = 0
  input : ∀ e, c = e + 1 → st.in_fd ≠ 0 ∧ base.get st.in_fd = none ∧
    st.fds.get st.in_fd = some (.readEnd (.stage e))

/-- The slots of a stage. -/
inductive Slot (v : Locals) (x : Nat) : Prop where
  | next (h : InPair x v.fd)
  | input (h : x ∈ v.stored)
  | output (h : x ∈ v.out_stored)
  | feeder (h : InPair x v.pipefd)
  | writer (h : InPair x v.out_pipefd)
  | before (h : v.in_fd ≠ 0 ∧ x = v.in_fd)

section Stage

variable {env : Env} {n c x r w : Nat} {sync fds : PipeFds} {words : List Token}
  {st : Loop} {v : Locals} {t1 t2 t3 t4 t5 base t t0 t' : Table Desc} {procs1 procs2 : List Forked}
  {bg : Bool} {pid : Int} {stages : List (List Token)}

lemma Linked.keeps (h : Linked base c st) : Extends base st.fds := by
  intro x d hx
  rw [h.others, hx]
  rintro ⟨hc, rfl⟩
  have hnone := (h.input (c - 1) (by omega)).2.1
  rw [hnone] at hx
  cases hx

/-- A slot that is free later was free at the beginning. -/
lemma get_none_of_extends (h : Extends t t') (hx : t'.get x = none) : t.get x = none := by
  cases hd : t.get x with
  | none => rfl
  | some d =>
    rw [h x d hd] at hx
    cases hx

lemma Ready.slot_free (h : Ready env n c sync words st v t1 t2 t3 t4 t5 procs1 procs2)
    (hlink : Linked base c st) (hx : Slot v x) : base.get x = none := by
  have h1 : Extends base t1 := hlink.keeps.trans h.piped.keeps
  have h2 : Extends base t2 := h1.trans h.ins.keeps
  have h3 : Extends base t3 := h2.trans h.outs.keeps
  have h4 : Extends base t4 := h3.trans h.feeder.piped.keeps
  rcases hx with hx | hx | hx | hx | hx | ⟨hne, rfl⟩
  · exact get_none_of_extends hlink.keeps (h.piped.get_of_inPair hx).1
  · exact get_none_of_extends h1 (h.ins.fresh x hx)
  · exact get_none_of_extends h2 (h.outs.fresh x hx)
  · exact get_none_of_extends h3 (h.feeder.piped.get_of_inPair hx).1
  · exact get_none_of_extends h4 (h.writer.piped.get_of_inPair hx).1
  rw [h.in_fd] at hne ⊢
  cases c with
  | zero => exact absurd (hlink.first rfl) hne
  | succ e => exact (hlink.input e rfl).2.1

/-- Outside its slots a stage changes nothing. -/
lemma Ready.get_of_not_slot (h : Ready env n c sync words st v t1 t2 t3 t4 t5 procs1 procs2)
    (hlink : Linked base c st) (hx : ¬ Slot v x) : t5.get x = base.get x := by
  rw [h.writer.piped.get_of_not_inPair fun hp => hx (.writer hp),
    h.feeder.piped.get_of_not_inPair fun hp => hx (.feeder hp),
    h.outs.get x fun hm => hx (.output hm), h.ins.get x fun hm => hx (.input hm),
    h.piped.get_of_not_inPair fun hp => hx (.next hp), hlink.others]
  rintro ⟨hc, rfl⟩
  rw [← h.in_fd] at hx
  exact hx (.before ⟨h.in_fd ▸ (hlink.input (c - 1) (by omega)).1, rfl⟩)

/-- What the shell is left with after the stage. -/
lemma Ready.get_after (h : Ready env n c sync words st v t1 t2 t3 t4 t5 procs1 procs2)
    (hlink : Linked base c st) (hx : ∀ w, v.fd ≠ some (x, w)) :
    (closeAfterFork v t5).get x = base.get x := by
  by_cases hclosed : ClosedAfter v x
  · have hslot : Slot v x := by
      rcases hclosed with ⟨r, hx⟩ | hx | hx | hx | hx | hx
      · exact .next ⟨r, x, hx, .inr rfl⟩
      · exact .before hx
      · exact .output hx
      · exact .input hx
      · exact .writer hx
      · exact .feeder hx
    rw [(get_closeAfterFork v t5 x).1 hclosed, h.slot_free hlink hslot]
  rw [(get_closeAfterFork v t5 x).2 hclosed]
  refine h.get_of_not_slot hlink fun hslot => hclosed ?_
  rcases hslot with ⟨r, w, hrw, rfl | rfl⟩ | hx | hx | hx | hx | hx
  · exact absurd hrw (hx w)
  · exact .inl ⟨r, hrw⟩
  · exact .inr (.inr (.inr (.inl hx)))
  · exact .inr (.inr (.inl hx))
  · exact .inr (.inr (.inr (.inr (.inr hx))))
  · exact .inr (.inr (.inr (.inr (.inl hx))))
  · exact .inr (.inl hx)

/-! ## The streams of a command -/

/-- The table of a command before its redirections. -/
def startFds (bg : Bool) (p : Forked) : Table Desc := if bg then p.releasedFds true else p.fds

/-- `/dev/null` instead of the standard input. -/
lemma get_null (h : t.get 0 ≠ none) (x : Nat) :
    (((t.alloc (.file .null)).dup2 t.fresh 0).close t.fresh).get x =
      if x = 0 then some (.file .null) else t.get x := by
  have hopen : (t.alloc (.file .null)).get t.fresh = some (.file .null) := by
    rw [Table.get_alloc, if_pos rfl]
  have hne : t.fresh ≠ 0 := by
    intro h0
    exact h (h0 ▸ Table.get_fresh t)
  rw [Table.get_close, Table.get_dup2 hopen, Table.get_alloc]
  by_cases hx : x = t.fresh
  · subst hx
    rw [if_pos rfl, if_neg hne, Table.get_fresh]
  · rw [if_neg hx, if_neg hx]

/-- Both ends of the sync pipe are closed before the redirections. -/
lemma get_closeEnds (h : ¬ InPair x fds) : (closeRead fds (closeWrite fds t)).get x = t.get x := by
  cases fds with
  | none => rfl
  | some fds =>
    rcases fds with ⟨r, w⟩
    have hr : x ≠ r := fun hx => h ⟨r, w, rfl, .inl hx⟩
    have hw : x ≠ w := fun hx => h ⟨r, w, rfl, .inr hx⟩
    rw [closeRead, closeWrite, Table.get_close, Table.get_close, if_neg hr, if_neg hw]

lemma get_startFds (hx : ¬ InPair x v.sync) (h0 : ¬ InPair 0 v.sync) (hopen : t5.get 0 ≠ none) :
    (startFds bg ⟨.command, c, pid, v, t5⟩).get x =
      if x = 0 ∧ bg = true ∧ v.stored = [] ∧ v.in_fd = 0 then some (.file .null)
      else t5.get x := by
  unfold startFds
  cases bg with
  | false => simp
  | true =>
    rw [if_pos rfl, Forked.releasedFds, Forked.blockedFds]
    dsimp only
    by_cases hnull : v.stored = [] ∧ v.in_fd = 0
    · have hopen' : (closeRead v.sync (closeWrite v.sync t5)).get 0 ≠ none := by
        rwa [get_closeEnds h0]
      rw [if_pos ⟨hnull.1, hnull.2, rfl⟩, get_null hopen', get_closeEnds hx]
      by_cases hx0 : x = 0
      · rw [if_pos hx0, if_pos ⟨hx0, rfl, hnull⟩]
      · rw [if_neg hx0, if_neg fun h => hx0 h.1]
    · rw [if_neg fun h => hnull ⟨h.1, h.2.1⟩, get_closeEnds hx, if_neg fun h => hnull h.2.2]

/-- What is open under the variables for the standard input of a stage. -/
structure InOpen (c : Nat) (v : Locals) (t : Table Desc) : Prop where
  stored : ∀ (k x : Nat), v.stored[k]? = some x → t.get x = some (.file (.input c k))
  pipefd : ∀ r w, v.pipefd = some (r, w) → t.get r = some (.readEnd (.feeder c)) ∧
    t.get w = some (.writeEnd (.feeder c))
  in_fd : v.in_fd ≠ 0 → ∃ e, c = e + 1 ∧ t.get v.in_fd = some (.readEnd (.stage e))

/-- What is open under the variables for its standard output. -/
structure OutOpen (c : Nat) (v : Locals) (t : Table Desc) : Prop where
  out_stored : ∀ (k x : Nat), v.out_stored[k]? = some x → t.get x = some (.file (.output c k))
  fd : ∀ r w, v.fd = some (r, w) → t.get w = some (.writeEnd (.stage c))
  out_pipefd : ∀ r w, v.out_pipefd = some (r, w) → t.get w = some (.writeEnd (.out c))

lemma Ready.inOpen (h : Ready env n c sync words st v t1 t2 t3 t4 t5 procs1 procs2)
    (hlink : Linked base c st) : InOpen c v t5 := by
  have h4 : Extends t4 t5 := h.writer.piped.keeps
  have h2 : Extends t2 t5 := (h.outs.keeps.trans h.feeder.piped.keeps).trans h4
  refine ⟨?_, ?_, ?_⟩
  · exact fun k x hk => h2 x _ (h.ins.file k x hk)
  · intro r w hrw
    have hends := (hrw ▸ h.feeder.piped).get_ends
    exact ⟨h4 r _ hends.1, h4 w _ hends.2⟩
  intro hne
  rw [h.in_fd] at hne ⊢
  cases c with
  | zero => exact absurd (hlink.first rfl) hne
  | succ e => exact ⟨e, rfl, h.keeps _ _ (hlink.input e rfl).2.2⟩

lemma Ready.outOpen (h : Ready env n c sync words st v t1 t2 t3 t4 t5 procs1 procs2) :
    OutOpen c v t5 := by
  have h3 : Extends t3 t5 := h.feeder.piped.keeps.trans h.writer.piped.keeps
  have h1 : Extends t1 t5 := (h.ins.keeps.trans h.outs.keeps).trans h3
  refine ⟨?_, ?_, ?_⟩
  · exact fun k x hk => h3 x _ (h.outs.file k x hk)
  · intro r w hrw
    exact h1 w _ (hrw ▸ h.piped).get_ends.2
  · intro r w hrw
    exact (hrw ▸ h.writer.piped).get_ends.2

/-- The shell keeps the read end of the pipe to the next stage. -/
lemma Ready.get_next (h : Ready env n c sync words st v t1 t2 t3 t4 t5 procs1 procs2)
    (hin : InOpen c v t5) (hout : OutOpen c v t5) (hrw : v.fd = some (r, w)) :
    (closeAfterFork v t5).get r = some (.readEnd (.stage c)) := by
  have h1 : Extends t1 t5 := ((h.ins.keeps.trans h.outs.keeps).trans h.feeder.piped.keeps).trans
    h.writer.piped.keeps
  have hopen : t5.get r = some (.readEnd (.stage c)) := h1 r _ (hrw ▸ h.piped).get_ends.1
  rw [(get_closeAfterFork v t5 r).2, hopen]
  rintro (⟨r', h'⟩ | ⟨hne, h'⟩ | h' | h' | ⟨r', w', h', rfl | rfl⟩ | ⟨r', w', h', rfl | rfl⟩)
  · cases (hout.fd _ _ h').symm.trans hopen
  · obtain ⟨e, rfl, hget⟩ := hin.in_fd hne
    rw [← h', hopen] at hget
    cases hget
  · obtain ⟨k, hk⟩ := mem_iff_getElem?.mp h'
    cases (hout.out_stored k r hk).symm.trans hopen
  · obtain ⟨k, hk⟩ := mem_iff_getElem?.mp h'
    cases (hin.stored k r hk).symm.trans hopen
  · cases (h' ▸ h.writer.piped).get_ends.1.symm.trans hopen
  · cases (hout.out_pipefd _ _ h').symm.trans hopen
  · cases (hin.pipefd _ _ h').1.symm.trans hopen
  · cases (hin.pipefd _ _ h').2.symm.trans hopen

lemma InOpen.of_slots (h : InOpen c v t5) (ht : ∀ x, Slot v x → t.get x = t5.get x) :
    InOpen c v t := by
  refine ⟨?_, ?_, ?_⟩
  · intro k x hk
    rw [ht x (.input (mem_of_getElem? hk)), h.stored k x hk]
  · intro r w hrw
    have hslot : ∀ x, x = r ∨ x = w → Slot v x := fun x hx => .feeder ⟨r, w, hrw, hx⟩
    rw [ht r (hslot r (.inl rfl)), ht w (hslot w (.inr rfl))]
    exact h.pipefd r w hrw
  · intro hne
    rw [ht v.in_fd (.before ⟨hne, rfl⟩)]
    exact h.in_fd hne

lemma OutOpen.of_slots (h : OutOpen c v t5)
    (ht : ∀ x, Slot v x → ¬ InPair x v.pipefd → t.get x = t5.get x) (hin : InOpen c v t5) :
    OutOpen c v t := by
  -- the feeder's pipe is not used for the output
  have hpair : ∀ {x d}, t5.get x = some d → d ≠ .readEnd (.feeder c) → d ≠ .writeEnd (.feeder c) →
      ¬ InPair x v.pipefd := by
    rintro x d hx hr hw ⟨r, w, hrw, rfl | rfl⟩
    · exact hr (Option.some.inj (hx.symm.trans (hin.pipefd _ _ hrw).1))
    · exact hw (Option.some.inj (hx.symm.trans (hin.pipefd _ _ hrw).2))
  refine ⟨?_, ?_, ?_⟩
  · intro k x hk
    have hx := h.out_stored k x hk
    have hnot := hpair hx (by simp) (by simp)
    rw [ht x (.output (mem_of_getElem? hk)) hnot, hx]
  · intro r w hrw
    have hw := h.fd r w hrw
    rw [ht w (.next ⟨r, w, hrw, .inr rfl⟩) (hpair hw (by simp) (by simp)), hw]
  intro r w hrw
  have hw := h.out_pipefd r w hrw
  rw [ht w (.writer ⟨r, w, hrw, .inr rfl⟩) (hpair hw (by simp) (by simp)), hw]

/-- The redirection of the standard input touches nothing else but the feeder's pipe. -/
lemma get_redirectIn_of_ne (hx : x ≠ 0) (hp : ¬ InPair x v.pipefd) :
    (redirectIn v t).get x = t.get x := by
  unfold redirectIn
  split
  · split
    · exact Table.get_dup2_of_ne hx
    · rfl
  · exact Table.get_dup2_of_ne hx
  split
  · rfl
  next r w hrw =>
    rw [hrw] at hp
    exact ((get_closePair _ _ x).2 hp).trans (Table.get_dup2_of_ne hx)

lemma get_redirectOut_of_ne (hx : x ≠ 1) (hp : ¬ InPair x v.out_pipefd) :
    (redirectOut v t).get x = t.get x := by
  unfold redirectOut
  split
  · split
    · rfl
    · exact Table.get_dup2_of_ne hx
  · exact Table.get_dup2_of_ne hx
  split
  · rfl
  next r w hrw =>
    rw [hrw] at hp
    exact ((get_closePair _ _ x).2 hp).trans (Table.get_dup2_of_ne hx)

/-- More than one redirection. -/
lemma exists_two {α β : Type} {l : List α} {m : List β} (hlen : l.length = m.length)
    (hnil : l = [] → False) (hone : ∀ x, l = [x] → False) : ∃ a b rest, m = a :: b :: rest := by
  rcases m with _ | ⟨a, _ | ⟨b, rest⟩⟩
  · exact (hnil (length_eq_zero_iff.mp hlen)).elim
  · obtain ⟨x, hx⟩ := length_eq_one_iff.mp hlen
    exact (hone x hx).elim
  · exact ⟨a, b, rest, rfl⟩

/-- The standard input after the redirection. -/
lemma get_redirectIn_zero {files : List String}
    (h : InOpen c v t) (hlen : v.stored.length = files.length)
    (hpipe : 1 < files.length → v.pipefd.isSome = true) (hpair : ¬ InPair 0 v.pipefd)
    (hfirst : v.in_fd = 0 → c = 0)
    (hzero : t.get 0 =
      if bg = true ∧ v.stored = [] ∧ v.in_fd = 0 then some (.file .null) else t0.get 0) :
    (redirectIn v t).get 0 = stdinOf bg t0 c files := by
  unfold redirectIn
  split
  next hst =>
    have hnil : files = [] := length_eq_zero_iff.mp (by rw [← hlen, hst]; rfl)
    subst hnil
    split
    next hne =>
      obtain ⟨e, rfl, hopen⟩ := h.in_fd hne
      rw [Table.get_dup2 hopen, if_pos rfl, stdinOf]
    next hne =>
      have hin : v.in_fd = 0 := not_not.mp hne
      have hc := hfirst hin
      subst hc
      rw [hzero, stdinOf]
      simp [hst, hin]
  next s hst =>
    obtain ⟨file, rfl⟩ : ∃ file, files = [file] :=
      length_eq_one_iff.mp (by rw [← hlen, hst]; rfl)
    have hopen := h.stored 0 s (by rw [hst]; rfl)
    rw [Table.get_dup2 hopen, if_pos rfl, stdinOf]
  next hnil hone =>
    obtain ⟨a, b, rest, rfl⟩ := exists_two hlen hnil hone
    split
    next hnone =>
      have hsome := hpipe (by simp)
      rw [hnone] at hsome
      cases hsome
    next r w hrw =>
      have hends : ¬ (0 = r ∨ 0 = w) := fun h => hpair ⟨r, w, hrw, h⟩
      rw [Table.get_dup2_close (h.pipefd r w hrw).1, if_neg hends, if_pos rfl, stdinOf]

/-- The standard output after the redirection. -/
lemma get_redirectOut_one {out_files : List (String × Bool)} (h : OutOpen c v t)
    (hlen : v.out_stored.length = out_files.length)
    (hpipe : 1 < out_files.length → v.out_pipefd.isSome = true) (hpair : ¬ InPair 1 v.out_pipefd)
    (hfd : v.fd.isSome = decide (c + 1 < n)) (hone : t.get 1 = t0.get 1) :
    (redirectOut v t).get 1 = stdoutOf t0 n c out_files := by
  unfold redirectOut
  split
  next hst =>
    have hnil : out_files = [] := length_eq_zero_iff.mp (by rw [← hlen, hst]; rfl)
    subst hnil
    rw [stdoutOf]
    split
    next hnone =>
      rw [hnone] at hfd
      rw [hone, if_neg (of_decide_eq_false hfd.symm)]
    next r w hrw =>
      rw [hrw] at hfd
      rw [Table.get_dup2 (h.fd r w hrw), if_pos rfl, if_pos (of_decide_eq_true hfd.symm)]
  next s hst =>
    obtain ⟨file, rfl⟩ : ∃ file, out_files = [file] :=
      length_eq_one_iff.mp (by rw [← hlen, hst]; rfl)
    have hopen := h.out_stored 0 s (by rw [hst]; rfl)
    rw [Table.get_dup2 hopen, if_pos rfl, stdoutOf]
  next hnil hone =>
    obtain ⟨a, b, rest, rfl⟩ := exists_two hlen hnil hone
    split
    next hnone =>
      have hsome := hpipe (by simp)
      rw [hnone] at hsome
      cases hsome
    next r w hrw =>
      have hends : ¬ (1 = r ∨ 1 = w) := fun h => hpair ⟨r, w, hrw, h⟩
      rw [Table.get_dup2_close (h.out_pipefd r w hrw), if_neg hends, if_pos rfl, stdoutOf]

/-- The closes before `execv` concern slots only. -/
lemma get_execFds (hx : ¬ Slot v x) :
    (Forked.execFds bg true ⟨.command, c, pid, v, t5⟩).get x =
      (redirectOut v (redirectIn v (startFds bg ⟨.command, c, pid, v, t5⟩))).get x := by
  refine (closes_execFds bg true _ x).2 ?_
  rintro (h | h | h | h)
  · exact hx (.output h)
  · exact hx (.input h)
  · exact hx (.next h)
  · exact hx (.before h)

/-- The table before the loop: that of the shell, with the sync pipe. -/
structure Begun (t0 : Table Desc) (sync : PipeFds) (base : Table Desc) : Prop where
  piped : Piped .sync t0 sync base
  stdin : t0.get 0 ≠ none
  stdout : t0.get 1 ≠ none

lemma Begun.get (h : Begun t0 sync base) (hx : t0.get x ≠ none) :
    base.get x = t0.get x ∧ ¬ InPair x sync := by
  constructor
  · obtain ⟨d, hd⟩ := Option.ne_none_iff_exists'.mp hx
    rw [hd, h.piped.keeps x d hd]
  · intro hpair
    exact hx (h.piped.get_of_inPair hpair).1

/-- The command of a stage gets the streams it is to have. -/
lemma Ready.wired (h : Ready env stages.length c sync words st v t1 t2 t3 t4 t5 procs1 procs2)
    (hlink : Linked base c st) (hbegun : Begun t0 sync base) (hwords : stages[c]? = some words)
    (hrun : Runnable env stages.length c words) : Wired bg t0 stages ⟨.command, c, pid, v, t5⟩ := by
  obtain ⟨hbase0, hsync0⟩ := hbegun.get hbegun.stdin
  obtain ⟨hbase1, hsync1⟩ := hbegun.get hbegun.stdout
  have hslot0 : ¬ Slot v 0 := by
    intro hslot
    exact hbegun.stdin (hbase0 ▸ h.slot_free hlink hslot)
  have hslot1 : ¬ Slot v 1 := by
    intro hslot
    exact hbegun.stdout (hbase1 ▸ h.slot_free hlink hslot)
  have hget0 : t5.get 0 = t0.get 0 := (h.get_of_not_slot hlink hslot0).trans hbase0
  have hget1 : t5.get 1 = t0.get 1 := (h.get_of_not_slot hlink hslot1).trans hbase1
  have hopen0 : t5.get 0 ≠ none := by
    rw [hget0]
    exact hbegun.stdin
  rw [← h.sync] at hsync0 hsync1
  -- before the redirections the slots of the stage are as they were inherited
  have hstart : ∀ x, Slot v x → (startFds bg ⟨.command, c, pid, v, t5⟩).get x = t5.get x := by
    intro x hx
    have hne : ¬ x = 0 := by
      rintro rfl
      exact hslot0 hx
    have hpair : ¬ InPair x v.sync := by
      intro hpair
      rw [h.sync] at hpair
      obtain ⟨-, d, hd⟩ := hbegun.piped.get_of_inPair hpair
      rw [h.slot_free hlink hx] at hd
      cases hd
    rw [get_startFds hpair hsync0 hopen0, if_neg fun hc => hne hc.1]
  have hone : (redirectIn v (startFds bg ⟨.command, c, pid, v, t5⟩)).get 1 = t0.get 1 := by
    rw [get_redirectIn_of_ne Nat.one_ne_zero (fun hp => hslot1 (.feeder hp)),
      get_startFds hsync1 hsync0 hopen0, if_neg fun hc => Nat.one_ne_zero hc.1, hget1]
  have hin : InOpen c v (startFds bg ⟨.command, c, pid, v, t5⟩) :=
    (h.inOpen hlink).of_slots hstart
  have hout : OutOpen c v (redirectIn v (startFds bg ⟨.command, c, pid, v, t5⟩)) := by
    refine h.outOpen.of_slots (fun x hx hp => ?_) (h.inOpen hlink)
    rw [get_redirectIn_of_ne (fun h0 => hslot0 (h0 ▸ hx)) hp, hstart x hx]
  have hfeeder : 1 < (scanText words).files.length → v.pipefd.isSome = true := by
    intro hlt
    rw [h.feeder.isSome, h.inlen, hrun.feederPipe hlt, decide_eq_true hlt]
    rfl
  have hwriter : 1 < (scanText words).out_files.length →
      v.out_pipefd.isSome = true := by
    intro hlt
    rw [h.writer.isSome, h.outlen, hrun.outPipe hlt, decide_eq_true hlt]
    rfl
  have hfirst : v.in_fd = 0 → c = 0 := by
    intro h0
    cases c with
    | zero => rfl
    | succ e => exact absurd (h.in_fd ▸ h0) (hlink.input e rfl).1
  refine ⟨words, hwords, ?_, ?_⟩
  · rw [get_execFds hslot0, get_redirectOut_of_ne Nat.zero_ne_one
      (fun hp => hslot0 (.writer hp))]
    refine get_redirectIn_zero hin h.inlen hfeeder
      (fun hp => hslot0 (.feeder hp)) hfirst ?_
    rw [get_startFds hsync0 hsync0 hopen0, hget0]
    simp
  · rw [get_execFds hslot1]
    exact get_redirectOut_one hout h.outlen hwriter
      (fun hp => hslot1 (.writer hp)) h.fd hone

end Stage

/-! ## The loop -/

/-- The state before stage `c`, or after the last one. -/
structure OnTheWay (bg : Bool) (t0 base : Table Desc) (stages : List (List Token)) (c : Nat)
    (st : Loop) : Prop where
  linked : c < stages.length → Linked base c st
  done : c = stages.length → Table.Same st.fds base
  wired : ∀ p ∈ st.procs, p.role = .command → Wired bg t0 stages p
  present : ∀ e < c, ∃ p ∈ st.procs, p.role = .command ∧ p.stage = e

section Loop

variable {env : Env} {stages rest : List (List Token)} {sync : PipeFds} {c n : Nat}
  {words : List Token} {st : Loop} {bg : Bool} {t0 base : Table Desc}

/-- A stage whose calls all succeed is forked. -/
lemma Runnable.forked (h : Runnable env n c words) (sync : PipeFds) (st : Loop) :
    ∃ cmd pid v t1 t2 t3 t4 t5 procs1 procs2,
      Ready env n c sync words st v t1 t2 t3 t4 t5 procs1 procs2 ∧ env.fork c = some pid ∧
      runStage env n sync c words st =
        .ok { fds := closeAfterFork v t5
              in_fd := match v.fd with
                | none => st.in_fd
                | some (r, _) => r
              pids := st.pids ++ [pid]
              names := st.names ++ [cmd]
              procs := procs2 ++ [⟨.command, c, pid, v, t5⟩] } := by
  have hcase := runStage_case env n sync c words st
  have hlate : ¬ (words = [] ∨ PipeFails env n c) := by
    rintro (rfl | ⟨hlt, hfail⟩)
    · exact h.arg rfl
    · rw [h.stagePipe hlt] at hfail
      cases hfail
  cases hr : runStage env n sync c words st with
  | error e =>
    rw [hr] at hcase
    cases hcase with
    | early hearly => exact absurd hearly hlate
    | stopped _ _ _ _ hnot => exact absurd h.start hnot
    | forkFails _ hfork =>
      have hsome := h.fork
      rw [hfork] at hsome
      cases hsome
  | ok st' =>
    rw [hr] at hcase
    cases hcase with
    | skip _ _ _ harg => exact absurd harg h.arg
    | forked hready hfork => exact ⟨_, _, _, _, _, _, _, _, _, _, hready, hfork, rfl⟩

lemma OnTheWay.step (h : OnTheWay bg t0 base stages c st) (hbegun : Begun t0 sync base)
    (hwords : stages[c]? = some words) (hrun : Runnable env stages.length c words) :
    ∃ st', runStage env stages.length sync c words st = .ok st' ∧
      OnTheWay bg t0 base stages (c + 1) st' := by
  have hc : c < stages.length := (List.getElem?_eq_some_iff.mp hwords).1
  have hlink := h.linked hc
  obtain ⟨cmd, pid, v, t1, t2, t3, t4, t5, procs1, procs2, hready, hfork, hok⟩ :=
    hrun.forked sync st
  refine ⟨_, hok, ?_, ?_, ?_, ?_⟩
  · intro hnext
    have hsome : v.fd.isSome = true := by rw [hready.fd, decide_eq_true hnext]
    obtain ⟨⟨r, w⟩, hrw⟩ := Option.isSome_iff_exists.mp hsome
    have hfree := hready.slot_free hlink (.next ⟨r, w, hrw, .inl rfl⟩)
    rw [hrw]
    refine ⟨fun x hx => ?_, fun h0 => absurd h0 (Nat.succ_ne_zero c), ?_⟩
    · refine hready.get_after hlink fun w' hw' => hx ⟨Nat.succ_pos c, ?_⟩
      exact (Prod.mk.inj (Option.some.inj (hrw.symm.trans hw'))).1.symm
    rintro e he
    obtain rfl : c = e := Nat.succ.inj he
    refine ⟨?_, hfree, hready.get_next (hready.inOpen hlink) hready.outOpen hrw⟩
    rintro rfl
    exact hbegun.stdin ((hbegun.get hbegun.stdin).1 ▸ hfree)
  · intro hlast x
    refine hready.get_after hlink fun w hw => ?_
    have hsome := hready.fd
    rw [hw, decide_eq_false (by omega)] at hsome
    cases hsome
  · intro p hp hrole
    rcases (hready.mem_procs hfork p).mp hp with hold | hchild
    · exact h.wired p hold hrole
    cases hchild with
    | feeder | writer => cases hrole
    | command => exact hready.wired hlink hbegun hwords hrun
  · intro e he
    rcases Nat.lt_succ_iff_lt_or_eq.mp he with he | rfl
    · obtain ⟨p, hp, hrole⟩ := h.present e he
      exact ⟨p, (hready.mem_procs hfork p).mpr (.inl hp), hrole⟩
    · exact ⟨⟨.command, e, pid, v, t5⟩, by simp, rfl, rfl⟩

lemma OnTheWay.run (h : OnTheWay bg t0 base stages c st)
    (hbegun : Begun t0 sync base) (hrest : stages.drop c = rest) (hc : c ≤ stages.length)
    (hrun : ∀ e words, stages[e]? = some words → Runnable env stages.length e words) :
    ∃ st', runStages env stages.length sync c rest st = .ok st' ∧
      OnTheWay bg t0 base stages stages.length st' := by
  induction rest generalizing c st with
  | nil =>
    have hlen := drop_eq_nil_iff.mp hrest
    obtain rfl : c = stages.length := by omega
    exact ⟨st, rfl, h⟩
  | cons words rest ih =>
    have hwords : stages[c]? = some words := by
      rw [← List.head?_drop, hrest]
      rfl
    obtain ⟨st1, hstage, hnext⟩ := h.step hbegun hwords (hrun c words hwords)
    obtain ⟨st', hstages, hend⟩ := ih hnext (by rw [← tail_drop, hrest]; rfl)
      (List.getElem?_eq_some_iff.mp hwords).1
    refine ⟨st', ?_, hend⟩
    rw [runStages, hstage]
    exact hstages

end Loop

/-- When every call succeeds, each command of the pipeline gets its streams, and the
descriptors of the shell are what they were. -/
theorem streams_wired {env : Env} {input : List Token} {bg : Bool} {sh : ShellState}
    (hstd : ∀ x < 3, sh.fds.get x ≠ none)
    (hrun : ∀ c words, (stagesOf input)[c]? = some words →
      Runnable env (stagesOf input).length c words) :
    ∃ sh' procs, execute env input bg sh = .launched sh' procs ∧ Table.Same sh'.fds sh.fds ∧
      (∀ c < (stagesOf input).length, ∃ p ∈ procs, p.role = .command ∧ p.stage = c) ∧
      ∀ p ∈ procs, p.role = .command → Wired bg sh.fds (stagesOf input) p := by
  have hne : input ≠ [] := by
    rintro rfl
    exact (hrun 0 [] rfl).arg rfl
  have hpiped := openPipe_piped .sync (bg && env.syncPipe) sh.fds
  have hbegun : Begun sh.fds (openSync env bg sh.fds).1 (openSync env bg sh.fds).2 :=
    ⟨hpiped, hstd 0 (by omega), hstd 1 (by omega)⟩
  have hlen : (stagesOf input).length ≠ 0 := by
    intro h0
    exact splitOnP_ne_nil _ input (length_eq_zero_iff.mp h0)
  have hstart : OnTheWay bg sh.fds (openSync env bg sh.fds).2 (stagesOf input) 0
      ⟨(openSync env bg sh.fds).2, 0, [], [], []⟩ := by
    have hfirst : ∀ e, 0 ≠ e + 1 := fun e => (Nat.succ_ne_zero e).symm
    refine ⟨fun _ => ⟨fun x _ => rfl, fun _ => rfl, fun e he => absurd he (hfirst e)⟩,
      fun h0 => absurd h0.symm hlen, ?_, ?_⟩
    · intro p hp
      cases hp
    · intro e he
      omega
  obtain ⟨st, hok, hend⟩ := hstart.run hbegun rfl (Nat.zero_le _) hrun
  rw [drop_zero] at hok
  rw [execute, if_neg hne]
  dsimp only
  rw [hok]
  refine ⟨_, st.procs, rfl, fun x => ?_, hend.present, hend.wired⟩
  -- closing the sync pipe takes the loop's table and the first one back to the shell's
  have hclose := hpiped.close_same x
  by_cases hpair : InPair x (openSync env bg sh.fds).1
  · rw [← hclose]
    exact ((get_closePair _ _ x).1 hpair).trans ((get_closePair _ _ x).1 hpair).symm
  rw [← hclose]
  exact ((get_closePair _ _ x).2 hpair).trans
    ((hend.done rfl x).trans ((get_closePair _ _ x).2 hpair).symm)

/-- The tokens of `a < f | b`. -/
def readAndPipe : List Token :=
  [⟨.word, "a"⟩, ⟨.less, "<"⟩, ⟨.word, "f"⟩, ⟨.pipe, "|"⟩, ⟨.word, "b"⟩]

theorem streams_wired_two :
    stagesOf readAndPipe = [[⟨.word, "a"⟩, ⟨.less, "<"⟩, ⟨.word, "f"⟩], [⟨.word, "b"⟩]] ∧
    ∃ sh' procs, execute .fine readAndPipe true .start = .launched sh' procs ∧
      Table.Same sh'.fds ShellState.start.fds ∧
      (∀ c < (stagesOf readAndPipe).length, ∃ p ∈ procs, p.role = .command ∧ p.stage = c) ∧
      ∀ p ∈ procs, p.role = .command →
        Wired true ShellState.start.fds (stagesOf readAndPipe) p := by
  have hstages : stagesOf readAndPipe =
      [[⟨.word, "a"⟩, ⟨.less, "<"⟩, ⟨.word, "f"⟩], [⟨.word, "b"⟩]] := by decide
  refine ⟨hstages, streams_wired (by decide) fun c words hwords => ?_⟩
  have harg : (scanText words).arg ≠ [] ∧
      (scanText words).scanned = true := by
    have hmem := mem_of_getElem? hwords
    rw [hstages] at hmem
    rcases mem_pair.mp hmem with rfl | rfl
    all_goals decide
  exact ⟨harg.1, ⟨harg.2, fun _ _ => rfl, fun _ _ => rfl, rfl⟩, fun _ => rfl, fun _ => rfl,
    fun _ => rfl, rfl⟩

end CshellXv6.Shell
