import CshellXv6.Shell.Registration

/-! # The foreground wait loop

`execute` waits for the commands of a foreground pipeline one after the
other and hands each status to `update_state`. It ignores what `waitpid`
returns: when the call fails, with `EINTR` because a `SIGCHLD` interrupted it
or with `ECHILD` because the handler was faster, the status is the unwritten
variable, and the loop goes on to the next command.

As long as neither happens, the loop is right for any number of stages and
any order of the changes: `foreground_wait_agrees`.
-/

namespace CshellXv6.Shell.Wait

open List Option

/-- The handler interrupts no blocked `waitpid`, and takes terminations of
settled commands only. -/
def undisturbed (pl : Plan) (l : Label) (s : St) : Bool :=
  lateReap pl l s &&
    match l, s.pc with
    | .sigchld _, .blocked _ => false
    | _, _ => true

/-- What the wait loop knows of the commands it has come past, and of the
status it is about to record. -/
structure Sound (s : St) : Prop where
  genuine : ∀ c st res, s.pc = .update c st res → res = some st ∧
    ∀ p k, Own s.pids c p → s.kids p = some k →
      k.real ≠ .running ∧ (k.pending = true → k.real.ended = true) ∧
        (k.pending = false → st = k.real.status) ∧ (terminates st = true → k.reaped = true)
  changed : ∀ c p k, Own s.pids c p → s.kids p = some k → settled false s.pc c = true →
    k.real ≠ .running
  agree : ∀ c p k j e, Own s.pids c p → s.kids p = some k → settled false s.pc c = true →
    k.pending = false → s.job = some j → j.prs[c]? = some e → agrees e k.real = true
  truthful : ∀ c p k j e, Own s.pids c p → s.kids p = some k → s.job = some j →
    j.prs[c]? = some e → e.state = .terminated → k.reaped = true

lemma Real.not_ended_of_canBecome {r r' : Real} (h : r.canBecome r' = true) : r.ended = false := by
  cases r <;> simp_all [Real.canBecome, Real.ended]

/-- What has stopped and is not continued can only be killed. -/
lemma Real.ended_of_canBecome {r r' : Real} (h : r.canBecome r' = true) (hr : r ≠ .running)
    (hr' : r' ≠ .running) : r'.ended = true := by
  cases r <;> cases r' <;> simp_all [Real.canBecome, Real.ended]

variable {c : Nat} {e : Process} {pids : List Int} {pc : Pc} {j : Job} {bg : Bool} {pl : Plan}
  {s : St} {p q : Int}

/-- An entry that bears a positive pid bears the pid of its command. -/
lemma Shape.pid_own (h : Shape bg pc pids j)
    (he : j.prs[c]? = some e) (hpos : 0 < e.pid) : Own pids c e.pid := by
  refine ⟨(h.pid c e he).1 ?_, hpos⟩
  by_contra hcon
  have hzero := (h.pid c e he).2 (by simpa using hcon)
  omega

/-- An event with a positive pid changes the entry of its command only. -/
lemma Inv.own_of_entry (h : Inv pl s) (hp : 0 < p)
    (hj : s.job = some j) (he : j.prs[c]? = some e) (hep : e.pid = p) : Own s.pids c p := by
  subst hep
  exact (h.shape j hj).pid_own he hp

/-- The entry that an event is about. -/
lemma Job.getElem?_record_self {p st : Int} (hactive : j.active = true)
    (he : j.prs[c]? = some e) (hpid : e.pid = p) : (j.record p st).prs[c]? = some (e.apply st) := by
  rw [Job.prs_record_of_active hactive, List.getElem?_map, he, map_some, if_pos hpid]

lemma Own.eq (hp : Own pids c p) (hq : Own pids c q) : p = q :=
  Option.some.inj (hp.1.symm.trans hq.1)

namespace Sound

variable {pl : Plan} {s s' s0 : St} {p : Int} {k : Child} {c : Nat} {j : Job} {e : Process}
  {l : Label} {ls : List Label}

/-- As long as nothing is settled, no entry shows anything. -/
lemma of_unsettled (hbg : pl.bg = false) (h : Inv pl s) (hset : ∀ c, settled false s.pc c = false)
    (hupd : ∀ c st res, s.pc ≠ .update c st res) : Sound s := by
  refine ⟨?_, ?_, ?_, ?_⟩
  · exact fun c st res hcon => absurd hcon (hupd c st res)
  · intro c p k _ _ hs
    rw [hset c] at hs
    cases hs
  · intro c p k j e _ _ hs
    rw [hset c] at hs
    cases hs
  · intro c p k j e _ _ hj he hterm
    exact absurd hterm ((h.shape j hj).alive c e he (by rw [hbg]; exact hset c))

lemma flags (h : Sound s) (handler released : Bool) :
    Sound { s with handler := handler, released := released } :=
  ⟨h.genuine, h.changed, h.agree, h.truthful⟩

/-- A move of the control point that settles no further command. -/
lemma toPc (h : Sound s) (pc' : Pc) (hupd : ∀ c st res, pc' ≠ .update c st res)
    (hback : ∀ c p, Own s.pids c p → settled false pc' c = true → settled false s.pc c = true) :
    Sound { s with pc := pc' } := by
  refine ⟨?_, ?_, ?_, h.truthful⟩
  · exact fun c st res hcon => absurd hcon (hupd c st res)
  · exact fun c p k hown hk hs => h.changed c p k hown hk (hback c p hown hs)
  · exact fun c p k j e hown hk hs => h.agree c p k j e hown hk (hback c p hown hs)

/-- A child that is no command of the pipeline changes. -/
lemma setChild_other (h : Sound s) (k' : Child) (hp : ∀ c, ¬ Own s.pids c p) :
    Sound (s.setChild p k') := by
  have hkids : ∀ {c q}, Own s.pids c q → (s.setChild p k').kids q = s.kids q := by
    intro c q hown
    refine Function.update_of_ne ?_ _ _
    rintro rfl
    exact hp c hown
  refine ⟨?_, ?_, ?_, ?_⟩
  · intro c st res hpc
    refine ⟨(h.genuine c st res hpc).1, fun q k hown hk => ?_⟩
    rw [hkids hown] at hk
    exact (h.genuine c st res hpc).2 q k hown hk
  · intro c q k hown hk
    rw [hkids hown] at hk
    exact h.changed c q k hown hk
  · intro c q k j e hown hk
    rw [hkids hown] at hk
    exact h.agree c q k j e hown hk
  · intro c q k j e hown hk
    rw [hkids hown] at hk
    exact h.truthful c q k j e hown hk

/-- A command stops or terminates. -/
lemma change (h : Sound s) {r : Real} (hk : s.kids p = some k) (hr : k.real.canBecome r = true)
    (hcont : p ∈ s.pids → r ≠ .running) : Sound (s.setChild p ⟨r, true⟩) := by
  have hnot : k.reaped = false := by simp [Child.reaped, Real.not_ended_of_canBecome hr]
  refine ⟨?_, ?_, ?_, ?_⟩
  · intro c st res hpc
    refine ⟨(h.genuine c st res hpc).1, fun q kq hown hkq => ?_⟩
    by_cases hqp : q = p
    · subst hqp
      cases St.setChild_self hkq
      have hmem : q ∈ s.pids := mem_of_getElem? hown.1
      rcases (h.genuine c st res hpc).2 q k hown hk with ⟨hrun, -, -, hterm⟩
      refine ⟨hcont hmem, fun _ => ?_, by simp, fun ht => ?_⟩
      · exact Real.ended_of_canBecome hr hrun (hcont hmem)
      · rw [hterm ht] at hnot
        cases hnot
    · exact (h.genuine c st res hpc).2 q kq hown (St.setChild_ne hqp hkq)
  · intro c q kq hown hkq hs
    by_cases hqp : q = p
    · subst hqp
      cases St.setChild_self hkq
      exact hcont (mem_of_getElem? hown.1)
    · exact h.changed c q kq hown (St.setChild_ne hqp hkq) hs
  · intro c q kq j e hown hkq hs hpend hj he
    by_cases hqp : q = p
    · subst hqp
      cases St.setChild_self hkq
      cases hpend
    · exact h.agree c q kq j e hown (St.setChild_ne hqp hkq) hs hpend hj he
  · intro c q kq j e hown hkq hj he hterm
    by_cases hqp : q = p
    · subst hqp
      rw [h.truthful c q k j e hown hk hj he hterm] at hnot
      cases hnot
    · exact h.truthful c q kq j e hown (St.setChild_ne hqp hkq) hj he hterm

/-- `waitpid` returned the status of stage `c`, which is not settled. -/
lemma returned (h : Sound s) (hinv : Inv pl s) (hbg : pl.bg = false)
    (hset : ∀ c', settled false s.pc c' = decide (c' < c)) (hown : Own s.pids c p)
    (hk : s.kids p = some k) (hw : k.waitable = true) :
    Sound { s.setChild p { k with pending := false } with
      pc := .update c k.real.status (some k.real.status) } := by
  have hrun : k.real ≠ .running := by
    simp only [Child.waitable, Bool.and_eq_true, decide_eq_true_eq] at hw
    exact hw.2
  have hvalid := hinv.family.valid hown hk
  have hother : ∀ {c' q}, Own s.pids c' q → c' ≠ c → q ≠ p := by
    rintro c' q hq hne rfl
    exact hne (hinv.family.unique c' c q hq hown)
  have hkids : ∀ {c' q kq}, Own s.pids c' q → c' ≠ c →
      (s.setChild p { k with pending := false }).kids q = some kq → s.kids q = some kq := by
    intro c' q kq hq hne hkq
    exact St.setChild_ne (hother hq hne) hkq
  have hself : ∀ {kq}, (s.setChild p { k with pending := false }).kids p = some kq →
      kq = { k with pending := false } := St.setChild_self
  refine ⟨?_, ?_, ?_, ?_⟩
  · rintro c' st res ⟨⟩
    refine ⟨rfl, fun q kq hq hkq => ?_⟩
    cases hq.eq hown
    cases hself hkq
    refine ⟨hrun, by simp, fun _ => rfl, fun ht => ?_⟩
    rw [terminates_status hvalid] at ht
    simp [Child.reaped, ht]
  · intro c' q kq hq hkq hs
    have hlt : c' < c := by simpa [settled] using hs
    exact h.changed c' q kq hq (hkids hq (by omega) hkq) (by rw [hset]; simpa using hlt)
  · intro c' q kq j e hq hkq hs
    have hlt : c' < c := by simpa [settled] using hs
    exact h.agree c' q kq j e hq (hkids hq (by omega) hkq) (by rw [hset]; simpa using hlt)
  · intro c' q kq j e hq hkq hj he hterm
    by_cases hne : c' = c
    · -- an entry that is not settled shows no termination
      have halive := (hinv.shape j hj).alive c' e he (by rw [hbg, hset, hne]; simp)
      exact absurd hterm halive
    · exact h.truthful c' q kq j e hq (hkids hq hne hkq) hj he hterm

/-- An entry that is not settled keeps the job active. -/
lemma active_of_unsettled (hinv : Inv pl s) (hset : settled pl.bg s.pc c = false)
    (harmed : armed s.pc = true) (hj : s.job = some j) (he : j.prs[c]? = some e) :
    j.active = true := by
  have hshape := hinv.shape j hj
  rw [hshape.flag, harmed, Bool.true_and]
  exact Job.live_of_entry he (hshape.alive c e he hset)

/-- The wait loop records the status that `waitpid` returned. -/
lemma update (h : Sound s) (hinv : Inv pl s) (hbg : pl.bg = false) {st : Int} {res : Option Int}
    (hpc : s.pc = .update c st res) (hown : Own s.pids c p) :
    Sound { s.record p st with pc := .helpers c } := by
  have hgen := (h.genuine c st res hpc).2 p
  have hunset : settled pl.bg s.pc c = false := by
    rw [hbg, hpc]
    simp [settled]
  have hold : ∀ {c'}, settled false (.helpers c) c' = true → c' ≠ c →
      settled false s.pc c' = true := by
    intro c' hs hne
    simp only [hpc, settled, decide_eq_true_eq] at hs ⊢
    omega
  refine ⟨?_, ?_, ?_, ?_⟩
  · rintro c' st' res' ⟨⟩
  · intro c' q k hq hk hs
    by_cases hne : c' = c
    · subst hne
      cases hq.eq hown
      exact (hgen k hown hk).1
    · exact h.changed c' q k hq hk (hold hs hne)
  · intro c' q k j' e' hq hk hs hpend hj' he'
    rcases map_eq_some_iff.mp hj' with ⟨j, hj, rfl⟩
    by_cases hne : c' = c
    · subst hne
      cases hq.eq hown
      have hst := (hgen k hown hk).2.2.1 hpend
      rcases Job.getElem?_record he' with ⟨e, he, -⟩
      have hact := active_of_unsettled hinv hunset (by rw [hpc]; rfl) hj he
      have hep := ((hinv.shape j hj).pid c' e he).1 (by rw [hpc]; rfl)
      rw [Job.getElem?_record_self hact he (Option.some.inj (hep.symm.trans hown.1))] at he'
      cases he'
      rw [hst]
      exact agrees_apply_status e (hinv.family.valid hown hk)
    · rcases Job.getElem?_record he' with ⟨e, he, rfl | ⟨-, hep, -⟩⟩
      · exact h.agree c' q k j e' hq hk (hold hs hne) hpend hj he
      · have hq' := hinv.own_of_entry hown.2 hj he hep
        exact absurd (hinv.family.unique c' c p hq' hown) hne
  · intro c' q k j' e' hq hk hj' he' hterm
    rcases map_eq_some_iff.mp hj' with ⟨j, hj, rfl⟩
    rcases Job.getElem?_record he' with ⟨e, he, rfl | ⟨-, hep, rfl⟩⟩
    · exact h.truthful c' q k j e' hq hk hj he hterm
    have hcc := hinv.family.unique c' c p (hinv.own_of_entry hown.2 hj he hep) hown
    subst hcc
    cases hq.eq hown
    rcases (terminates_iff_apply e st).mp hterm with ht | ⟨hcon, -⟩
    · exact (hgen k hown hk).2.2.2 ht
    · exact absurd hcon ((hinv.shape j hj).alive c' e he hunset)

/-- The entry of a command with an unreported change is not terminated. -/
lemma alive_of_pending (h : Sound s) (hown : Own s.pids c p) (hk : s.kids p = some k)
    (hpend : k.pending = true) (hj : s.job = some j) (he : j.prs[c]? = some e) :
    e.state ≠ .terminated := by
  intro hterm
  have hreaped := h.truthful c p k j e hown hk hj he hterm
  simp [Child.reaped, hpend] at hreaped

/-- So its job is active. -/
lemma active_of_pending (h : Sound s) (hinv : Inv pl s) (hset : settled pl.bg s.pc c = true)
    (hown : Own s.pids c p) (hk : s.kids p = some k) (hpend : k.pending = true)
    (hj : s.job = some j) (he : j.prs[c]? = some e) : j.active = true := by
  rw [(hinv.shape j hj).flag, armed_of_settled hset, Bool.true_and]
  exact Job.live_of_entry he (h.alive_of_pending hown hk hpend hj he)

/-- The handler reaps a child. -/
lemma reap (h : Sound s) (hinv : Inv pl s) (hbg : pl.bg = false) (hk : s.kids p = some k)
    (hpend : k.pending = true)
    (hlate : k.real.ended = true → ∀ c, s.pids[c]? = some p → settled pl.bg s.pc c = true) :
    Sound ((s.setChild p { k with pending := false }).record p k.real.status) := by
  have hp : 0 < p := (hinv.family.born p k hk).2
  have hself : ∀ {kq}, (s.setChild p { k with pending := false }).kids p = some kq →
      kq = { k with pending := false } := St.setChild_self
  have hkids : ∀ {q kq}, q ≠ p → (s.setChild p { k with pending := false }).kids q = some kq →
      s.kids q = some kq := St.setChild_ne
  refine ⟨?_, ?_, ?_, ?_⟩
  · intro c st res hpc
    refine ⟨(h.genuine c st res hpc).1, fun q kq hq hkq => ?_⟩
    have hne : q ≠ p := by
      rintro rfl
      -- what is pending at this point is a termination, and `c` is not settled
      have hend := ((h.genuine c st res hpc).2 q k hq hk).2.1 hpend
      have hset := hlate hend c hq.1
      rw [hbg, show s.pc = .update c st res from hpc] at hset
      simp [settled] at hset
    exact (h.genuine c st res hpc).2 q kq hq (hkids hne hkq)
  · intro c q kq hq hkq hs
    by_cases hqp : q = p
    · subst hqp
      rw [hself hkq]
      exact h.changed c q k hq hk hs
    · exact h.changed c q kq hq (hkids hqp hkq) hs
  · intro c q kq j' e' hq hkq hs hpend' hj' he'
    rcases map_eq_some_iff.mp hj' with ⟨j, hj, rfl⟩
    rcases Job.getElem?_record he' with ⟨e, he, hcase⟩
    by_cases hqp : q = p
    · subst hqp
      rw [hself hkq]
      have hset : settled pl.bg s.pc c = true := by rw [hbg]; exact hs
      have hact := h.active_of_pending hinv hset hq hk hpend hj he
      have hep := ((hinv.shape j hj).pid c e he).1 (named_of_settled hset)
      rw [Job.getElem?_record_self hact he (Option.some.inj (hep.symm.trans hq.1))] at he'
      cases he'
      exact agrees_apply_status e (hinv.family.valid hq hk)
    · rcases hcase with rfl | ⟨-, hep, -⟩
      · exact h.agree c q kq j e' hq (hkids hqp hkq) hs hpend' hj he
      · exact absurd (hq.eq (hinv.own_of_entry hp hj he hep)) hqp
  intro c q kq j' e' hq hkq hj' he' hterm
  rcases map_eq_some_iff.mp hj' with ⟨j, hj, rfl⟩
  rcases Job.getElem?_record he' with ⟨e, he, hcase⟩
  by_cases hqp : q = p
  · subst hqp
    rw [hself hkq]
    have halive := h.alive_of_pending hq hk hpend hj he
    rcases hcase with rfl | ⟨-, -, rfl⟩
    · exact absurd hterm halive
    rcases (terminates_iff_apply e k.real.status).mp hterm with ht | ⟨hcon, -⟩
    · rw [terminates_status (hinv.family.valid hq hk)] at ht
      simp [Child.reaped, ht]
    · exact absurd hcon halive
  · rcases hcase with rfl | ⟨-, hep, -⟩
    · exact h.truthful c q kq j e' hq (hkids hqp hkq) hj he hterm
    · exact absurd (hq.eq (hinv.own_of_entry hp hj he hep)) hqp

/-- Every step of an undisturbed foreground run keeps it. -/
lemma step (hbg : pl.bg = false) (hn : pl.stages ≠ []) (hok : undisturbed pl l s = true)
    (hstep : Wait.step pl l s = some s') (hinv : Inv pl s) (h : Sound s) : Sound s' := by
  have hlate : lateReap pl l s = true := (Bool.and_eq_true_iff.mp hok).1
  have hinv' : Inv pl s' := hinv.step hn hlate hstep
  cases Move.of_step hstep with
  | fork hpc hstage hp hfree | skip hpc hstage | addJob hpc =>
    exact of_unsettled hbg hinv' (fun _ => rfl) (by simp)
  | helper hpc hp hfree =>
    refine of_unsettled hbg hinv' (fun c => ?_) (fun c st res => ?_)
    · simp [St.spawn, hpc, settled]
    · simp [St.spawn, hpc]
  | @storeField f hpc =>
    refine of_unsettled hbg hinv' (fun c => ?_) (fun c st res => ?_)
    · cases f <;> simp [headerNext, settled]
    · cases f <;> simp [headerNext]
  | @storeEntry i f hpc =>
    refine of_unsettled hbg hinv' (fun c => ?_) (fun c st res => ?_)
    · cases f with
      | printed =>
        simp only [entryNext, hbg]
        split_ifs <;> simp_all [settled]
      | _ => simp [entryNext, settled]
    cases f with
    | printed =>
      simp only [entryNext]
      split_ifs <;> simp
    | _ => simp [entryNext]
  | release hpc =>
    exact (h.toPc .returned (by simp) (by simp [hpc, settled])).flags s.handler true
  | @callSkip c p garbage hpc hc hp =>
    refine h.toPc (.helpers c) (by simp) (fun c' q hown hs => ?_)
    have hne : c' ≠ c := by
      rintro rfl
      have hq : q = p := Option.some.inj (hown.1.symm.trans hc)
      have hpos := hown.2
      omega
    simp only [hpc, settled, decide_eq_true_eq] at hs ⊢
    omega
  | @callLost c p garbage hpc hc hp hk =>
    -- the command would have to be reaped, and it is not settled yet
    exfalso
    rcases hinv.family.child c p ⟨hc, hp⟩ with ⟨k, hk', -⟩
    rcases hinv.kept c p k ⟨hc, hp⟩ hk' (hk k hk') with hs | hs
    · simp [hpc, settled] at hs
    · simp [hpc] at hs
  | callReturn hpc hc hp hk hw =>
    exact h.returned hinv hbg (by simp [hpc, settled]) ⟨hc, hp⟩ hk hw
  | @callBlock c p garbage hpc hc hp =>
    exact h.toPc (.blocked c) (by simp) (by simp [hpc, settled])
  | wake hpc hc hk hw =>
    exact h.returned hinv hbg (by simp [hpc, settled]) ⟨hc, (hinv.family.born _ _ hk).2⟩ hk hw
  | update hpc hc =>
    exact h.update hinv hbg hpc ⟨hc, hinv.waiting _ _ (by rw [hpc]; rfl) hc⟩
  | reapHelper hpc hp hk =>
    exact h.setChild_other _ (fun c hown => hp (mem_of_getElem? hown.1))
  | @next c hpc =>
    have hlen := (hinv.forked (by simp [hpc])).1
    refine h.toPc _ (fun c' st res => ?_) (fun c' q hown hs => ?_)
    · split <;> simp
    have hlt := hown.lt
    simp only [hpc, settled, decide_eq_true_eq]
    split at hs
    · simp only [settled, decide_eq_true_eq] at hs
      omega
    · omega
  | ret hpc hquiet => exact h.toPc .returned (by simp) (by simp [hpc, settled])
  | change hk hr hcont hsync => exact h.change hk hr hcont
  | interrupt hpc => simp [undisturbed, hpc] at hok
  | sigchld hpc => exact h.flags true s.released
  | reap hk hpend =>
    exact h.reap hinv hbg hk hpend (fun hend c hc => settled_of_lateReap hlate hk hend hc)
  | handlerDone => exact h.flags false s.released

/-- The invariant along an undisturbed foreground run. -/
lemma of_run (hbg : pl.bg = false) (hn : pl.stages ≠ []) (hinit : Init s0)
    (hrun : Lib.Run (Wait.step pl) (fun l s => undisturbed pl l s = true) s0 ls s) :
    Inv pl s ∧ Sound s := by
  refine hrun.invariant (fun s => Inv pl s ∧ Sound s) ?_ ?_
  · have h0 : Inv pl s0 := Inv.init hinit
    exact ⟨h0, of_unsettled hbg h0 (by simp [hinit.pc, settled]) (by simp [hinit.pc])⟩
  · intro l s s' hok hstep h
    exact ⟨h.1.step hn (Bool.and_eq_true_iff.mp hok).1 hstep, h.2.step hbg hn hok hstep h.1⟩

end Sound

/-- **The foreground wait loop is right when it is undisturbed.** For every
foreground pipeline and every run in which the handler neither interrupts a
blocked `waitpid` nor takes the termination of a command the loop has not come
past: the status handed to `update_state` is always one that `waitpid`
returned for that pid, and when `execute` returns, every command has
terminated or stopped and its entry shows its last change. -/
theorem foreground_wait_agrees (pl : Plan) (hbg : pl.bg = false) (hn : pl.stages ≠ [])
    (s0 s : St) (ls : List Label) (hinit : Init s0)
    (hrun : Lib.Run (step pl) (fun l s => undisturbed pl l s = true) s0 ls s) :
    (∀ c st res, s.pc = .update c st res → res = some st) ∧
      ∀ s', step pl .ret s = some s' → ∃ j, s'.job = some j ∧
        ∀ (c : Nat) (p : Int), s'.pids[c]? = some p → 0 < p → ∃ k e,
          s'.kids p = some k ∧ k.real ≠ .running ∧
            j.prs[c]? = some e ∧ e.pid = p ∧ agrees e k.real = true := by
  rcases Sound.of_run hbg hn hinit hrun with ⟨hinv, h⟩
  refine ⟨fun c st res hpc => (h.genuine c st res hpc).1, fun s' hret => ?_⟩
  cases Move.of_step hret with
  | ret hpc hquiet =>
    rcases hinv.forked (by simp [hpc]) with ⟨hlen, j, hj⟩
    refine ⟨j, hj, fun c p hc hp => ?_⟩
    have hown : Own s.pids c p := ⟨hc, hp⟩
    have hshape := hinv.shape j hj
    have hsize := hshape.length
    rw [sized_of_registered (by rw [hpc]; rfl), if_pos rfl] at hsize
    have hcj : c < j.prs.length := hsize ▸ hown.lt
    have he : j.prs[c]? = some (j.prs.get ⟨c, hcj⟩) := List.getElem?_eq_getElem hcj
    have hset : settled false s.pc c = true := by rw [hpc]; rfl
    rcases hinv.family.child c p hown with ⟨k, hk, -⟩
    -- nothing is left to report, in particular for this command
    have hdone : k.pending = false := by
      have hall := List.all_eq_true.mp hquiet p (hinv.family.born p k hk).1
      rw [hk] at hall
      simpa using hall
    have hpid := (hshape.pid c _ he).1 (by rw [hpc]; rfl)
    exact ⟨k, _, hk, h.changed c p k hown hk hset, he,
      Option.some.inj (hpid.symm.trans hc), h.agree c p k j _ hown hk hset hdone hj he⟩

def stopPlan : Plan := ⟨[some "cat", some "wc"], false, false, 1, "cat | wc"⟩

def stopLabels : List Label :=
  launchLabels ++
    ([.call 0, .change 10 (.stopped 20), .wake, .sigchld 0, .handlerDone, .update, .next, .call 0,
      .change 11 (.exited 1), .wake, .update, .next] : List Label)

/-- The first of two commands stops, the second one exits. -/
theorem foreground_wait_agrees_stopped :
    ∃ s' : St, s'.kids 10 = some ⟨.stopped 20, false⟩ ∧ s'.kids 11 = some ⟨.exited 1, false⟩ ∧
      ∃ j e, s'.job = some j ∧ j.prs[0]? = some e ∧ e.pid = 10 ∧
        agrees e (.stopped 20) = true := by
  have hreplay : ∃ s, Lib.Run (step stopPlan) (fun l s => undisturbed stopPlan l s = true)
      St.start stopLabels s ∧ ∃ s', step stopPlan .ret s = some s' ∧
        s'.pids[0]? = some 10 ∧ s'.kids 10 = some ⟨.stopped 20, false⟩ ∧
          s'.kids 11 = some ⟨.exited 1, false⟩ := by decide +kernel
  obtain ⟨s, hrun, s', hs', hpid, h10, h11⟩ := hreplay
  rcases (foreground_wait_agrees stopPlan rfl (by decide) St.start s stopLabels start_init hrun).2
    s' hs' with ⟨j, hj, hall⟩
  rcases hall 0 10 hpid (by decide) with ⟨k, e, hk, -, he, hep, hagree⟩
  cases h10.symm.trans hk
  exact ⟨s', h10, h11, j, e, hj, he, hep, hagree⟩

/-- The `waitpid` for the first command is interrupted. -/
def interruptedLabels : List Label :=
  launchLabels ++
    ([.call 0, .change 11 (.exited 0), .sigchld 0, .reap 11, .handlerDone] : List Label)

/-- Two commands, of which the second exits first. Its `SIGCHLD` interrupts
the `waitpid` for the first one: `update_state` gets a status that `waitpid`
never returned, and `execute` returns while the first command is running,
with an entry that calls it terminated. -/
theorem interrupted_wait_records_garbage :
    let pl : Plan := ⟨[some "sleep", some "sleep"], false, false, 1, "sleep 2 | sleep 1"⟩
    (∃ (ls : List Label) (s : St), Lib.Run (step pl) Lib.anyStep St.start ls s ∧
      s.pc = .update 0 0 none) ∧
    ∃ (ls : List Label) (s : St), Lib.Run (step pl) Lib.anyStep St.start ls s ∧
      s.pc = .returned ∧ s.pids = [10, 11] ∧ s.kids 10 = some ⟨.running, false⟩ ∧
      s.job.map (fun j => j.prs.map Process.state) = some [.terminated, .terminated] := by
  refine ⟨⟨interruptedLabels, ?_⟩,
    ⟨interruptedLabels ++ ([.update, .next, .call 0, .update, .next, .ret] : List Label), ?_⟩⟩
  all_goals decide +kernel

end CshellXv6.Shell.Wait
