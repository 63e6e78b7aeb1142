import CshellXv6.Shell.Wait

/-! # Registration of the children

What the job table knows of the children that `execute` forked, along every
run of the machine of `Wait`. Two things can go wrong with a child that has
terminated: the handler may take its status while the table has no entry for
it yet, or it may take it away from the wait loop, which then hands an
unwritten `status` to `update_state`. A child is `settled` from the moment
where neither is possible any more.

When the handler reaps terminated commands only once they are settled, the
table ends up right for every interleaving: `no_termination_lost`.
-/

namespace CshellXv6.Shell.Wait

open List Option Function

/-! ## Control points -/

/-- The pid of process entry `c` has been stored. -/
def named : Pc → Nat → Bool
  | .fork _, _ => false
  | .header _, _ => false
  | .entry j f, c => c < j || (c = j && f ≠ .pid)
  | _, _ => true

/-- `num` has been stored. -/
def sized : Pc → Bool
  | .fork _ => false
  | .header .job_id => false
  | .header .pgid => false
  | .header .num => false
  | _ => true

/-- `active` has been stored. -/
def armed : Pc → Bool
  | .fork _ => false
  | .header .cmd => true
  | .header _ => false
  | _ => true

/-- Nothing of the program can overwrite the state of process entry `c` any
more: in the background once `add_job` has stored it, in the foreground once
the wait loop has recorded it. -/
def settled (bg : Bool) : Pc → Nat → Bool
  | .fork _, _ => false
  | .header _, _ => false
  | .entry j f, c => bg && (c < j || (c = j && (f = .exit || f = .printed)))
  | .release, _ => true
  | .wait j, c => c < j
  | .blocked j, c => c < j
  | .update j _ _, c => c < j
  | .helpers j, c => c ≤ j
  | .drain, _ => true
  | .returned, _ => true

/-- The points after `add_job`. -/
def registered : Pc → Bool
  | .fork _ => false
  | .header _ => false
  | .entry _ _ => false
  | _ => true

/-- The stage that the wait loop is busy with. -/
def waitsFor : Pc → Option Nat
  | .blocked c => some c
  | .update c _ _ => some c
  | _ => none

variable {pc : Pc} {c i : Nat} {j : Job} {e e' : Process} {pl : Plan} {pids : List Int}
  {f : EntryField} {bg : Bool} {r : Real} {p st q : Int} {k k' : Child} {s s' s0 : St} {l : Label}
  {ls : List Label}

lemma named_of_registered (h : registered pc = true) (c : Nat) : named pc c = true := by
  cases pc <;> simp_all [registered, named]

lemma sized_of_registered (h : registered pc = true) : sized pc = true := by
  cases pc <;> simp_all [registered, sized]

lemma armed_of_registered (h : registered pc = true) : armed pc = true := by
  cases pc <;> simp_all [registered, armed]

lemma ne_fork_of_registered (h : registered pc = true) (c : Nat) : pc ≠ .fork c := by
  rintro rfl
  cases h

lemma named_of_settled (h : settled bg pc c = true) : named pc c = true := by
  cases pc with
  | entry j f =>
    simp only [settled, named, Bool.and_eq_true, Bool.or_eq_true, decide_eq_true_eq] at h ⊢
    rcases h.2 with hlt | ⟨heq, hf⟩
    · exact .inl hlt
    · refine .inr ⟨heq, ?_⟩
      rcases hf with rfl | rfl <;> decide
  | _ => simp_all [settled, named]

lemma armed_of_settled (h : settled bg pc c = true) : armed pc = true := by
  cases pc <;> simp_all [settled, armed]

/-! ## Statuses -/

/-- The status says that the process is gone. -/
def terminates (status : Int) : Bool := WIFEXITED status || WIFSIGNALED status

/-- A death by signal has a signal number. -/
def Real.valid : Real → Bool
  | .killed sig => 1 ≤ sig && sig ≤ 126
  | _ => true

lemma Real.valid_of_canBecome {r r' : Real} (h : r.canBecome r' = true) : r'.valid = true := by
  cases r <;> cases r' <;> simp_all [Real.canBecome, Real.valid]

/-- The process entry shows that state. -/
def agrees (e : Process) : Real → Bool
  | .running => e.state = .running
  | .stopped _ => e.state = .stopped
  | .exited _ => e.state = .terminated && e.exit
  | .killed _ => e.state = .terminated && !e.exit

/-- `update_state` decodes a status to the change it was made for. -/
lemma agrees_apply_status (e : Process) (h : r.valid = true) :
    agrees (e.apply r.status) r = true := by
  cases r with
  | running =>
    simp [agrees, Real.status, Process.apply, WIFEXITED, WIFSIGNALED, WIFSTOPPED,
      WIFCONTINUED, signedChar]
  | stopped sig =>
    have h128 : ((sig : Int) * 256 + 127) % 128 = 127 := by omega
    have h256 : ((sig : Int) * 256 + 127) % 256 = 127 := by omega
    simp [agrees, Real.status, Process.apply, WIFEXITED, WIFSIGNALED, WIFSTOPPED, signedChar,
      h128, h256]
  | exited code =>
    have h128 : (((code % 256 : Nat) : Int) * 256) % 128 = 0 := by omega
    simp only [agrees, Real.status, Process.apply, WIFEXITED, h128]
    simp
  | killed sig =>
    simp only [Real.valid, Bool.and_eq_true, decide_eq_true_eq] at h
    have h128 : (sig : Int) % 128 = sig := by omega
    have hexit : WIFEXITED sig = false := by
      simp only [WIFEXITED, h128, decide_eq_false_iff_not]
      omega
    have hsig : WIFSIGNALED sig = true := by
      have hlt : (sig : Int) + 1 < 128 := by omega
      simp only [WIFSIGNALED, h128, signedChar, hlt, if_true, decide_eq_true_eq]
      omega
    simp [agrees, Real.status, Process.apply, hexit, hsig]

lemma terminates_iff_apply (e : Process) (status : Int) :
    (e.apply status).state = .terminated ↔ terminates status = true ∨
      (e.state = .terminated ∧ WIFSTOPPED status = false ∧ WIFCONTINUED status = false) := by
  unfold Process.apply terminates
  split_ifs <;> simp_all

/-- The status of a child tells exactly whether it has terminated. -/
lemma terminates_status (h : r.valid = true) : terminates r.status = r.ended := by
  have hagree := agrees_apply_status zeroProcess h
  have hzero : zeroProcess.state ≠ .terminated := by decide
  have happ : (zeroProcess.apply r.status).state = .terminated ↔ terminates r.status = true := by
    rw [terminates_iff_apply, or_iff_left (fun h => hzero h.1)]
  rw [Bool.eq_iff_iff, ← happ]
  cases r <;> simp_all [agrees, Real.ended]

/-! ## `update_state` on one job -/

lemma Job.record_of_inactive (h : j.active = false) : j.record p st = j := by
  simp [Job.record, h]

lemma Job.prs_record_of_active (h : j.active = true) :
    (j.record p st).prs = j.prs.map (fun e => if e.pid = p then e.apply st else e) := by
  unfold Job.record
  simp only [h, Bool.not_true, Bool.false_eq_true, if_false]
  split <;> rfl

/-- An entry after `update_state`: the same entry, or the status applied to
the entry of that pid. -/
lemma Job.getElem?_record (h : (j.record p st).prs[c]? = some e') :
    ∃ e, j.prs[c]? = some e ∧ (e' = e ∨ (j.active = true ∧ e.pid = p ∧ e' = e.apply st)) := by
  cases ha : j.active with
  | false =>
    rw [Job.record_of_inactive ha] at h
    exact ⟨e', h, .inl rfl⟩
  | true =>
    rw [Job.prs_record_of_active ha, List.getElem?_map] at h
    rcases map_eq_some_iff.mp h with ⟨e, he, rfl⟩
    refine ⟨e, he, ?_⟩
    split
    next hp => exact .inr ⟨rfl, hp, rfl⟩
    · exact .inl rfl

lemma Process.pid_apply (st : Int) (e : Process) : (e.apply st).pid = e.pid := by
  unfold Process.apply
  split_ifs <;> rfl

/-- An inactive job whose flag is right has no live entry. -/
lemma Job.terminated_of_inactive (hlive : j.live = false) (he : j.prs[c]? = some e) :
    e.state = .terminated := by
  have hall := List.any_eq_false.mp hlive e (mem_of_getElem? he)
  simpa using hall

lemma Job.live_of_entry (he : j.prs[c]? = some e) (halive : e.state ≠ .terminated) :
    j.live = true :=
  List.any_eq_true.mpr ⟨e, mem_of_getElem? he, by simpa using halive⟩

/-! ## The entry under construction -/

/-- The entry of the job while `add_job` fills it in and afterwards: which
stores have been made, the flag, that no entry shows a termination before it
is settled, and that the entry of a skipped stage never does. -/
structure Shape (bg : Bool) (pc : Pc) (pids : List Int) (j : Job) : Prop where
  length : j.prs.length = if sized pc then pids.length else 0
  pid : ∀ c e, j.prs[c]? = some e →
    (named pc c = true → pids[c]? = some e.pid) ∧ (named pc c = false → e.pid = 0)
  flag : j.active = (armed pc && j.live)
  alive : ∀ c e, j.prs[c]? = some e → settled bg pc c = false → e.state ≠ .terminated
  skipped : ∀ (c : Nat) (e : Process), j.prs[c]? = some e → e.pid ≤ 0 → e.state ≠ .terminated

namespace Shape

variable {bg : Bool} {pc pc' : Pc} {pids : List Int} {j : Job}

/-- After `add_job` the control point matters for what is settled only. -/
lemma toPc (h : Shape bg pc pids j) (hpc : registered pc = true) (hpc' : registered pc' = true)
    (hmono : ∀ c, settled bg pc c = true → settled bg pc' c = true) : Shape bg pc' pids j where
  length := by
    have hlen := h.length
    rw [sized_of_registered hpc] at hlen
    rw [sized_of_registered hpc', hlen]
  pid := by
    intro c e he
    have hpid := h.pid c e he
    rw [named_of_registered hpc] at hpid
    rwa [named_of_registered hpc']
  flag := by
    have hflag := h.flag
    rw [armed_of_registered hpc] at hflag
    rwa [armed_of_registered hpc']
  alive := by
    intro c e he hset
    refine h.alive c e he ?_
    by_contra hcon
    rw [hmono c (by simpa using hcon)] at hset
    cases hset
  skipped := h.skipped

/-- `update_state` keeps the shape when it does not end an unsettled entry. -/
lemma record (h : Shape bg pc pids j) (hp : 0 < p)
    (hset : terminates st = true → ∀ c, pids[c]? = some p → settled bg pc c = true) :
    Shape bg pc pids (j.record p st) := by
  cases ha : j.active with
  | false =>
    rw [Job.record_of_inactive ha]
    exact h
  | true =>
    have harmed : armed pc = true := by
      have hflag := h.flag
      rw [ha] at hflag
      exact (Bool.and_eq_true_iff.mp hflag.symm).1
    refine ⟨?_, ?_, ?_, ?_, ?_⟩
    · rw [Job.prs_record_of_active ha, length_map]
      exact h.length
    · intro c e' he'
      rcases Job.getElem?_record he' with ⟨e, he, rfl | ⟨-, -, rfl⟩⟩
      · exact h.pid c e' he
      · rw [Process.pid_apply]
        exact h.pid c e he
    · have hcons : j.Consistent := by
        have hflag := h.flag
        rwa [harmed, Bool.true_and] at hflag
      rw [harmed, Bool.true_and]
      exact Job.record_consistent p st hcons
    · intro c e' he' hunset
      rcases Job.getElem?_record he' with ⟨e, he, rfl | ⟨-, hpid, rfl⟩⟩
      · exact h.alive c e' he hunset
      have halive := h.alive c e he hunset
      rw [Ne, terminates_iff_apply, not_or]
      refine ⟨fun hterm => ?_, fun hcon => halive hcon.1⟩
      -- an entry of pid `p` has been named, so it is an entry of the pipeline
      have hname : named pc c = true := by
        by_contra hcon
        have hzero := (h.pid c e he).2 (by simpa using hcon)
        omega
      have hown := (h.pid c e he).1 hname
      rw [hpid] at hown
      rw [hset hterm c hown] at hunset
      cases hunset
    · intro c e' he' hskip
      rcases Job.getElem?_record he' with ⟨e, he, rfl | ⟨-, hpid, rfl⟩⟩
      · exact h.skipped c e' he hskip
      · rw [Process.pid_apply] at hskip
        omega

/-- `update_state` with a terminating status leaves every entry of that pid
terminated: either it is written now, or the job was inactive already. -/
lemma terminated_record (h : Shape bg pc pids j) (harmed : armed pc = true)
    (hname : named pc c = true) (hc : pids[c]? = some p) (hterm : terminates st = true)
    (he' : (j.record p st).prs[c]? = some e') : e'.state = .terminated := by
  cases ha : j.active with
  | false =>
    -- `update_state` skips the job, in which nothing was alive
    rw [Job.record_of_inactive ha] at he'
    have hlive : j.live = false := by
      have hflag := h.flag
      rw [ha, harmed, Bool.true_and] at hflag
      exact hflag.symm
    exact Job.terminated_of_inactive hlive he'
  | true =>
    rw [Job.prs_record_of_active ha, List.getElem?_map] at he'
    rcases map_eq_some_iff.mp he' with ⟨e, he, rfl⟩
    have hpid := (h.pid c e he).1 hname
    have hep : e.pid = p := Option.some.inj (hpid.symm.trans hc)
    rw [if_pos hep]
    exact (terminates_iff_apply e st).mpr (.inl hterm)

end Shape

/-- The zeroed entry at the start of `add_job`. -/
lemma shape_zeroJob (bg : Bool) (pids : List Int) : Shape bg (.header .job_id) pids zeroJob := by
  constructor <;> simp [zeroJob, sized, armed]

/-- The stores into the job entry. -/
lemma Shape.storeField {f : JobField} (hn : pl.stages ≠ [])
    (hlen : pids.length = pl.stages.length) (h : Shape pl.bg (.header f) pids j) :
    Shape pl.bg (headerNext f) pids ((pl.newJob pids).storeField f j) := by
  have hsame : ∀ j' : Job, j'.prs = j.prs → j'.active = j.active →
      sized (headerNext f) = sized (.header f) → armed (headerNext f) = armed (.header f) →
      Shape pl.bg (headerNext f) pids j' := by
    intro j' hprs hact hsz harm
    have hname : ∀ c, named (headerNext f) c = false := by
      intro c
      cases f <;> simp [headerNext, named]
    refine ⟨?_, ?_, ?_, ?_, ?_⟩
    · rw [hprs, hsz]
      exact h.length
    · intro c e he
      rw [hprs] at he
      rw [hname c]
      exact h.pid c e he
    · rw [hact, harm, Job.live, hprs]
      exact h.flag
    · intro c e he _
      rw [hprs] at he
      exact h.alive c e he rfl
    · intro c e he
      rw [hprs] at he
      exact h.skipped c e he
  cases f with
  | num =>
    -- the first `num` entries become part of the job, all of them zeroed
    have hact : j.active = false := by simpa [armed] using h.flag
    have hzero : ∀ (c : Nat) (e : Process),
        (List.replicate (pl.newJob pids).procs.length zeroProcess)[c]? = some e →
          e = zeroProcess := by
      intro c e he
      exact eq_of_mem_replicate (mem_of_getElem? he)
    refine ⟨?_, ?_, ?_, ?_, ?_⟩
    · simp [NewJob.storeField, Plan.newJob, headerNext, sized, hlen]
    · intro c e he
      rw [hzero c e he]
      simp [headerNext, named, zeroProcess]
    · simp [NewJob.storeField, headerNext, armed, hact]
    · intro c e he _
      rw [hzero c e he]
      decide
    intro c e he _
    rw [hzero c e he]
    decide
  | active =>
    -- the flag is right from the start: there is an entry, and it is alive
    have hpos : 0 < j.prs.length := by
      have hl := h.length
      have hstages := length_pos_iff.mpr hn
      simp only [sized, if_true] at hl
      omega
    have hfirst := List.getElem?_eq_getElem hpos
    have hlive : j.live = true := Job.live_of_entry hfirst (h.alive 0 _ hfirst rfl)
    refine ⟨?_, ?_, ?_, ?_, ?_⟩
    · exact h.length
    · exact h.pid
    · simpa [NewJob.storeField, headerNext, armed, Job.live] using hlive
    · exact h.alive
    · exact h.skipped
  | job_id | pgid | bg | cmd => exact hsame _ rfl rfl rfl rfl

/-- A process entry before and after a store into `prs[i]`. -/
lemma Job.getElem?_storeEntry (i c : Nat) (proc : Int × String) (f : EntryField) (j : Job) :
    (j.storeEntry i proc f).prs[c]? =
      (j.prs[c]?).map (fun e => if i = c then Process.storeField proc f e else e) := by
  rw [Job.storeEntry, List.getElem?_modify]
  split <;> simp_all

lemma Process.state_storeField (proc : Int × String) (f : EntryField) (e : Process) :
    (Process.storeField proc f e).state = if f = .state then .running else e.state := by
  cases f <;> rfl

lemma Process.pid_storeField (proc : Int × String) (f : EntryField) (e : Process) :
    (Process.storeField proc f e).pid = if f = .pid then proc.1 else e.pid := by
  cases f <;> rfl

/-- A store never ends a process. -/
lemma Process.alive_storeField {proc : Int × String} (h : e.state ≠ .terminated) :
    (Process.storeField proc f e).state ≠ .terminated := by
  rw [Process.state_storeField]
  split
  · decide
  · exact h

/-- A store into an entry that is alive, or of another field than `state`, does
not change whether the job is live. -/
lemma Job.live_storeEntry {proc : Int × String}
    (hstate : f = .state → ∀ e, j.prs[i]? = some e → e.state ≠ .terminated) :
    (j.storeEntry i proc f).live = j.live := by
  rw [Bool.eq_iff_iff]
  constructor
  · intro hlive
    rcases List.any_eq_true.mp hlive with ⟨e', hmem, halive⟩
    rcases mem_iff_getElem?.mp hmem with ⟨c, he'⟩
    rw [Job.getElem?_storeEntry] at he'
    rcases map_eq_some_iff.mp he' with ⟨e, he, rfl⟩
    refine Job.live_of_entry he ?_
    by_cases hic : i = c
    · by_cases hf : f = .state
      · subst hic
        exact hstate hf e he
      · simpa [hic, hf, Process.state_storeField] using halive
    · simpa [hic] using halive
  · intro hlive
    rcases List.any_eq_true.mp hlive with ⟨e, hmem, halive⟩
    rcases mem_iff_getElem?.mp hmem with ⟨c, he⟩
    have halive' : e.state ≠ .terminated := by simpa using halive
    refine Job.live_of_entry (c := c) (by rw [Job.getElem?_storeEntry, he]; rfl) ?_
    split
    · exact Process.alive_storeField halive'
    · exact halive'

lemma sized_entryNext (pl : Plan) (i : Nat) (f : EntryField) : sized (entryNext pl i f) = true := by
  cases f with
  | printed =>
    simp only [entryNext]
    split_ifs <;> rfl
  | _ => rfl

lemma armed_entryNext (pl : Plan) (i : Nat) (f : EntryField) : armed (entryNext pl i f) = true := by
  cases f with
  | printed =>
    simp only [entryNext]
    split_ifs <;> rfl
  | _ => rfl

lemma named_entryNext (f : EntryField) (hc : c < pl.stages.length) :
    named (entryNext pl i f) c = true ↔ c ≤ i := by
  cases f with
  | printed =>
    simp only [entryNext]
    split_ifs <;> simp [named] <;> omega
  | _ => simp [entryNext, named, le_iff_lt_or_eq]

/-- Storing a field settles the entry when the field is `state`, in the
background; nothing becomes unsettled. -/
lemma settled_entryNext (f : EntryField) (hc : c < pl.stages.length) :
    settled pl.bg (entryNext pl i f) c = true ↔
      settled pl.bg (.entry i f) c = true ∨ (pl.bg = true ∧ f = .state ∧ c = i) := by
  cases f with
  | printed =>
    simp only [entryNext]
    split_ifs <;> simp_all [settled] <;> omega
  | state =>
    simp only [entryNext, settled]
    simp
    tauto
  | _ => simp [entryNext, settled]

/-- The pid that `add_job` stores into entry `c`. -/
lemma Plan.newJob_pid (hlen : pids.length = pl.stages.length) (hc : c < pl.stages.length) :
    pids[c]? = some ((pl.newJob pids).procs.getD c (0, "")).1 := by
  have hcp : c < pids.length := by omega
  have hz : c < (pids.zip (pl.stages.map (fun name => name.getD ""))).length := by
    simp only [length_zip, length_map]
    omega
  simp [Plan.newJob, List.getElem?_eq_getElem hz, hcp]

/-- The pid of an entry after a store into `prs[i]`. -/
lemma pid_storeEntry (hlen : pids.length = pl.stages.length) (hc : c < pl.stages.length)
    (hpid : (named (.entry i f) c = true → pids[c]? = some e.pid) ∧
      (named (.entry i f) c = false → e.pid = 0)) :
    let e' := if i = c then
      Process.storeField ((pl.newJob pids).procs.getD i (0, "")) f e else e
    (named (entryNext pl i f) c = true → pids[c]? = some e'.pid) ∧
      (named (entryNext pl i f) c = false → e'.pid = 0) := by
  intro e'
  rw [← Bool.not_eq_true, named_entryNext f hc]
  simp only [named, Bool.or_eq_true, Bool.and_eq_true, decide_eq_true_eq, Bool.or_eq_false_iff,
    decide_eq_false_iff_not, Bool.and_eq_false_iff] at hpid
  rcases Nat.lt_trichotomy c i with hlt | rfl | hgt
  · have he' : e' = e := if_neg (by omega)
    rw [he']
    exact ⟨fun _ => hpid.1 (.inl hlt), fun hcon => absurd (Nat.le_of_lt hlt) hcon⟩
  · have he' : e' = Process.storeField ((pl.newJob pids).procs.getD c (0, "")) f e := if_pos rfl
    rw [he', Process.pid_storeField]
    refine ⟨fun _ => ?_, fun hcon => absurd (Nat.le_refl c) hcon⟩
    split
    · exact Plan.newJob_pid hlen hc
    next hf => exact hpid.1 (.inr ⟨rfl, hf⟩)
  · have he' : e' = e := if_neg (by omega)
    rw [he']
    exact ⟨fun hcon => absurd hcon (by omega), fun _ => hpid.2 ⟨by omega, .inl (by omega)⟩⟩

/-- The stores into the process entries. -/
lemma Shape.storeEntry (hlen : pids.length = pl.stages.length)
    (h : Shape pl.bg (.entry i f) pids j) :
    Shape pl.bg (entryNext pl i f) pids
      (j.storeEntry i ((pl.newJob pids).procs.getD i (0, "")) f) := by
  have hprs : j.prs.length = pids.length := by simpa [sized] using h.length
  have hbound : ∀ {c e}, j.prs[c]? = some e → c < pl.stages.length := by
    intro c e he
    have hlt := (List.getElem?_eq_some_iff.mp he).1
    omega
  refine ⟨?_, ?_, ?_, ?_, ?_⟩
  · simpa [Job.storeEntry, sized_entryNext] using hprs
  · intro c e' he'
    rw [Job.getElem?_storeEntry] at he'
    rcases map_eq_some_iff.mp he' with ⟨e, he, rfl⟩
    exact pid_storeEntry hlen (hbound he) (h.pid c e he)
  · have hflag := h.flag
    rw [show armed (.entry i f) = true from rfl, Bool.true_and] at hflag
    rw [armed_entryNext, Bool.true_and]
    -- where the state is stored, the entry was alive before
    rw [Job.live_storeEntry (fun hf e he => h.alive i e he (by simp [settled, hf]))]
    exact hflag
  · intro c e' he' hunset
    rw [Job.getElem?_storeEntry] at he'
    rcases map_eq_some_iff.mp he' with ⟨e, he, rfl⟩
    have halive : e.state ≠ .terminated := by
      refine h.alive c e he ?_
      by_contra hcon
      have hset := (settled_entryNext f (hbound he)).mpr (.inl (by simpa using hcon))
      rw [hset] at hunset
      cases hunset
    split
    · exact Process.alive_storeField halive
    · exact halive
  intro c e' he' hskip
  rw [Job.getElem?_storeEntry] at he'
  rcases map_eq_some_iff.mp he' with ⟨e, he, rfl⟩
  by_cases hic : i = c
  · rw [if_pos hic] at hskip ⊢
    apply Process.alive_storeField
    refine h.skipped c e he ?_
    by_cases hf : f = .pid
    · -- the pid has not been stored yet
      exact Int.le_of_eq ((h.pid c e he).2 (by simp [named, hic, hf]))
    · rwa [Process.pid_storeField, if_neg hf] at hskip
  · rw [if_neg hic] at hskip ⊢
    exact h.skipped c e he hskip

/-! ## The commands among the children -/

/-- `p` is the command of stage `c`. -/
def Own (pids : List Int) (c : Nat) (p : Int) : Prop := pids[c]? = some p ∧ 0 < p

lemma own_append : Own (pids ++ [q]) c p ↔ Own pids c p ∨ (c = pids.length ∧ p = q ∧ 0 < p) := by
  unfold Own
  rw [Lib.getElem?_concat_eq_some, or_and_right, and_assoc]

lemma Own.lt (h : Own pids c p) : c < pids.length :=
  (List.getElem?_eq_some_iff.mp h.1).1

/-- The kernel knows every command by one pid. -/
structure Family (kids : Int → Option Child) (born pids : List Int) : Prop where
  born : ∀ p k, kids p = some k → p ∈ born ∧ 0 < p
  child : ∀ c p, Own pids c p → ∃ k, kids p = some k ∧ k.real.valid = true
  unique : ∀ c c' p, Own pids c p → Own pids c' p → c = c'

namespace Family

variable {kids : Int → Option Child} {born pids : List Int} {p : Int}

lemma valid (h : Family kids born pids) (hown : Own pids c p)
    (hk : kids p = some k) : k.real.valid = true := by
  rcases h.child c p hown with ⟨k0, hk0, hvalid⟩
  cases hk.symm.trans hk0
  exact hvalid

lemma setChild (h : Family kids born pids) (hk : kids p = some k)
    (hvalid : k.real.valid = true → k'.real.valid = true) :
    Family (Function.update kids p (some k')) born pids := by
  refine ⟨?_, ?_, h.unique⟩
  · intro q kq hq
    by_cases hqp : q = p
    · rw [hqp]
      exact h.born p k hk
    · rw [update_of_ne hqp] at hq
      exact h.born q kq hq
  intro c q hq
  rcases h.child c q hq with ⟨kq, hkq, hv⟩
  by_cases hqp : q = p
  · refine ⟨k', by rw [hqp, update_self], hvalid ?_⟩
    rw [hqp, hk] at hkq
    rwa [Option.some.inj hkq]
  · exact ⟨kq, by rwa [update_of_ne hqp], hv⟩

/-- A fork takes a pid that no command has. -/
lemma spawn (h : Family kids born pids) (hp : 0 < p) (hfresh : ∀ c, ¬ Own pids c p) :
    Family (Function.update kids p (some ⟨.running, false⟩)) (p :: born) pids := by
  refine ⟨?_, ?_, h.unique⟩
  · intro q kq hq
    by_cases hqp : q = p
    · exact ⟨by simp [hqp], hqp ▸ hp⟩
    · rw [update_of_ne hqp] at hq
      exact ⟨mem_cons_of_mem p (h.born q kq hq).1, (h.born q kq hq).2⟩
  intro c q hq
  rcases h.child c q hq with ⟨kq, hkq, hv⟩
  have hqp : q ≠ p := by
    rintro rfl
    exact hfresh c hq
  exact ⟨kq, by rwa [update_of_ne hqp], hv⟩

lemma append (h : Family kids born pids) (hk : kids p = some k) (hvalid : k.real.valid = true)
    (hfresh : ∀ c, ¬ Own pids c p) : Family kids born (pids ++ [p]) := by
  refine ⟨h.born, ?_, ?_⟩
  · intro c q hq
    rcases own_append.mp hq with hold | ⟨-, rfl, -⟩
    · exact h.child c q hold
    · exact ⟨k, hk, hvalid⟩
  intro c c' q hq hq'
  rcases own_append.mp hq with hold | ⟨rfl, rfl, -⟩
  · rcases own_append.mp hq' with hold' | ⟨-, rfl, -⟩
    · exact h.unique c c' q hold hold'
    · exact absurd hold (hfresh c)
  rcases own_append.mp hq' with hold' | ⟨rfl, -, -⟩
  · exact absurd hold' (hfresh c')
  · rfl

/-- A skipped stage has no command. -/
lemma append_skip (h : Family kids born pids) : Family kids born (pids ++ [-1]) := by
  have hown : ∀ {c q}, Own (pids ++ [-1]) c q → Own pids c q := by
    intro c q hq
    rcases own_append.mp hq with hold | ⟨-, rfl, hneg⟩
    · exact hold
    · omega
  exact ⟨h.born, fun c q hq => h.child c q (hown hq),
    fun c c' q hq hq' => h.unique c c' q (hown hq) (hown hq')⟩

end Family

/-! ## Terminated children are accounted for -/

section Accounting

variable {bg : Bool} {kids : Int → Option Child} {pids : List Int} {pc pc' : Pc} {job : Option Job}
    {p : Int}

/-- A command that has been reaped is settled, or its status is on its way to
`update_state`. -/
def Kept (bg : Bool) (kids : Int → Option Child) (pids : List Int) (pc : Pc) : Prop :=
  ∀ c p k, Own pids c p → kids p = some k → k.reaped = true →
    settled bg pc c = true ∨ pc = .update c k.real.status (some k.real.status)

/-- The entry of a settled command that has been reaped is terminated. -/
def Entered (bg : Bool) (kids : Int → Option Child) (pids : List Int) (pc : Pc)
    (job : Option Job) : Prop :=
  ∀ c p k j e, Own pids c p → kids p = some k → k.reaped = true → settled bg pc c = true →
    job = some j → j.prs[c]? = some e → e.state = .terminated

lemma Kept.toPc (h : Kept bg kids pids pc)
    (hmono : ∀ c, settled bg pc c = true → settled bg pc' c = true)
    (hupd : ∀ c st, pc = .update c st (some st) → settled bg pc' c = true) :
    Kept bg kids pids pc' := by
  intro c p k hown hk hreaped
  rcases h c p k hown hk hreaped with hset | heq
  · exact .inl (hmono c hset)
  · exact .inl (hupd c _ heq)

lemma Kept.setChild (h : Kept bg kids pids pc)
    (hnew : ∀ c, Own pids c p → k'.reaped = true →
      settled bg pc c = true ∨ pc = .update c k'.real.status (some k'.real.status)) :
    Kept bg (Function.update kids p (some k')) pids pc := by
  intro c q k hown hk hreaped
  by_cases hqp : q = p
  · subst hqp
    rw [update_self] at hk
    cases hk
    exact hnew c hown hreaped
  · rw [update_of_ne hqp] at hk
    exact h c q k hown hk hreaped

/-- Before the job is registered no command has been reaped. -/
lemma Kept.not_reaped (h : Kept bg kids pids pc) (hset : ∀ c, settled bg pc c = false)
    (hupd : ∀ c st, pc ≠ .update c st (some st)) (hown : Own pids c p)
    (hk : kids p = some k) : k.reaped = false := by
  by_contra hcon
  rcases h c p k hown hk (by simpa using hcon) with hs | heq
  · rw [hset c] at hs
    cases hs
  · exact hupd c _ heq

lemma Entered.toPc (h : Entered bg kids pids pc job)
    (hnew : ∀ c p k, Own pids c p → kids p = some k → k.reaped = true →
      settled bg pc' c = true → settled bg pc c = true ∨
        ∀ j e, job = some j → j.prs[c]? = some e → e.state = .terminated) :
    Entered bg kids pids pc' job := by
  intro c p k j e hown hk hreaped hset hj he
  rcases hnew c p k hown hk hreaped hset with hold | hterm
  · exact h c p k j e hown hk hreaped hold hj he
  · exact hterm j e hj he

lemma Entered.setChild (h : Entered bg kids pids pc job)
    (hnew : ∀ c j e, Own pids c p → k'.reaped = true → settled bg pc c = true →
      job = some j → j.prs[c]? = some e → e.state = .terminated) :
    Entered bg (Function.update kids p (some k')) pids pc job := by
  intro c q k j e hown hk hreaped hset hj he
  by_cases hqp : q = p
  · subst hqp
    rw [update_self] at hk
    cases hk
    exact hnew c j e hown hreaped hset hj he
  · rw [update_of_ne hqp] at hk
    exact h c q k j e hown hk hreaped hset hj he

/-- `update_state` for a pid leaves what is known of the other ones. -/
lemma Entered.record (h : Entered bg kids pids pc job)
    (hshape : ∀ j, job = some j → Shape bg pc pids j)
    (hp : ∀ c k, Own pids c p → kids p = some k → k.reaped = true → settled bg pc c = false) :
    Entered bg kids pids pc (job.map (Job.record p st)) := by
  intro c q k j' e' hown hk hreaped hset hj' he'
  rcases map_eq_some_iff.mp hj' with ⟨j, hj, rfl⟩
  rcases Job.getElem?_record he' with ⟨e, he, rfl | ⟨-, hpid, rfl⟩⟩
  · exact h c q k j e' hown hk hreaped hset hj he
  have hname := ((hshape j hj).pid c e he).1 (named_of_settled hset)
  have hqp : q = p := by
    rw [hown.1, hpid] at hname
    exact Option.some.inj hname
  subst hqp
  rw [hp c k hown hk hreaped] at hset
  cases hset

/-- Where nothing is settled there is nothing to know. -/
lemma Entered.of_unsettled (hset : ∀ c, settled bg pc c = false) : Entered bg kids pids pc job := by
  intro c p k j e _ _ _ hs
  rw [hset c] at hs
  cases hs

end Accounting

/-! ## The invariant -/

/-- What holds along every run in which the handler takes no termination of an
unsettled command. -/
structure Inv (pl : Plan) (s : St) : Prop where
  forking : ∀ c, s.pc = .fork c → s.pids.length = c ∧ s.job = none
  forked : (∀ c, s.pc ≠ .fork c) → s.pids.length = pl.stages.length ∧ ∃ j, s.job = some j
  stage : ∀ (c : Nat) (p : Int), s.pids[c]? = some p → (p ≤ 0 ↔ pl.stages[c]? = some none)
  waiting : ∀ (c : Nat) (p : Int), waitsFor s.pc = some c → s.pids[c]? = some p → 0 < p
  family : Family s.kids s.born s.pids
  kept : Kept pl.bg s.kids s.pids s.pc
  shape : ∀ j, s.job = some j → Shape pl.bg s.pc s.pids j
  entered : Entered pl.bg s.kids s.pids s.pc s.job

/-- The handler takes a termination of settled commands only. -/
def lateReap (pl : Plan) (l : Label) (s : St) : Bool :=
  match l with
  | .reap p =>
    !(s.kids p).any (fun k => k.real.ended) ||
      (List.range s.pids.length).all (fun c => s.pids[c]? ≠ some p || settled pl.bg s.pc c)
  | _ => true

lemma settled_of_lateReap (h : lateReap pl (.reap p) s = true) (hk : s.kids p = some k)
    (hend : k.real.ended = true) (hc : s.pids[c]? = some p) : settled pl.bg s.pc c = true := by
  simp only [lateReap, hk, any_some, hend, Bool.not_true, Bool.false_or,
    List.all_eq_true, mem_range] at h
  have hlt := (List.getElem?_eq_some_iff.mp hc).1
  simpa [hc] using h c hlt

lemma Inv.init (h : Init s) : Inv pl s := by
  have hown : ∀ {c p}, ¬ Own s.pids c p := by
    intro c p hcon
    simp [h.pids, Own] at hcon
  refine ⟨?_, ?_, ?_, ?_, ?_, ?_, ?_, ?_⟩
  · intro c hc
    rw [h.pc] at hc
    cases hc
    simp [h.pids, h.job]
  · intro hcon
    exact absurd h.pc (hcon 0)
  · intro c p hp
    simp [h.pids] at hp
  · intro c p _ hp
    simp [h.pids] at hp
  · exact ⟨h.born, fun c p hp => absurd hp hown, fun c c' p hp => absurd hp hown⟩
  · exact fun c p k hp => absurd hp hown
  · intro j hj
    rw [h.job] at hj
    cases hj
  · exact fun c p k j e hp => absurd hp hown

namespace Inv

variable {pl : Plan} {s : St} {p : Int} {k : Child} {c : Nat} {res : Option Int}

/-- The invariant does not read the two flags. -/
lemma flags (h : Inv pl s) (handler released : Bool) :
    Inv pl { s with handler := handler, released := released } :=
  ⟨h.forking, h.forked, h.stage, h.waiting, h.family, h.kept, h.shape, h.entered⟩

/-- A move of the control point after `add_job` that settles no further
command. -/
lemma toPc (h : Inv pl s) (pc' : Pc) (hpc : registered s.pc = true)
    (hpc' : registered pc' = true) (hupd : ∀ c st res, s.pc ≠ .update c st res)
    (hmono : ∀ c, settled pl.bg s.pc c = true → settled pl.bg pc' c = true)
    (hback : ∀ c p, Own s.pids c p → settled pl.bg pc' c = true → settled pl.bg s.pc c = true)
    (hwait : ∀ c p, waitsFor pc' = some c → s.pids[c]? = some p → 0 < p) :
    Inv pl { s with pc := pc' } := by
  refine ⟨?_, ?_, h.stage, hwait, h.family, ?_, ?_, ?_⟩
  · exact fun c hc => absurd hc (ne_fork_of_registered hpc' c)
  · exact fun _ => h.forked (ne_fork_of_registered hpc)
  · exact h.kept.toPc hmono (fun c st hcon => absurd hcon (hupd c st _))
  · exact fun j hj => (h.shape j hj).toPc hpc hpc' hmono
  · exact h.entered.toPc (fun c p _ hown _ _ hset => .inl (hback c p hown hset))

/-- A child changes, and nothing follows about a settled command. -/
lemma setChild (h : Inv pl s) (hk : s.kids p = some k)
    (hvalid : k.real.valid = true → k'.real.valid = true)
    (hnew : ∀ c, Own s.pids c p → k'.reaped = false) : Inv pl (s.setChild p k') := by
  refine ⟨h.forking, h.forked, h.stage, h.waiting, h.family.setChild hk hvalid, ?_, h.shape, ?_⟩
  · refine h.kept.setChild (fun c hown hreaped => ?_)
    rw [hnew c hown] at hreaped
    cases hreaped
  refine h.entered.setChild (fun c j e hown hreaped => ?_)
  rw [hnew c hown] at hreaped
  cases hreaped

/-- While the pipeline is being forked, a free pid belongs to no command. -/
lemma fresh (h : Inv pl s) (hpc : s.pc = .fork c) (hfree : s.free p = true) :
    ∀ c', ¬ Own s.pids c' p := by
  intro c' hown
  rcases h.family.child c' p hown with ⟨k, hk, -⟩
  have hkept := h.kept
  rw [hpc] at hkept
  have hnot := hkept.not_reaped (fun _ => rfl) (fun _ _ hcon => by cases hcon) hown hk
  rw [St.free, hk, all_some, hnot] at hfree
  cases hfree

/-- No command has been reaped, so nothing is to be accounted for. -/
lemma spawn (h : Inv pl s) (hpc : s.pc = .fork c) (hp : 0 < p) (hfree : s.free p = true) :
    Inv pl (s.spawn p) := by
  have hfresh := h.fresh hpc hfree
  refine ⟨h.forking, h.forked, h.stage, h.waiting, h.family.spawn hp hfresh, ?_, h.shape, ?_⟩
  · exact h.kept.setChild (fun c hown => absurd hown (hfresh c))
  · exact h.entered.setChild (fun c j e hown => absurd hown (hfresh c))

/-- The next stage gets its pid, or `-1`. -/
lemma append (h : Inv pl s) (hpc : s.pc = .fork c) (hstage : p ≤ 0 ↔ pl.stages[c]? = some none)
    (hfamily : Family s.kids s.born (s.pids ++ [p]))
    (hp : ∀ k, s.kids p = some k → 0 < p → k.reaped = false) :
    Inv pl { s with pids := s.pids ++ [p], pc := .fork (c + 1) } := by
  have hlen := (h.forking c hpc).1
  refine ⟨?_, ?_, ?_, fun c' q => nofun, hfamily, ?_, ?_, ?_⟩
  · rintro c' ⟨⟩
    simp [hlen, (h.forking c hpc).2]
  · exact fun hcon => absurd rfl (hcon (c + 1))
  · intro c' q hq
    rcases Lib.getElem?_concat_eq_some.mp hq with hq | ⟨rfl, rfl⟩
    · exact h.stage c' q hq
    · rwa [hlen]
  · intro c' q k hown hk hreaped
    have hkept := h.kept
    rw [hpc] at hkept
    rcases own_append.mp hown with hold | ⟨-, rfl, hpos⟩
    · rw [hkept.not_reaped (fun _ => rfl) (fun _ _ hcon => by cases hcon) hold hk] at hreaped
      cases hreaped
    · rw [hp k hk hpos] at hreaped
      cases hreaped
  · intro j hj
    have hnone := (h.forking c hpc).2
    rw [hnone] at hj
    cases hj
  · exact Entered.of_unsettled (fun _ => rfl)

/-- `waitpid` returned the status of stage `c`. -/
lemma returned (h : Inv pl s) (hpc : registered s.pc = true)
    (hupd : ∀ c st res, s.pc ≠ .update c st res)
    (hset : ∀ c', settled pl.bg s.pc c' = decide (c' < c)) (hc : s.pids[c]? = some p) (hp : 0 < p)
    (hk : s.kids p = some k) : Inv pl { s.setChild p { k with pending := false } with
      pc := .update c k.real.status (some k.real.status) } := by
  have hpc' : registered (.update c k.real.status (some k.real.status)) = true := rfl
  have hwait : ∀ c' q, waitsFor (.update c k.real.status (some k.real.status)) = some c' →
      s.pids[c']? = some q → 0 < q := by
    rintro c' q ⟨⟩ hq
    rwa [← Option.some.inj (hc.symm.trans hq)]
  have hmove := h.toPc _ hpc hpc' hupd (fun c' hs => by rwa [hset c'] at hs)
    (fun c' q _ hs => by rwa [hset c']) hwait
  have hone : ∀ c', Own s.pids c' p → c' = c :=
    fun c' hown => h.family.unique c' c p hown ⟨hc, hp⟩
  refine ⟨hmove.forking, hmove.forked, h.stage, hmove.waiting, h.family.setChild hk id, ?_,
    hmove.shape, ?_⟩
  · -- the status is on its way to `update_state`
    refine hmove.kept.setChild (fun c' hown _ => .inr ?_)
    rw [hone c' hown]
  refine hmove.entered.setChild (fun c' j e hown _ hs => ?_)
  rw [hone c' hown] at hs
  simp [settled] at hs

/-- The wait loop hands a status for stage `c` to `update_state`, whatever it
is. -/
lemma update (h : Inv pl s) (hpc : s.pc = .update c st res)
    (hc : s.pids[c]? = some p) : Inv pl { s.record p st with pc := .helpers c } := by
  have hp : 0 < p := h.waiting c p (by rw [hpc]; rfl) hc
  have hone : ∀ {c'}, Own s.pids c' p → c' = c :=
    fun hown => h.family.unique _ c p hown ⟨hc, hp⟩
  have hmono : ∀ c', settled pl.bg s.pc c' = true → settled pl.bg (.helpers c) c' = true := by
    intro c' hs
    rw [hpc] at hs
    simp only [settled, decide_eq_true_eq] at hs ⊢
    omega
  refine ⟨?_, ?_, h.stage, fun c' q => nofun, h.family, ?_, ?_, ?_⟩
  · rintro c' ⟨⟩
  · intro _
    rcases h.forked (by simp [hpc]) with ⟨hlen, j, hj⟩
    exact ⟨hlen, j.record p st, by simp [St.record, hj]⟩
  · refine h.kept.toPc hmono (fun c' st' hupd => ?_)
    rw [hpc] at hupd
    cases hupd
    simp [settled]
  · intro j' hj'
    rcases map_eq_some_iff.mp hj' with ⟨j, hj, rfl⟩
    refine ((h.shape j hj).toPc (by rw [hpc]; rfl) rfl hmono).record hp (fun _ c' hc' => ?_)
    rw [hone ⟨hc', hp⟩]
    simp [settled]
  -- at the old control point stage `c` is not settled, so `update_state`
  -- disturbs nothing; then `c` itself becomes settled
  have hold : Entered pl.bg s.kids s.pids s.pc (s.job.map (Job.record p st)) := by
    refine h.entered.record h.shape (fun c' k hown _ _ => ?_)
    rw [hone hown, hpc]
    simp [settled]
  refine hold.toPc (fun c' q k hown hk hreaped hs => ?_)
  rcases h.kept c' q k hown hk hreaped with hset | hupd
  · exact .inl hset
  refine .inr (fun j' e' hj' he' => ?_)
  rcases map_eq_some_iff.mp hj' with ⟨j, hj, rfl⟩
  rw [hpc] at hupd
  cases hupd
  have hq : q = p := Option.some.inj (hown.1.symm.trans hc)
  have hterm : terminates k.real.status = true := by
    rw [terminates_status (h.family.valid hown hk)]
    exact (Bool.and_eq_true_iff.mp hreaped).1
  exact (h.shape j hj).terminated_record (c := c) (by rw [hpc]; rfl) (by rw [hpc]; rfl) hc hterm he'

/-- The handler, or the final `print_prs`, reaps a child. -/
lemma reap (h : Inv pl s) (hk : s.kids p = some k) (hpend : k.pending = true)
    (hlate : k.real.ended = true → ∀ c, s.pids[c]? = some p → settled pl.bg s.pc c = true) :
    Inv pl ((s.setChild p { k with pending := false }).record p k.real.status) := by
  have hp : 0 < p := (h.family.born p k hk).2
  have hshape : ∀ j, s.job = some j → Shape pl.bg s.pc s.pids (j.record p k.real.status) := by
    intro j hj
    refine (h.shape j hj).record hp (fun hterm c hc => ?_)
    rw [terminates_status (h.family.valid ⟨hc, hp⟩ hk)] at hterm
    exact hlate hterm c hc
  refine ⟨?_, ?_, h.stage, h.waiting, h.family.setChild hk id, ?_, ?_, ?_⟩
  · intro c hc
    rcases h.forking c hc with ⟨hlen, hnone⟩
    exact ⟨hlen, by simp [St.record, St.setChild, hnone]⟩
  · intro hne
    rcases h.forked hne with ⟨hlen, j, hj⟩
    exact ⟨hlen, j.record p k.real.status, by simp [St.record, St.setChild, hj]⟩
  · refine h.kept.setChild (fun c hown hreaped => .inl ?_)
    exact hlate (Bool.and_eq_true_iff.mp hreaped).1 c hown.1
  · intro j' hj'
    rcases map_eq_some_iff.mp hj' with ⟨j, hj, rfl⟩
    exact hshape j hj
  -- the child was pending, so nothing was known of its entry
  have hold : Entered pl.bg s.kids s.pids s.pc (s.job.map (Job.record p k.real.status)) := by
    refine h.entered.record h.shape (fun c k0 hown hk0 hreaped => ?_)
    cases hk.symm.trans hk0
    simp [Child.reaped, hpend] at hreaped
  refine hold.setChild (fun c j' e' hown hreaped hset hj' he' => ?_)
  rcases map_eq_some_iff.mp hj' with ⟨j, hj, rfl⟩
  have hterm : terminates k.real.status = true := by
    rw [terminates_status (h.family.valid hown hk)]
    exact (Bool.and_eq_true_iff.mp hreaped).1
  exact (h.shape j hj).terminated_record (armed_of_settled hset) (named_of_settled hset) hown.1
    hterm he'

/-- `add_job` takes the next entry of the table. -/
lemma addJob (h : Inv pl s) (hpc : s.pc = .fork pl.stages.length) :
    Inv pl { s with job := some zeroJob, pc := .header .job_id } := by
  refine ⟨?_, ?_, h.stage, ?_, h.family, ?_, ?_, ?_⟩
  · rintro c ⟨⟩
  · exact fun _ => ⟨(h.forking _ hpc).1, zeroJob, rfl⟩
  · rintro c p ⟨⟩
  · intro c p k hown hk hreaped
    have hkept := h.kept
    rw [hpc] at hkept
    rw [hkept.not_reaped (fun _ => rfl) (fun _ _ hcon => by cases hcon) hown hk] at hreaped
    cases hreaped
  · rintro j ⟨⟩
    exact shape_zeroJob pl.bg s.pids
  · exact Entered.of_unsettled (fun _ => rfl)

lemma storeField (h : Inv pl s) (hn : pl.stages ≠ []) {f : JobField} (hpc : s.pc = .header f) :
    Inv pl { s with job := s.job.map ((pl.newJob s.pids).storeField f), pc := headerNext f } := by
  rcases h.forked (by simp [hpc]) with ⟨hlen, j, hj⟩
  have hset : ∀ c, settled pl.bg (headerNext f) c = false := by
    intro c
    cases f <;> simp [headerNext, settled]
  refine ⟨?_, ?_, h.stage, ?_, h.family, ?_, ?_, ?_⟩
  · cases f <;> rintro c ⟨⟩
  · exact fun _ => ⟨hlen, _, by simp [hj]; rfl⟩
  · cases f <;> rintro c p ⟨⟩
  · refine h.kept.toPc (fun c hs => ?_) (fun c st hcon => ?_)
    · rw [hpc] at hs
      cases hs
    · rw [hpc] at hcon
      cases hcon
  · intro j' hj'
    rcases map_eq_some_iff.mp hj' with ⟨j0, hj0, rfl⟩
    have hshape := h.shape j0 hj0
    rw [hpc] at hshape
    exact hshape.storeField hn hlen
  · exact Entered.of_unsettled hset

lemma storeEntry (h : Inv pl s) (hpc : s.pc = .entry i f) :
    Inv pl { s with
      job := s.job.map (Job.storeEntry i ((pl.newJob s.pids).procs.getD i (0, "")) f),
      pc := entryNext pl i f } := by
  rcases h.forked (by simp [hpc]) with ⟨hlen, j, hj⟩
  have hkept := h.kept
  have hentered := h.entered
  rw [hpc] at hkept hentered
  -- a command that has been reaped is settled already, so its state is not
  -- what is being stored
  have hreaped_settled : ∀ {c p k}, Own s.pids c p → s.kids p = some k → k.reaped = true →
      settled pl.bg (.entry i f) c = true := by
    intro c p k hown hk hreaped
    rcases hkept c p k hown hk hreaped with hset | hcon
    · exact hset
    · cases hcon
  refine ⟨?_, ?_, h.stage, ?_, h.family, ?_, ?_, ?_⟩
  · intro c hcon
    have hsz := sized_entryNext pl i f
    rw [show entryNext pl i f = .fork c from hcon] at hsz
    cases hsz
  · exact fun _ => ⟨hlen, _, by simp [hj]; rfl⟩
  · intro c p hcon
    exfalso
    revert hcon
    cases f with
    | printed =>
      simp only [entryNext]
      split_ifs <;> simp [waitsFor]
    | _ => simp [entryNext, waitsFor]
  · intro c p k hown hk hreaped
    have hc : c < pl.stages.length := hlen ▸ hown.lt
    exact .inl ((settled_entryNext f hc).mpr (.inl (hreaped_settled hown hk hreaped)))
  · intro j' hj'
    rcases map_eq_some_iff.mp hj' with ⟨j0, hj0, rfl⟩
    have hshape := h.shape j0 hj0
    rw [hpc] at hshape
    exact hshape.storeEntry hlen
  intro c p k j' e' hown hk hreaped _ hj' he'
  rcases map_eq_some_iff.mp hj' with ⟨j0, hj0, rfl⟩
  rw [Job.getElem?_storeEntry] at he'
  rcases map_eq_some_iff.mp he' with ⟨e, he, rfl⟩
  have hset := hreaped_settled hown hk hreaped
  have hterm := hentered c p k j0 e hown hk hreaped hset hj0 he
  split
  next hic =>
    rw [Process.state_storeField, if_neg ?_]
    · exact hterm
    · rintro rfl
      simp [settled, hic] at hset
  · exact hterm

/-- Every step keeps the invariant. -/
lemma step (hn : pl.stages ≠ []) (hlate : lateReap pl l s = true)
    (hstep : step pl l s = some s') (h : Inv pl s) : Inv pl s' := by
  cases Move.of_step hstep with
  | @fork c name p hpc hstage hp hfree =>
    have hspawn := h.spawn hpc hp hfree
    have hk : (s.spawn p).kids p = some ⟨.running, false⟩ := update_self ..
    have hskip : p ≤ 0 ↔ pl.stages[c]? = some none := by
      rw [hstage]
      simpa using hp
    refine hspawn.append hpc hskip (hspawn.family.append hk rfl (h.fresh hpc hfree)) ?_
    intro k hk' _
    cases hk.symm.trans hk'
    rfl
  | skip hpc hstage =>
    refine h.append hpc (iff_of_true (by decide) hstage) h.family.append_skip ?_
    intro k _ hcon
    omega
  | helper hpc hp hfree => exact h.spawn hpc hp hfree
  | addJob hpc => exact h.addJob hpc
  | storeField hpc => exact h.storeField hn hpc
  | storeEntry hpc => exact h.storeEntry hpc
  | release hpc =>
    refine (h.toPc .returned ?_ rfl ?_ ?_ ?_ ?_).flags s.handler true
    all_goals simp [hpc, registered, settled, waitsFor]
  | @callSkip c p garbage hpc hc hp =>
    -- a stage with pid `-1` has no command, so passing it settles none
    refine h.toPc (.helpers c) (by rw [hpc]; rfl) rfl (by simp [hpc]) ?_ ?_ (by simp [waitsFor])
    · intro c' hs
      simp only [hpc, settled, decide_eq_true_eq] at hs ⊢
      omega
    intro c' q hown hs
    simp only [hpc, settled, decide_eq_true_eq] at hs ⊢
    have hne : c' ≠ c := by
      rintro rfl
      have hq : q = p := Option.some.inj (hown.1.symm.trans hc)
      have hpos := hown.2
      omega
    omega
  | @callLost c p garbage hpc hc hp hk =>
    -- `waitpid` failed, and `update_state` is handed what the variable held
    refine h.toPc (.update c garbage none) (by rw [hpc]; rfl) rfl (by simp [hpc]) ?_ ?_ ?_
    · simp [hpc, settled]
    · simp [hpc, settled]
    · rintro c' q ⟨⟩ hq
      rwa [← Option.some.inj (hc.symm.trans hq)]
  | callReturn hpc hc hp hk hw =>
    exact h.returned (by rw [hpc]; rfl) (by simp [hpc]) (by simp [hpc, settled]) hc hp hk
  | @callBlock c p garbage hpc hc hp =>
    refine h.toPc (.blocked c) (by rw [hpc]; rfl) rfl (by simp [hpc]) ?_ ?_ ?_
    · simp [hpc, settled]
    · simp [hpc, settled]
    · rintro c' q ⟨⟩ hq
      rwa [← Option.some.inj (hc.symm.trans hq)]
  | wake hpc hc hk hw =>
    exact h.returned (by rw [hpc]; rfl) (by simp [hpc]) (by simp [hpc, settled]) hc
      (h.family.born _ _ hk).2 hk
  | update hpc hc => exact h.update hpc hc
  | reapHelper hpc hp hk =>
    exact h.setChild hk id (fun c hown => absurd (mem_of_getElem? hown.1) hp)
  | @next c hpc =>
    -- after the last stage every command is settled
    have hlen := (h.forked (by simp [hpc])).1
    refine h.toPc _ (by rw [hpc]; rfl) ?_ (by simp [hpc]) ?_ ?_ ?_
    · split <;> rfl
    · intro c' hs
      simp only [hpc, settled, decide_eq_true_eq] at hs
      split
      · simp only [settled, decide_eq_true_eq]
        omega
      · rfl
    · intro c' q hown hs
      have hlt := hown.lt
      simp only [hpc, settled, decide_eq_true_eq]
      split at hs
      · simp only [settled, decide_eq_true_eq] at hs
        omega
      · omega
    · split <;> simp [waitsFor]
  | ret hpc hquiet =>
    refine h.toPc .returned ?_ rfl ?_ ?_ ?_ ?_
    all_goals simp [hpc, registered, settled, waitsFor]
  | change hk hr hcont hsync =>
    exact h.setChild hk (fun _ => Real.valid_of_canBecome hr) (fun c _ => by simp [Child.reaped])
  | @interrupt c garbage hpc =>
    -- the handler cuts `waitpid` short: it fails too
    refine (h.toPc (.update c garbage none) ?_ rfl ?_ ?_ ?_ ?_).flags true s.released
    · simp [hpc, registered]
    · simp [hpc]
    · simp [hpc, settled]
    · simp [hpc, settled]
    · rintro c' q ⟨⟩ hq
      exact h.waiting _ q (by rw [hpc]; rfl) hq
  | sigchld hpc => exact h.flags true s.released
  | reap hk hpend =>
    exact h.reap hk hpend (fun hend c hc => settled_of_lateReap hlate hk hend hc)
  | handlerDone => exact h.flags false s.released

/-- The invariant along a run. -/
lemma of_run (hn : pl.stages ≠ []) (hinit : Init s0)
    (hrun : Lib.Run (Wait.step pl) (fun l s => lateReap pl l s = true) s0 ls s) : Inv pl s :=
  hrun.invariant (Inv pl) (Inv.init hinit) (fun _ _ _ hlate hstep h => h.step hn hlate hstep)

/-- Once everything has been reported, a terminated command is terminated in
the table. -/
lemma terminated_entry (h : Inv pl s) (hpc : registered s.pc = true)
    (hupd : ∀ c st res, s.pc ≠ .update c st res) (hown : Own s.pids c p)
    (hk : s.kids p = some k) (hend : k.real.ended = true) (hdone : k.pending = false)
    (hj : s.job = some j) : ∃ e, j.prs[c]? = some e ∧ e.pid = p ∧ e.state = .terminated := by
  have hshape := h.shape j hj
  have hlen := hshape.length
  rw [sized_of_registered hpc, if_pos rfl] at hlen
  have hc : c < j.prs.length := hlen ▸ hown.lt
  have he : j.prs[c]? = some (j.prs.get ⟨c, hc⟩) := List.getElem?_eq_getElem hc
  have hreaped : k.reaped = true := by simp [Child.reaped, hend, hdone]
  have hset : settled pl.bg s.pc c = true := by
    rcases h.kept c p k hown hk hreaped with hset | hcon
    · exact hset
    · exact absurd hcon (hupd c _ _)
  have hpid := (hshape.pid c _ he).1 (named_of_registered hpc c)
  exact ⟨_, he, Option.some.inj (hpid.symm.trans hown.1),
    h.entered c p k j _ hown hk hreaped hset hj he⟩

end Inv

/-! ## The sync pipe

A background pipeline with a sync pipe meets the condition by itself: its
commands run only after the shell has filled in the whole entry. -/

/-- Before the release every command is still blocked on the sync pipe. -/
structure Held (s : St) : Prop where
  positive : ∀ p k, s.kids p = some k → 0 < p
  late : s.released = true → s.pc = .returned
  blocked : s.released = false → ∀ c p k, Own s.pids c p → s.kids p = some k → k.real = .running

namespace Held

variable {pl : Plan} {s : St} {p : Int}

lemma not_released (h : Held s) (hpc : s.pc ≠ .returned) : s.released = false := by
  by_contra hcon
  exact hpc (h.late (by simpa using hcon))

/-- The shell moves on and changes no child. -/
lemma move (h : Held s) (hpc : s.pc ≠ .returned) (hkids : s'.kids = s.kids)
    (hpids : s'.pids = s.pids) (hrel : s'.released = s.released) : Held s' := by
  have hnot := h.not_released hpc
  refine ⟨?_, ?_, ?_⟩
  · rw [hkids]
    exact h.positive
  · rw [hrel, hnot]
    exact nofun
  · rw [hkids, hpids]
    exact fun _ => h.blocked hnot

lemma setChild (h : Held s) (hk : s.kids p = some k)
    (hreal : s.released = false → ∀ c, Own s.pids c p → k'.real = .running) :
    Held (s.setChild p k') := by
  refine ⟨?_, h.late, ?_⟩
  · intro q kq hkq
    by_cases hqp : q = p
    · rw [hqp]
      exact h.positive p k hk
    · exact h.positive q kq (St.setChild_ne hqp hkq)
  intro hrel c q kq hown hkq
  by_cases hqp : q = p
  · subst hqp
    rw [St.setChild_self hkq]
    exact hreal hrel c hown
  · exact h.blocked hrel c q kq hown (St.setChild_ne hqp hkq)

/-- A status is consumed. -/
lemma report (h : Held s) (hk : s.kids p = some k) :
    Held (s.setChild p { k with pending := false }) :=
  h.setChild hk (fun hrel c hown => h.blocked hrel c p k hown hk)

lemma spawn (h : Held s) (hp : 0 < p) : Held (s.spawn p) := by
  refine ⟨?_, h.late, ?_⟩
  · intro q kq hkq
    by_cases hqp : q = p
    · rw [hqp]
      exact hp
    · exact h.positive q kq ((update_of_ne hqp _ _).symm.trans hkq)
  intro hrel c q kq hown hkq
  by_cases hqp : q = p
  · subst hqp
    have hself : (s.spawn q).kids q = some ⟨.running, false⟩ := update_self ..
    rw [← Option.some.inj (hself.symm.trans hkq)]
  · exact h.blocked hrel c q kq hown ((update_of_ne hqp _ _).symm.trans hkq)

/-- Every step of a background pipeline with a sync pipe. -/
lemma step (hbg : pl.bg = true) (hsync : pl.sync = true)
    (hstep : Wait.step pl l s = some s') (h : Held s) : Held s' := by
  cases Move.of_step hstep with
  | @fork c name p hpc hstage hp hfree =>
    have hspawn := h.spawn hp
    have hrel := h.not_released (by simp [hpc])
    refine ⟨hspawn.positive, fun hcon => absurd (hrel.symm.trans hcon) (by decide), ?_⟩
    intro _ c' q k hown hk
    rcases own_append.mp hown with hold | ⟨-, rfl, -⟩
    · exact hspawn.blocked hrel c' q k hold hk
    · have hself : (s.spawn q).kids q = some ⟨.running, false⟩ := update_self ..
      rw [← Option.some.inj (hself.symm.trans hk)]
  | skip hpc hstage =>
    have hrel := h.not_released (by simp [hpc])
    refine ⟨h.positive, fun hcon => absurd (hrel.symm.trans hcon) (by decide), ?_⟩
    intro _ c' q k hown hk
    rcases own_append.mp hown with hold | ⟨-, rfl, hneg⟩
    · exact h.blocked hrel c' q k hold hk
    · omega
  | helper hpc hp hfree => exact h.spawn hp
  | release hpc => exact ⟨h.positive, fun _ => rfl, nofun⟩
  | callReturn hpc hc hp hk hw | wake hpc hc hk hw =>
    exact (h.report hk).move (by simp [St.setChild, hpc]) rfl rfl rfl
  | reapHelper hpc hp hk => exact h.report hk
  | change hk hr hcont hrel =>
    refine h.setChild hk (fun hnot c hown => ?_)
    rw [hrel (mem_of_getElem? hown.1) hbg hsync] at hnot
    cases hnot
  | sigchld hpc | handlerDone => exact ⟨h.positive, h.late, h.blocked⟩
  | reap hk hpend =>
    have hrep := h.report hk
    exact ⟨hrep.positive, hrep.late, hrep.blocked⟩
  | addJob hpc | storeField hpc | storeEntry hpc | callSkip hpc hc hp | callLost hpc hc hp hk
  | callBlock hpc hc hp | update hpc hc | next hpc | ret hpc hquiet | interrupt hpc =>
    exact h.move (by simp [hpc]) rfl rfl rfl

/-- The handler cannot be early. -/
lemma lateReap (h : Held s) (l : Label) : lateReap pl l s = true := by
  cases l with
  | reap p =>
    simp only [Wait.lateReap, Bool.or_eq_true, Bool.not_eq_true', List.all_eq_true]
    by_cases hrel : s.released = true
    · refine .inr (fun c _ => ?_)
      simp [h.late hrel, settled]
    rw [or_iff_not_imp_right]
    intro hsome
    cases hk : s.kids p with
    | none => rfl
    | some k =>
      rw [any_some]
      by_contra hend
      refine hsome (fun c _ => ?_)
      by_cases hc : s.pids[c]? = some p
      · have hrun := h.blocked (by simpa using hrel) c p k ⟨hc, h.positive p k hk⟩ hk
        simp [hrun, Real.ended] at hend
      · simp [hc]
  | _ => rfl

end Held

/-! ## No termination is lost -/

/-- The pipeline is protected by a sync pipe, or the handler takes
terminations of settled commands only. -/
def protectedReap (pl : Plan) (l : Label) (s : St) : Bool :=
  (pl.bg && pl.sync) || lateReap pl l s

/-- Behind a sync pipe nothing has to be asked of the handler. -/
lemma run_lateReap (hinit : Init s0)
    (hrun : Lib.Run (step pl) (fun l s => protectedReap pl l s = true) s0 ls s) :
    Lib.Run (step pl) (fun l s => lateReap pl l s = true) s0 ls s := by
  cases hprot : pl.bg && pl.sync with
  | false =>
    refine hrun.mono (fun l s hok => ?_)
    simpa [protectedReap, hprot] using hok
  | true =>
    rcases Bool.and_eq_true_iff.mp hprot with ⟨hbg, hsync⟩
    have hheld0 : Held s0 := by
      refine ⟨fun p k hk => (hinit.born p k hk).2, fun hcon => ?_, fun _ c p k hown => ?_⟩
      · rw [hinit.released] at hcon
        cases hcon
      · simp [hinit.pids, Own] at hown
    have hboth : Held s ∧ Lib.Run (step pl) (fun l s => lateReap pl l s = true) s0 ls s := by
      induction hrun with
      | nil => exact ⟨hheld0, .nil⟩
      | snoc _ _ hstep ih =>
        exact ⟨ih.1.step hbg hsync hstep, .snoc ih.2 (ih.1.lateReap _) hstep⟩
    exact hboth.2

/-- **No termination is lost.** Let the handler run at whatever point of
`fork`, `add_job` and the wait loop, and let it take terminations of settled
commands only, unless a sync pipe protects the pipeline. Once the job is
registered and all events of its children have been handled, the entry of
every terminated child is terminated. When all children have terminated, the
job is inactive exactly if every stage has a command. -/
theorem no_termination_lost (pl : Plan) (hn : pl.stages ≠ []) (s0 s : St) (ls : List Label)
    (hinit : Init s0) (hrun : Lib.Run (step pl) (fun l s => protectedReap pl l s = true) s0 ls s)
    (hpc : registered s.pc = true) (hupd : ∀ c st res, s.pc ≠ .update c st res)
    (hdone : ∀ p ∈ s.pids, ∀ k, s.kids p = some k → k.pending = false) :
    ∃ j, s.job = some j ∧
      (∀ (c : Nat) (p : Int) (k : Child), s.pids[c]? = some p → 0 < p → s.kids p = some k →
        k.real.ended = true → ∃ e, j.prs[c]? = some e ∧ e.pid = p ∧ e.state = .terminated) ∧
      ((∀ p ∈ s.pids, 0 < p → ∃ k, s.kids p = some k ∧ k.real.ended = true) →
        (j.active = false ↔ none ∉ pl.stages)) := by
  have h := Inv.of_run hn hinit (run_lateReap hinit hrun)
  rcases h.forked (ne_fork_of_registered hpc) with ⟨hlen, j, hj⟩
  have hentry : ∀ (c : Nat) (p : Int) (k : Child), s.pids[c]? = some p → 0 < p →
      s.kids p = some k → k.real.ended = true →
        ∃ e, j.prs[c]? = some e ∧ e.pid = p ∧ e.state = .terminated := by
    intro c p k hc hp hk hend
    exact h.terminated_entry hpc hupd ⟨hc, hp⟩ hk hend (hdone p (mem_of_getElem? hc) k hk) hj
  refine ⟨j, hj, hentry, fun hended => ?_⟩
  have hshape := h.shape j hj
  have hsize := hshape.length
  rw [sized_of_registered hpc, if_pos rfl] at hsize
  rw [hshape.flag, armed_of_registered hpc, Bool.true_and]
  constructor
  · -- the entry of a stage without a command is never terminated
    intro hlive hnone
    rcases mem_iff_getElem?.mp hnone with ⟨c, hc⟩
    have hcj : c < j.prs.length := by
      have hlt := (List.getElem?_eq_some_iff.mp hc).1
      omega
    have he : j.prs[c]? = some (j.prs.get ⟨c, hcj⟩) := List.getElem?_eq_getElem hcj
    have hpid := (hshape.pid c _ he).1 (named_of_registered hpc c)
    exact hshape.skipped c _ he ((h.stage c _ hpid).mpr hc) (Job.terminated_of_inactive hlive he)
  -- every entry belongs to a stage, hence to a child
  intro hall
  refine List.any_eq_false.mpr (fun e hmem => ?_)
  rcases mem_iff_getElem?.mp hmem with ⟨c, he⟩
  have hpid := (hshape.pid c e he).1 (named_of_registered hpc c)
  have hpos : 0 < e.pid := by
    by_contra hneg
    exact hall (mem_of_getElem? ((h.stage c _ hpid).mp (by omega)))
  rcases hended _ (mem_of_getElem? hpid) hpos with ⟨k, hk, hend⟩
  rcases hentry c _ k hpid hpos hk hend with ⟨e', he', -, hterm⟩
  cases he.symm.trans he'
  simp [hterm]

/-- A pipeline of two commands up to the end of `add_job`. -/
def launchLabels : List Label :=
  ([.fork 10, .fork 11, .addJob] : List Label) ++ (List.replicate 16 .store : List Label)

def sleepPlan : Plan := ⟨[some "sleep", some "sleep"], true, true, 1, "sleep 1 | sleep 1"⟩

def sleepLabels : List Label :=
  launchLabels ++
    ([.release, .change 10 (.exited 0), .sigchld 0, .change 11 (.killed 9), .reap 11, .reap 10,
      .handlerDone] : List Label)

/-- Both commands of a background pipeline terminate after their release,
with one `SIGCHLD` for the two of them. -/
theorem no_termination_lost_background :
    ∃ (s : St) (j : Job), s.job = some j ∧ s.kids 10 = some ⟨.exited 0, false⟩ ∧
      s.kids 11 = some ⟨.killed 9, false⟩ ∧ j.active = false := by
  have hreplay : ∃ s, Lib.Run (step sleepPlan) (fun l s => protectedReap sleepPlan l s = true)
      St.start sleepLabels s ∧ s.pc = .returned ∧ s.pids = [10, 11] ∧
        s.kids 10 = some ⟨.exited 0, false⟩ ∧ s.kids 11 = some ⟨.killed 9, false⟩ := by
    decide +kernel
  obtain ⟨s, hrun, hpc, hpids, h10, h11⟩ := hreplay
  rcases no_termination_lost sleepPlan (by decide) St.start s sleepLabels start_init hrun
    (by rw [hpc]; rfl) (by simp [hpc]) (by simp [hpids, h10, h11]) with ⟨j, hj, -, hinactive⟩
  exact ⟨s, j, hj, h10, h11, (hinactive (by simp [hpids, h10, h11, Real.ended])).mpr (by decide)⟩

/-- A command that is reaped before `add_job`. -/
def earlyLabels : List Label :=
  ([.fork 10, .change 10 (.exited 0), .sigchld 0, .reap 10, .handlerDone, .addJob] : List Label) ++
    (List.replicate 11 .store : List Label) ++ ([.call 0x137f, .update, .next, .ret] : List Label)

/-- A stage without a command word beside one that exits. -/
def skippedLabels : List Label :=
  ([.fork 10, .skip, .addJob] : List Label) ++ (List.replicate 16 .store : List Label) ++
    ([.release, .change 10 (.exited 0), .sigchld 0, .reap 10, .handlerDone] : List Label)

/-- Both conditions are needed. In the foreground, a command may terminate and
be reaped before `add_job`: `waitpid` then fails, and the unwritten `status`
may say anything, here that the command has stopped. And a stage without a
command word leaves an entry that no event ever ends: the job stays active
although its only child has terminated. -/
theorem early_reap_loses_termination :
    (∃ (ls : List Label) (s : St),
      Lib.Run (step ⟨[some "true"], false, false, 1, "true"⟩) Lib.anyStep St.start ls s ∧
        s.pc = .returned ∧ s.pids = [10] ∧ s.kids 10 = some ⟨.exited 0, false⟩ ∧
        s.job.map (fun j => (j.active, j.prs.map Process.state)) = some (true, [.stopped])) ∧
    (∃ (ls : List Label) (s : St),
      Lib.Run (step ⟨[some "true", none], true, true, 1, "true | < f"⟩) Lib.anyStep St.start ls s ∧
        s.pc = .returned ∧ s.pids = [10, -1] ∧ s.kids 10 = some ⟨.exited 0, false⟩ ∧
        s.job.map (fun j => (j.active, j.prs.map Process.state)) =
          some (true, [.terminated, .running])) := by
  refine ⟨⟨earlyLabels, ?_⟩, ⟨skippedLabels, ?_⟩⟩
  all_goals decide +kernel

end CshellXv6.Shell.Wait
