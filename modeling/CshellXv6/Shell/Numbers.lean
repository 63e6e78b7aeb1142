import CshellXv6.Shell.Session

/-! # The numbers of `resume` and `ping`

A job, a pid, a signal and a time are given to `resume` and `ping` as words of digits
of any length, and go through `atoi`. What is done then is compared with what the same
command does when the numbers are taken as they are written: both agree unless a number
is too large for an `int` and what `atoi` leaves of it happens to name something.
-/

namespace CshellXv6.Shell.Session

open Lib

/-! ## The commands -/

/-- A word of digits. -/
abbrev Digits : Type := { d : List Char // d ≠ [] ∧ d.all Char.isDigit = true }

def Digits.word (d : Digits) : String := String.ofList d.val

def Digits.value (d : Digits) : Nat := decimal d.val

/-- The commands that take numbers. -/
inductive Numeric where
  | resume (job : Digits) (fg : Bool)
  | resumeFor (job secs : Digits)
  | pingJob (job sig : Digits)
  | pingPid (pid sig : Digits)

def Numeric.words : Numeric → List String
  | .resume job fg => ["resume", "%" ++ job.word, if fg then "fg" else "bg"]
  | .resumeFor job secs => ["resume", "%" ++ job.word, "fg", "--timeout", secs.word]
  | .pingJob job sig => ["ping", "%" ++ job.word, sig.word]
  | .pingPid pid sig => ["ping", pid.word, sig.word]

def Numeric.command (a : Numeric) : Command := ⟨a.words.map (Token.mk .word), false⟩

/-- What is asked for, with the numbers as they are written. -/
def Numeric.asked : Numeric → Request
  | .resume job fg => .resume job.value fg 0
  | .resumeFor job secs => .resume job.value true secs.value
  | .pingJob job sig => .pingJob job.value (sig.value % 64 : Nat)
  | .pingPid pid sig => .pingPid pid.value (sig.value % 64 : Nat)

/-- What the shell makes of the words; `none` is a complaint about them. -/
def Numeric.request (a : Numeric) : Option Request :=
  match dispatch a.command true 1 with
  | .drain (.lookup req) => some req
  | _ => none

/-- The command finds what it has been asked for, and nothing else. -/
def State.obeys (a : Numeric) (s : State) : Prop :=
  ∀ req, a.request = some req → s.lookup req = s.lookup a.asked

/-! ## Cut numbers -/

lemma cut_of_lt {v : Nat} (h : v < 2 ^ 31) : cut v = v := by
  have hmin : min v (2 ^ 63 - 1) = v := by omega
  rw [cut, hmin, toInt_of_lt h]

lemma cut_lt (v : Nat) : cut v < 2 ^ 31 := toInt_lt _

lemma cut_eq_iff {v : Nat} : cut v = v ↔ v < 2 ^ 31 := by
  constructor
  · intro h
    have := cut_lt v
    omega
  · exact cut_of_lt

/-- The signal of a number is right unless `atoi` makes the number negative: the
remainder of a negative number is not positive. -/
def signalFits (v : Nat) : Prop := v < 2 ^ 63 ∧ (v % 2 ^ 32 < 2 ^ 31 ∨ v % 64 = 0)

lemma tmod_eq (x : Int) : x.tmod 64 = if 0 ≤ x ∨ x % 64 = 0 then x % 64 else x % 64 - 64 := by
  have hdvd : (64 : Int) ∣ x ↔ x % 64 = 0 := Int.dvd_iff_emod_eq_zero
  rw [Int.tmod_eq_emod]
  simp only [hdvd]
  split
  · exact Int.sub_zero _
  · rfl

lemma tmod_cut {v : Nat} : (cut v).tmod 64 = (v % 64 : Nat) ↔ signalFits v := by
  rw [signalFits]
  by_cases hlong : v < 2 ^ 63
  · have hmin : min v (2 ^ 63 - 1) = v := by omega
    rw [tmod_eq, cut, hmin, toInt_eq_bmod, Int.bmod]
    split <;> split <;> omega
  have hmin : min v (2 ^ 63 - 1) = 2 ^ 63 - 1 := by omega
  have hcut : cut v = -1 := by
    rw [cut, hmin]
    decide
  rw [tmod_eq, hcut]
  omega

/-! ## What the shell makes of the words -/

lemma toList_word (d : Digits) : d.word.toList = d.val := String.toList_ofList

lemma toList_percent (d : Digits) : ("%" ++ d.word).toList = '%' :: d.val := by
  rw [String.toList_append, toList_word]
  rfl

lemma Digits.accepted (d : Digits) : ¬ (d.val = [] ∨ d.val.all Char.isDigit = false) := by
  rintro (h | h)
  · exact d.property.1 h
  · rw [d.property.2] at h
    cases h

lemma parseResume_resume (job : Digits) (fg : Bool) :
    parseResume (Numeric.resume job fg).words = some (.resume (cut job.value) fg 0) := by
  rw [Numeric.words, parseResume, toList_percent]
  split
  next num heq =>
    rw [← (List.cons.inj heq).2, if_neg job.accepted]
    cases fg <;> rfl
  next hno => exact absurd rfl (hno job.val)

lemma parseResume_resumeFor (job secs : Digits) :
    parseResume (Numeric.resumeFor job secs).words =
      if 0 < cut secs.value then some (.resume (cut job.value) true (cut secs.value))
      else none := by
  have hother : ¬ "fg" = "bg" := by decide
  rw [Numeric.words, parseResume, toList_percent]
  split
  next num heq =>
    dsimp only
    rw [← (List.cons.inj heq).2, if_neg job.accepted, if_neg hother, if_pos rfl, toList_word]
    by_cases hpos : 0 < cut secs.value
    · rw [if_pos hpos, if_pos ⟨rfl, secs.property.2, hpos⟩]
      rfl
    · rw [if_neg hpos, if_neg fun h => hpos h.2.2]
  next hno => exact absurd rfl (hno job.val)

lemma parsePing_pingJob (job sig : Digits) :
    parsePing (Numeric.pingJob job sig).words =
      some (.pingJob (cut job.value) ((cut sig.value).tmod 64)) := by
  rw [Numeric.words, parsePing, toList_word, if_neg sig.accepted, toList_percent]
  split
  next num heq =>
    rw [← (List.cons.inj heq).2, if_neg job.accepted]
    rfl
  next hno => exact absurd rfl (hno job.val)

lemma parsePing_pingPid (pid sig : Digits) :
    parsePing (Numeric.pingPid pid sig).words =
      some (.pingPid (cut pid.value) ((cut sig.value).tmod 64)) := by
  have hdigits : ¬ pid.val.all Char.isDigit = false := fun h => pid.accepted (Or.inr h)
  rw [Numeric.words, parsePing, toList_word, if_neg sig.accepted, toList_word]
  split
  next num hpercent =>
    -- a word of digits does not begin with `%`
    have hall := pid.property.2
    rw [hpercent] at hall
    cases hall
  · rw [if_neg hdigits]
    rfl

/-- The request that `dispatch` makes of the answer of the argument checks. -/
lemma request_of_parse {a : Numeric} {parsed : Option Request}
    (h : dispatch a.command true 1 =
      match parsed with
      | none => .line
      | some req => .drain (.lookup req)) : a.request = parsed := by
  rw [Numeric.request, h]
  cases parsed <;> rfl

lemma request_resume (job : Digits) (fg : Bool) :
    (Numeric.resume job fg).request = some (.resume (cut job.value) fg 0) := by
  rw [← parseResume_resume job fg]
  exact request_of_parse rfl

lemma request_resumeFor (job secs : Digits) : (Numeric.resumeFor job secs).request =
    if 0 < cut secs.value then some (.resume (cut job.value) true (cut secs.value)) else none := by
  rw [← parseResume_resumeFor job secs]
  exact request_of_parse rfl

lemma request_pingJob (job sig : Digits) : (Numeric.pingJob job sig).request =
    some (.pingJob (cut job.value) ((cut sig.value).tmod 64)) := by
  rw [← parsePing_pingJob job sig]
  exact request_of_parse rfl

lemma request_pingPid (pid sig : Digits) : (Numeric.pingPid pid sig).request =
    some (.pingPid (cut pid.value) ((cut sig.value).tmod 64)) := by
  rw [← parsePing_pingPid pid sig]
  exact request_of_parse rfl

/-! ## What is found -/

/-- The fields `job_id` and `pid` are of type `int`. -/
def Typed (jobs : List Job) : Prop :=
  ∀ j ∈ jobs, j.job_id < 2 ^ 31 ∧ ∀ p ∈ j.prs, p.pid < 2 ^ 31

instance (jobs : List Job) : Decidable (Typed jobs) :=
  inferInstanceAs (Decidable (∀ j ∈ jobs, j.job_id < 2 ^ 31 ∧ ∀ p ∈ j.prs, p.pid < 2 ^ 31))

section

variable {s : State} {jobs : List Job} {a : Numeric} {req : Request}

lemma Typed.findJob {v : Nat} (h : Typed jobs) (hv : ¬ v < 2 ^ 31) : findJob v jobs = none := by
  rw [Shell.findJob, List.findIdx?_eq_none_iff]
  intro j hj
  have := (h j hj).1
  have hne : ¬ j.job_id = v := by omega
  simp [hne]

lemma Typed.pingFound {v : Nat} (h : Typed jobs) (hv : ¬ v < 2 ^ 31) :
    pingFound v jobs = false := by
  rw [Shell.pingFound, List.any_eq_false]
  intro j hj
  have hnone : j.prs.any (fun p => p.pid = v && p.state ≠ .terminated) = false := by
    rw [List.any_eq_false]
    intro p hp
    have := (h j hj).2 p hp
    have hne : ¬ p.pid = v := by omega
    simp [hne]
  rw [hnone]
  simp

/-- What has to hold of the numbers of a command and of the table for it to do what it
has been asked for. -/
def Numeric.fits (jobs : List Job) : Numeric → Prop
  | .resume job _ => job.value < 2 ^ 31 ∨ findJob (cut job.value) jobs = none
  | .resumeFor job secs =>
    cut secs.value ≤ 0 ∨ findJob (cut job.value) jobs = none ∨
      job.value < 2 ^ 31 ∧ secs.value < 2 ^ 31
  | .pingJob job sig =>
    findJob (cut job.value) jobs = none ∨ job.value < 2 ^ 31 ∧ signalFits sig.value
  | .pingPid pid sig =>
    pingFound (cut pid.value) jobs = false ∨ pid.value < 2 ^ 31 ∧ signalFits sig.value

/-- What is looked up by a number: an argument matters only if something is found, and
nothing is found by a number that is no `int`. -/
lemma lookup_eq_iff (req : Int → Int → Request) (missing : Int → Prop) {v : Nat} {t t' : Int}
    (hlarge : ¬ v < 2 ^ 31 → missing v)
    (hmissing : ∀ n t, missing n → s.lookup (req n t) = { s with mode := .line })
    (hfound : ∀ n t, ¬ missing n →
      (s.lookup (req n t)).mode ≠ .line ∧ ∀ t', s.lookup (req n t) = s.lookup (req n t') ↔ t = t') :
    s.lookup (req (cut v) t) = s.lookup (req v t') ↔ missing (cut v) ∨ v < 2 ^ 31 ∧ t = t' := by
  by_cases hv : v < 2 ^ 31
  · rw [cut_of_lt hv, and_iff_right hv]
    by_cases hm : missing v
    · simp [hmissing v _ hm, hm]
    · simp [(hfound v t hm).2, hm]
  rw [hmissing v t' (hlarge hv), or_iff_left fun hc => hv hc.1]
  constructor
  · intro heq
    by_contra hm
    exact (hfound (cut v) t hm).1 (congrArg State.mode heq)
  · exact hmissing (cut v) t

lemma lookup_resume_eq (h : Typed s.st.old) (v : Nat) (fg : Bool) (t t' : Int) :
    s.lookup (.resume (cut v) fg t) = s.lookup (.resume v fg t') ↔
      findJob (cut v) s.st.old = none ∨ v < 2 ^ 31 ∧ t = t' := by
  refine lookup_eq_iff (fun n t => .resume n fg t) (fun n => findJob n s.st.old = none)
    h.findJob ?_ ?_
  · intro n t hf
    simp [State.lookup, hf]
  · intro n t hf
    obtain ⟨i, hi⟩ := Option.ne_none_iff_exists'.mp hf
    simp [State.lookup, hi]

lemma lookup_pingJob_eq (h : Typed s.st.old) (v : Nat) (sig sig' : Int) :
    s.lookup (.pingJob (cut v) sig) = s.lookup (.pingJob v sig') ↔
      findJob (cut v) s.st.old = none ∨ v < 2 ^ 31 ∧ sig = sig' := by
  refine lookup_eq_iff .pingJob (fun n => findJob n s.st.old = none) h.findJob ?_ ?_
  · intro n t hf
    simp [State.lookup, hf]
  · intro n t hf
    obtain ⟨i, hi⟩ := Option.ne_none_iff_exists'.mp hf
    simp [State.lookup, hi]

lemma lookup_pingPid_eq (h : Typed s.st.old) (v : Nat) (sig sig' : Int) :
    s.lookup (.pingPid (cut v) sig) = s.lookup (.pingPid v sig') ↔
      pingFound (cut v) s.st.old = false ∨ v < 2 ^ 31 ∧ sig = sig' := by
  refine lookup_eq_iff .pingPid (fun n => pingFound n s.st.old = false) h.pingFound ?_ ?_
  · intro n t hf
    simp [State.lookup, hf]
  · intro n t hf
    simp [State.lookup, hf]

lemma obeys_of_request (h : a.request = some req) :
    s.obeys a ↔ s.lookup req = s.lookup a.asked := by
  constructor
  · intro hall
    exact hall req h
  intro heq req' hreq
  rw [h] at hreq
  rwa [← Option.some.inj hreq]

/-- `resume` and `ping` do what the numbers say exactly if these fit. -/
theorem numbers_mean_iff (a : Numeric) (h : Typed s.st.old) : s.obeys a ↔ a.fits s.st.old := by
  cases a with
  | resume job fg =>
    rw [obeys_of_request (request_resume job fg), Numeric.asked, lookup_resume_eq h, Numeric.fits,
      and_iff_left rfl]
    exact or_comm
  | resumeFor job secs =>
    rw [Numeric.fits]
    by_cases hpos : 0 < cut secs.value
    · have hreq := request_resumeFor job secs
      rw [if_pos hpos] at hreq
      rw [obeys_of_request hreq, Numeric.asked, lookup_resume_eq h, cut_eq_iff,
        or_iff_right (not_le.mpr hpos)]
    -- `resume: invalid syntax`
    have hnone := request_resumeFor job secs
    rw [if_neg hpos] at hnone
    have hnothing : s.obeys (.resumeFor job secs) := by
      intro req hreq
      rw [hnone] at hreq
      cases hreq
    exact iff_of_true hnothing (Or.inl (by omega))
  | pingJob job sig =>
    rw [obeys_of_request (request_pingJob job sig), Numeric.asked, lookup_pingJob_eq h, tmod_cut,
      Numeric.fits]
  | pingPid pid sig =>
    rw [obeys_of_request (request_pingPid pid sig), Numeric.asked, lookup_pingPid_eq h, tmod_cut,
      Numeric.fits]

end

/-- A session in which job 1 is the process 7. -/
def oneJob : State :=
  { State.start with
    st := { Wait.St.start with
      old := [⟨1, true, true, 7, [⟨7, "sleep", .running, false, false⟩], "sleep"⟩] } }

/-- `resume %1 bg`. -/
theorem numbers_mean_iff_one :
    oneJob.obeys (.resume ⟨['1'], by decide⟩ false) ↔
      (Numeric.resume ⟨['1'], by decide⟩ false).fits oneJob.st.old :=
  numbers_mean_iff (.resume ⟨['1'], by decide⟩ false) (by decide)

/-- 4294967297, which is `2 ^ 32 + 1`. -/
def overInt : Digits := ⟨['4', '2', '9', '4', '9', '6', '7', '2', '9', '7'], by decide⟩

/-- `resume %4294967297 bg` resumes job 1, although there is no job of that number. -/
theorem wrong_job_resumed : (Numeric.resume overInt false).request = some (.resume 1 false 0) ∧
    (oneJob.lookup (.resume 1 false 0)).mode = .resume ⟨0, false, 0⟩ false (.test 0) ∧
    ∀ j ∈ oneJob.st.old, j.job_id ≠ overInt.value := by
  refine ⟨?_, rfl, by decide⟩
  rw [request_resume]
  have hcut : cut overInt.value = 1 := by decide
  rw [hcut]

end CshellXv6.Shell.Session
