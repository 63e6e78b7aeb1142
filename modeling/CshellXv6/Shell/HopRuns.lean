import CshellXv6.Shell.HopHistory

/-! # A sequence of hops

Which directory a hop enters is decided before the visit is counted (`target`). What `hop`
remembers is right after every hop of a sequence that comes to its end; what can go wrong is the
counting, and the buffer for the destination, for which the hop has no result.
-/

namespace CshellXv6.Shell.Hop

open Lib List Option

/-- The directory that a hop enters, if it enters one. -/
def target (home_shell : List Char) (ans : Answers) (input : List Char) (s : State) :
    Option (List Char) :=
  if input = ['-'] then if s.prev = [] then none else ans.chdir s.prev
  else if (expand home_shell input).length < pathMax then
    match ans.chdir (expand home_shell input) with
    | some next => some next
    | none => (frecency s.history input ans.now ans.qsort ans.chdir).getD none
  else none

/-- `new_rec` comes to its end. -/
def CanCount (history : Option (List Char)) (destpath : List Char) : Prop :=
  (∀ line ∈ fgetsLines (history.getD []), Whole line) ∧
  (records (history.getD [])).length ≤ 1000 ∧
  (destpath ∈ (records (history.getD [])).map Rec.path ∨ (records (history.getD [])).length < 1000)

/-- The destination fits its buffer and, if there is no such directory, the name is in at most
1000 paths. -/
def Fits (home_shell : List Char) (ans : Answers) (input : List Char) (s : State) : Prop :=
  input = ['-'] ∨ (expand home_shell input).length < pathMax ∧
    (ans.chdir (expand home_shell input) = none →
      (matching input (s.history.getD [])).length ≤ 1000)

variable {dest : List Char} {qsort : Qsort} {chdir : List Char → Option (List Char)}

section

variable {home : List Char} {ans ans' : Answers} {input next destpath : List Char}
  {s s' s'' : State} {r r' : Report} {history : Option (List Char)} {now : Int}

lemma newRec_of_canCount (h : CanCount history destpath) :
    newRec history destpath now = some (write (count destpath now (records (history.getD [])))) :=
  newRec_eq_some_iff.mpr ⟨h.1, h.2.1, h.2.2, rfl⟩

lemma canCount_of_newRec {text : List Char} (h : newRec history destpath now = some text) :
    CanCount history destpath := by
  obtain ⟨hwhole, hle, hroom, -⟩ := newRec_eq_some_iff.mp h
  exact ⟨hwhole, hle, hroom⟩

lemma matching_nil (dest : List Char) : matching dest [] = [] := rfl

lemma isSome_frecency :
    (frecency history dest now qsort chdir).isSome ↔
      (matching dest (history.getD [])).length ≤ 1000 := by
  cases history with
  | none => simp [frecency, matching_nil]
  | some content => exact isSome_frecency_iff

/-- What a hop does once `getcwd` has given the working directory, as long as its buffers are
large enough: it enters its target, or it leaves everything as it is. -/
lemma hopto_of_fits (hcurr : ans.curr = true) (hdot : input ≠ ['.'])
    (hfits : Fits home ans input s) : ∃ report failure, failure ≠ .ok ∧
      hopto home ans input s =
        match target home ans input s with
        | some next => entered s ans report next
        | none => some (s, failure) := by
  rw [hopto, if_neg (by simp [hcurr]), if_neg hdot, target]
  by_cases hback : input = ['-']
  · rw [if_pos hback, if_pos hback]
    by_cases hprev : s.prev = []
    · rw [if_pos hprev, if_pos hprev]
      exact ⟨.ok, .error .noPrevious, by simp, rfl⟩
    rw [if_neg hprev, if_neg hprev]
    refine ⟨.error .hop, .silent, by simp, ?_⟩
    cases ans.chdir s.prev with
    | none | some next => rfl
  obtain ⟨hlength, hmatches⟩ := hfits.resolve_left hback
  rw [if_neg hback, if_neg hback, if_pos hlength, if_pos hlength]
  refine ⟨.ok, .error .noDirectory, by simp, ?_⟩
  cases hchdir : ans.chdir (expand home input) with
  | some next => rfl
  | none =>
    obtain ⟨found, hfound⟩ := isSome_iff_exists.mp (isSome_frecency.mpr (hmatches hchdir))
    dsimp only
    rw [hfound]
    cases found with
    | none | some next => rfl

lemma hopto_of_not_fits (hcurr : ans.curr = true) (hdot : input ≠ ['.'])
    (hfits : ¬ Fits home ans input s) : hopto home ans input s = none := by
  rw [Fits, not_or, not_and_or, Classical.not_imp] at hfits
  rw [hopto, if_neg (by simp [hcurr]), if_neg hdot, if_neg hfits.1]
  rcases hfits.2 with hlength | ⟨hchdir, hmatches⟩
  · exact if_neg hlength
  split
  · rw [← isSome_frecency, not_isSome_iff_eq_none] at hmatches
    rw [hchdir]
    dsimp only
    rw [hmatches, bind_none]
  · rfl

lemma hopto_dot (hcurr : ans.curr = true) :
    hopto home ans ['.'] s = some ({ s with prev := s.cwd }, .ok) := by
  rw [hopto, if_neg (by simp [hcurr]), if_pos rfl]

/-- All the ways a hop can go. -/
lemma hopto_cases (hcurr : ans.curr = true) (h : hopto home ans input s = some (s', r)) :
    (input = ['.'] ∧ s' = { s with prev := s.cwd } ∧ r = .ok) ∨
    Fits home ans input s ∧ ((target home ans input s = none ∧ s' = s ∧ r ≠ .ok) ∨
      ∃ next report, target home ans input s = some next ∧
        entered s ans report next = some (s', r)) := by
  by_cases hdot : input = ['.']
  · subst hdot
    rw [hopto_dot hcurr] at h
    obtain ⟨rfl, rfl⟩ := Prod.mk.inj (Option.some.inj h)
    exact .inl ⟨rfl, rfl, rfl⟩
  by_cases hfits : Fits home ans input s
  · refine .inr ⟨hfits, ?_⟩
    obtain ⟨report, failure, hfailure, heq⟩ := hopto_of_fits hcurr hdot hfits
    rw [heq] at h
    cases htarget : target home ans input s with
    | none =>
      rw [htarget] at h
      obtain ⟨rfl, rfl⟩ := Prod.mk.inj (Option.some.inj h)
      exact .inl ⟨rfl, rfl, hfailure⟩
    | some next =>
      rw [htarget] at h
      exact .inr ⟨next, report, rfl, h⟩
  · rw [hopto_of_not_fits hcurr hdot hfits] at h
    cases h

/-- The visit is counted, and the directory before it is remembered. -/
lemma entered_eq_some_iff {report : Report} (hnext : ans.next = true) :
    entered s ans report next = some (s', r) ↔ CanCount s.history next ∧
      s' = ⟨next, s.cwd, some (write (count next ans.now (records (s.history.getD []))))⟩ ∧
      r = .ok := by
  rw [entered, if_pos hnext, map_eq_some_iff]
  constructor
  · rintro ⟨text, htext, heq⟩
    obtain ⟨rfl, rfl⟩ := Prod.mk.inj heq
    have hcount := canCount_of_newRec htext
    rw [newRec_of_canCount hcount] at htext
    exact ⟨hcount, by rw [Option.some.inj htext], rfl⟩
  · rintro ⟨hcount, rfl, rfl⟩
    exact ⟨_, newRec_of_canCount hcount, rfl⟩

lemma fits_of_target (h : target home ans input s = some next) : Fits home ans input s := by
  by_cases hback : input = ['-']
  · exact .inl hback
  rw [target, if_neg hback] at h
  split at h
  next hlength =>
    refine .inr ⟨hlength, fun hchdir => ?_⟩
    rw [hchdir] at h
    by_contra hmany
    rw [← isSome_frecency, not_isSome_iff_eq_none] at hmany
    rw [hmany] at h
    cases h
  · cases h

/-- A hop that enters a directory. -/
lemma hopto_of_target (hcurr : ans.curr = true) (hnext : ans.next = true)
    (hdot : input ≠ ['.']) (h : target home ans input s = some next)
    (hcount : CanCount s.history next) : hopto home ans input s =
      some (⟨next, s.cwd, some (write (count next ans.now (records (s.history.getD []))))⟩,
        .ok) := by
  obtain ⟨report, failure, -, heq⟩ := hopto_of_fits hcurr hdot (fits_of_target h)
  rw [heq, h]
  exact (entered_eq_some_iff hnext).mpr ⟨hcount, rfl, rfl⟩

end

/-! ## What is remembered -/

/-- Answers about directories with these names, none of which is renamed: `getcwd` succeeds, a
path leads to a directory with a name, and a name leads to its directory, if it is still there. -/
structure Faithful (real : List Char → Prop) (ans : Answers) : Prop where
  curr : ans.curr = true
  next : ans.next = true
  real_of_chdir : ∀ p d, ans.chdir p = some d → real d
  eq_of_chdir : ∀ d d', real d → ans.chdir d = some d' → d' = d

/-- The directories of a state have names. -/
structure Named (real : List Char → Prop) (s : State) : Prop where
  cwd : real s.cwd
  prev : s.prev = [] ∨ real s.prev

/-- A hop that went right: if it failed, or the target of `hop -` is gone, nothing has changed;
if it succeeded, the working directory before it is remembered; and after a `hop -` that
succeeded, another one goes back, and remembers what was remembered before. -/
structure Right (home_shell : List Char) (real : List Char → Prop) (input : List Char)
    (s s' : State) (r : Report) : Prop where
  unchanged : r ≠ .ok → s' = s
  remembered : r = .ok → s'.prev = s.cwd
  back : input = ['-'] → r = .ok → ∀ ans s'', Faithful real ans →
    hopto home_shell ans ['-'] s' = some (s'', .ok) → s''.cwd = s.cwd ∧ s''.prev = s.prev

/-- All hops of the sequence go right, each from the state in which the one before it has left
the shell. -/
def AllRight (home_shell : List Char) (real : List Char → Prop) :
    List (List Char × Answers) → State → Prop
  | [], _ => True
  | (input, ans) :: rest, s => ∀ s' r, hopto home_shell ans input s = some (s', r) →
      Right home_shell real input s s' r ∧ AllRight home_shell real rest s'

section

variable {home : List Char} {real : List Char → Prop} {ans : Answers} {input next : List Char}
  {s s' : State} {r : Report} {now : Int}

lemma chdir_of_frecency {history : Option (List Char)}
    (h : frecency history dest now qsort chdir = some (some next)) : ∃ p, chdir p = some next := by
  cases history with
  | none => cases h
  | some content =>
    obtain ⟨found, -, hfirst⟩ := map_eq_some_iff.mp h
    obtain ⟨e, -, he⟩ := List.exists_of_findSome?_eq_some hfirst
    exact ⟨e.path, he⟩

lemma chdir_of_target (h : target home ans input s = some next) : ∃ p, ans.chdir p = some next := by
  rw [target] at h
  split at h
  · split at h
    · cases h
    · exact ⟨s.prev, h⟩
  split at h
  · split at h
    next hchdir => exact ⟨_, hchdir.trans h⟩
    · cases hfound : frecency s.history input ans.now ans.qsort ans.chdir with
      | none =>
        rw [hfound] at h
        cases h
      | some found =>
        rw [hfound, getD_some] at h
        exact chdir_of_frecency (h ▸ hfound)
  · cases h

/-- Where `hop -` leads: to the directory that is remembered. -/
lemma eq_prev_of_target (hans : Faithful real ans) (hs : Named real s)
    (h : target home ans ['-'] s = some next) : s.prev ≠ [] ∧ next = s.prev := by
  rw [target, if_pos rfl] at h
  split at h
  · cases h
  next hprev => exact ⟨hprev, hans.eq_of_chdir s.prev next (hs.prev.resolve_left hprev) h⟩

/-- The state after `hop -`. -/
lemma hopto_back (hans : Faithful real ans) (hs : Named real s)
    (h : hopto home ans ['-'] s = some (s', .ok)) : s'.cwd = s.prev ∧ s'.prev = s.cwd := by
  rcases hopto_cases hans.curr h with ⟨hdot, -⟩ | ⟨-, ⟨-, -, hr⟩ | ⟨next, report, htarget, hent⟩⟩
  · cases hdot
  · exact absurd rfl hr
  · obtain ⟨-, rfl, -⟩ := (entered_eq_some_iff hans.next).mp hent
    exact ⟨(eq_prev_of_target hans hs htarget).2, rfl⟩

lemma Named.hopto (hans : Faithful real ans) (hs : Named real s)
    (h : hopto home ans input s = some (s', r)) : Named real s' := by
  rcases hopto_cases hans.curr h with ⟨-, rfl, -⟩ | ⟨-, ⟨-, rfl, -⟩ | ⟨next, report, htarget, hent⟩⟩
  · exact ⟨hs.cwd, .inr hs.cwd⟩
  · exact hs
  obtain ⟨-, rfl, -⟩ := (entered_eq_some_iff hans.next).mp hent
  obtain ⟨p, hp⟩ := chdir_of_target htarget
  exact ⟨hans.real_of_chdir p next hp, .inr hs.cwd⟩

/-- A hop that has a result goes right. -/
lemma right_of_hopto (hans : Faithful real ans) (hs : Named real s)
    (h : hopto home ans input s = some (s', r)) : Right home real input s s' r := by
  constructor
  · intro hr
    rcases hopto_cases hans.curr h with ⟨-, -, rfl⟩ | ⟨-, ⟨-, rfl, -⟩ | ⟨next, report, -, hent⟩⟩
    · exact absurd rfl hr
    · rfl
    · exact absurd ((entered_eq_some_iff hans.next).mp hent).2.2 hr
  · intro hr
    rcases hopto_cases hans.curr h with ⟨-, rfl, -⟩ | ⟨-, ⟨-, -, hne⟩ | ⟨next, report, -, hent⟩⟩
    · rfl
    · exact absurd hr hne
    · rw [((entered_eq_some_iff hans.next).mp hent).2.1]
  · rintro rfl rfl ans' s'' hans' h'
    obtain ⟨hcwd, hprev⟩ := hopto_back hans hs h
    obtain ⟨hcwd', hprev'⟩ := hopto_back hans' (hs.hopto hans h) h'
    exact ⟨hcwd'.trans hprev, hprev'.trans hcwd⟩

end

/-- **`hop` keeps its previous directory right.** For every sequence of arguments and all
answers of the system: a hop that fails leaves everything as it was, one that succeeds remembers
the working directory before it, and two `hop -` in a row restore both directories. -/
theorem hop_keeps_previous (home_shell : List Char) (real : List Char → Prop)
    (steps : List (List Char × Answers)) (s : State) (hs : Named real s)
    (hans : ∀ step ∈ steps, Faithful real step.2) : AllRight home_shell real steps s := by
  induction steps generalizing s with
  | nil => trivial
  | cons step rest ih =>
    obtain ⟨input, ans⟩ := step
    obtain ⟨hstep, hrest⟩ := forall_mem_cons.mp hans
    intro s' r hhop
    exact ⟨right_of_hopto hstep hs hhop, ih s' (hs.hopto hstep hhop) hrest⟩

/-- A `qsort` that leaves equal elements in their order. -/
def stable : Qsort where
  sort compare l := l.insertionSort fun a b => compare a b ≤ 0
  perm compare l := perm_insertionSort _ l
  sorted compare l htotal htrans := by
    have : Std.Total fun a b => compare a b ≤ 0 := ⟨htotal⟩
    have : IsTrans Rec fun a b => compare a b ≤ 0 := ⟨htrans⟩
    exact pairwise_insertionSort _ l

/-- The directories `/` and `/a`, to which also `a` leads. -/
def sampleAnswers : Answers where
  curr := true
  next := true
  chdir p :=
    if p = ['/'] then some p else if p = ['a'] ∨ p = ['/', 'a'] then some ['/', 'a'] else none
  now := 0
  qsort := stable

def sampleNames (d : List Char) : Prop := d = ['/'] ∨ d = ['/', 'a']

lemma faithful_sampleAnswers : Faithful sampleNames sampleAnswers where
  curr := rfl
  next := rfl
  real_of_chdir p d h := by
    simp only [sampleAnswers] at h
    split at h
    next hp => exact .inl ((Option.some.inj h).symm.trans hp)
    split at h
    · exact .inr (Option.some.inj h).symm
    · cases h
  eq_of_chdir d d' hd h := by
    rcases hd with rfl | rfl
    all_goals exact (Option.some.inj h).symm

/-- The shell as it starts in `/`. -/
def sampleState : State := ⟨['/'], [], none⟩

/-- There and back, and there again. -/
def sampleHops : List (List Char × Answers) :=
  [(['a'], sampleAnswers), (['-'], sampleAnswers), (['-'], sampleAnswers)]

theorem hop_keeps_previous_back :
    hops ['/'] sampleHops sampleState =
      some ⟨['/', 'a'], ['/'], some "2 0 /a\n1 0 /\n".toList⟩ ∧
    AllRight ['/'] sampleNames sampleHops sampleState := by
  refine ⟨by decide, hop_keeps_previous _ _ _ _ ⟨.inl rfl, .inl rfl⟩ ?_⟩
  simp [sampleHops, faithful_sampleAnswers]

end CshellXv6.Shell.Hop
