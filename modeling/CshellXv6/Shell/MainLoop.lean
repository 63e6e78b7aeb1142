import CshellXv6.Shell.Structure

/-! # The loop of `main` over a line

`main` cuts a line into commands while it runs them: it collects the words up to a
separator, sets `bg`, moves on, and then runs what it has collected; the loop may end
there. What a command does is not part of this file. `execute` stands for the value
that the function of that name returns, which may depend on everything before.

The loop does the same as if the line were cut first and the commands were run one
after the other (`mainLoop_eq`). For a line that `check` accepts, the commands are the
runs between the separators (`splitLine_eq_runs`).
-/

namespace CshellXv6.Shell

open Lib List

/-- How the loop ends: with the line, by the `break` after a command, or with the
process. -/
inductive Ending where
  | finished | broke | exited
deriving DecidableEq, Repr

/-- The commands that have been handed over, and the end of the loop. -/
structure Outcome where
  handed : List Command
  ending : Ending
deriving DecidableEq, Repr

/-- The command is `exit`. -/
def Command.isExit (c : Command) : Bool := (c.input.map Token.val).head? = some "exit"

/-- Where `curr` stands after the `if` for the separator. -/
def afterSeparator : List Token → List Token
  | [] => []
  | u :: us => if u.textType = .and ∨ u.textType = .colon then us else u :: us

/-- `bg` after the `if` for the separator. -/
def separatorBg (rest : List Token) : Bool := rest.head?.map Token.textType = some .and

variable {curr rest : List Token} {c : Command} {t : Token}

lemma afterSeparator_lt (h : curr ≠ []) :
    (afterSeparator (collectInput Token.textType 0 curr).2).length < curr.length := by
  cases curr with
  | nil => exact absurd rfl h
  | cons t ts =>
    have hparts := congrArg List.length (collectInput_append Token.textType 0 (t :: ts))
    have hlt := collectInput_rest_lt Token.textType t ts
    rw [length_append] at hparts
    cases hrest : (collectInput Token.textType 0 (t :: ts)).2 with
    | nil => simp [afterSeparator]
    | cons u us =>
      rw [hrest, length_cons] at hparts
      rw [afterSeparator]
      split
      · omega
      next hsep =>
        rw [not_or] at hsep
        have := hlt u us hrest hsep.2 hsep.1
        simp only [length_cons]
        omega

section

variable (execute : List Command → Command → Bool) {ending : Ending} {before : List Command}

/-- What the loop does after a command: `exit` ends the process; `flag` is 1 for the
other builtins and the value of `execute` for the rest. -/
def verdict (before : List Command) (c : Command) : Option Ending :=
  if c.isExit then some .exited
  else
    let flag := if c.builtin then true else execute before c
    if flag = false ∧ c.bg = false then some .broke else none

/-- `while (curr != NULL)`; `before` are the commands that have been handed over. -/
def mainLoop (before : List Command) (curr : List Token) : Outcome :=
  if _h : curr = [] then ⟨before, .finished⟩
  else
    let input := (collectInput Token.textType 0 curr).1
    let rest := (collectInput Token.textType 0 curr).2
    let c : Command := ⟨input, separatorBg rest⟩
    if input = [] then mainLoop before (afterSeparator rest)
    else
      match verdict execute before c with
      | some ending => ⟨before ++ [c], ending⟩
      | none => mainLoop (before ++ [c]) (afterSeparator rest)
termination_by curr.length
decreasing_by
  · exact afterSeparator_lt _h
  · exact afterSeparator_lt _h

/-- The commands are run one after the other. -/
def runCommands (before : List Command) : List Command → Outcome
  | [] => ⟨before, .finished⟩
  | c :: cs =>
    match verdict execute before c with
    | some ending => ⟨before ++ [c], ending⟩
    | none => runCommands (before ++ [c]) cs

/-- One round of the cut into commands, as the loop makes it. -/
lemma splitLine_round (h : curr ≠ []) :
    splitLine Token.textType curr =
      handOver (collectInput Token.textType 0 curr).1
        (separatorBg (collectInput Token.textType 0 curr).2)
        (splitLine Token.textType (afterSeparator (collectInput Token.textType 0 curr).2)) := by
  cases curr with
  | nil => exact absurd rfl h
  | cons t ts =>
    cases hrest : (collectInput Token.textType 0 (t :: ts)).2 with
    | nil =>
      rw [splitLine_nil_rest hrest, afterSeparator, splitLine]
      rfl
    | cons u us =>
      rw [splitLine_cons_rest hrest, afterSeparator, separatorBg]
      by_cases hand : u.textType = .and
      · simp [hand]
      by_cases hcolon : u.textType = .colon
      · simp [hcolon]
      · simp [hand, hcolon]

/-- The line may as well be cut first. -/
lemma mainLoop_eq (before : List Command) (curr : List Token) :
    mainLoop execute before curr = runCommands execute before (splitLine Token.textType curr) := by
  fun_induction mainLoop execute before curr with
  | case1 before => rw [splitLine, runCommands]
  | case2 before curr hne input rest hinput ih =>
    rw [ih, splitLine_round hne, handOver, if_pos hinput]
  | case3 before curr hne input rest c hinput ending hverdict =>
    rw [splitLine_round hne, handOver, if_neg hinput, runCommands, hverdict]
  | case4 before curr hne input rest c hinput hverdict ih =>
    rw [ih, splitLine_round hne, handOver, if_neg hinput, runCommands, hverdict]

/-- The commands are handed over in order, and all of them unless one of them ends the
loop. -/
lemma runCommands_spec (before cs : List Command) :
    ∃ handed, (runCommands execute before cs).handed = before ++ handed ∧ handed <+: cs ∧
      (handed = cs ∧ (runCommands execute before cs).ending = .finished ∨
        ∃ earlier c, handed = earlier ++ [c] ∧
          verdict execute (before ++ earlier) c = some (runCommands execute before cs).ending) := by
  induction cs generalizing before with
  | nil => exact ⟨[], by simp [runCommands]⟩
  | cons c cs ih =>
    rw [runCommands]
    cases hverdict : verdict execute before c with
    | some ending => exact ⟨[c], rfl, by simp, .inr ⟨[], c, rfl, by simpa using hverdict⟩⟩
    | none =>
      obtain ⟨handed, hhanded, hpre, hend⟩ := ih (before ++ [c])
      refine ⟨c :: handed, by simp [hhanded], by simpa using hpre, ?_⟩
      rcases hend with ⟨rfl, hfin⟩ | ⟨earlier, d, rfl, hd⟩
      · exact .inl ⟨rfl, hfin⟩
      · exact .inr ⟨c :: earlier, d, rfl, by simpa using hd⟩

lemma verdict_eq_some (h : verdict execute before c = some ending) :
    c.isExit = true ∧ ending = .exited ∨
      c.builtin = false ∧ c.bg = false ∧ execute before c = false ∧ ending = .broke := by
  unfold verdict at h
  split at h
  next hexit => exact .inl ⟨hexit, (Option.some.inj h).symm⟩
  · cases hb : c.builtin with
    | true => simp [hb] at h
    | false =>
      simp only [hb, Bool.false_eq_true, if_false] at h
      split at h
      next hstop => exact .inr ⟨rfl, hstop.2, hstop.1, (Option.some.inj h).symm⟩
      · cases h

end

/-! ## The runs of a line -/

/-- The token ends a command, by a classification of the tokens. -/
def separates (cls : Token → Types) (t : Token) : Bool := cls t = .colon || cls t = .and

/-- The parts of a line between its separators, each with the mark whether it is ended
by `&`. -/
def runsBy (cls : Token → Types) (tokens : List Token) : List Command :=
  (((tokens.splitOnP (separates cls)).zip
    ((tokens.filter (separates cls)).map (fun t => decide (cls t = .and)) ++ [false])).map
      fun p => ⟨p.1, p.2⟩).filter fun c => c.input ≠ []

section Runs

variable {cls cls' : Token → Types}

lemma runsBy_of_no_separator {tokens : List Token} (h : ∀ t ∈ tokens, separates cls t = false) :
    runsBy cls tokens = handOver tokens false [] := by
  have hnone : tokens.filter (separates cls) = [] := by
    rw [filter_eq_nil_iff]
    intro t ht
    simp [h t ht]
  rw [runsBy, splitOnP_eq_singleton h, hnone, handOver]
  by_cases hnil : tokens = []
  all_goals simp [hnil]

lemma runsBy_of_separator {run rest : List Token}
    (hrun : ∀ t ∈ run, separates cls t = false) (ht : separates cls t = true) :
    runsBy cls (run ++ t :: rest) = handOver run (cls t = .and) (runsBy cls rest) := by
  have hnone : run.filter (separates cls) = [] := by
    rw [filter_eq_nil_iff]
    intro u hu
    simp [hrun u hu]
  rw [runsBy, splitOnP_append_cons_of_forall_mem hrun t ht, filter_append, hnone,
    nil_append, filter_cons_of_pos ht, map_cons, cons_append,
    zip_cons_cons, map_cons, handOver]
  by_cases hnil : run = []
  · rw [if_pos hnil, filter_cons_of_neg (by simp [hnil])]
    rfl
  · rw [if_neg hnil, filter_cons_of_pos (by simp [hnil])]
    rfl

lemma runsBy_congr {tokens : List Token}
    (h : ∀ t ∈ tokens, cls t = cls' t) : runsBy cls tokens = runsBy cls' tokens := by
  have hsep : ∀ t ∈ tokens, separates cls t = separates cls' t := by
    intro t ht
    rw [separates, separates, h t ht]
  have hmarks : (tokens.filter (separates cls)).map (fun t => decide (cls t = .and)) =
      (tokens.filter (separates cls')).map (fun t => decide (cls' t = .and)) := by
    rw [filter_congr hsep]
    refine map_congr_left fun t ht => ?_
    rw [h t (mem_filter.mp ht).1]
  rw [runsBy, runsBy, splitOnP_congr hsep, hmarks]

/-- The inner loop collects a run that fits `input`. -/
lemma collectInput_run {run rest : List Token} {count : Nat}
    (hrun : ∀ t ∈ run, separates cls t = false) (hlen : count + run.length ≤ 256)
    (hrest : ∀ u us, rest = u :: us → separates cls u = true) :
    collectInput cls count (run ++ rest) = (run, rest) := by
  induction run generalizing count with
  | nil =>
    cases rest with
    | nil => rfl
    | cons u us =>
      have hu := hrest u us rfl
      simp only [separates, Bool.or_eq_true, decide_eq_true_eq] at hu
      rw [nil_append, collectInput, if_neg]
      rintro ⟨hcolon, hand, -⟩
      exact hu.elim hcolon hand
  | cons t run ih =>
    have hsep := hrun t mem_cons_self
    simp only [separates, Bool.or_eq_false_iff, decide_eq_false_iff_not] at hsep
    rw [length_cons] at hlen
    have hnext : collectInput cls (count + 1) (run ++ rest) = (run, rest) :=
      ih (fun u hu => hrun u (mem_cons_of_mem t hu)) (by omega)
    rw [cons_append, collectInput, if_pos ⟨hsep.1, hsep.2, by omega⟩, hnext]

/-- A longer run fills `input`. -/
lemma collectInput_full {run rest : List Token} {count : Nat}
    (hrun : ∀ t ∈ run, separates cls t = false) (hcount : count ≤ 256)
    (hlen : 256 ≤ count + run.length) :
    (collectInput cls count (run ++ rest)).1.length = 256 - count := by
  induction run generalizing count with
  | nil =>
    rw [length_nil] at hlen
    cases rest with
    | nil =>
      simp only [append_nil, collectInput, length_nil]
      omega
    | cons u us =>
      rw [nil_append, collectInput, if_neg fun h => by omega, length_nil]
      omega
  | cons t run ih =>
    have hsep := hrun t mem_cons_self
    simp only [separates, Bool.or_eq_false_iff, decide_eq_false_iff_not] at hsep
    rw [length_cons] at hlen
    rw [cons_append, collectInput]
    split
    next hfits =>
      have hnext : (collectInput cls (count + 1) (run ++ rest)).1.length = 256 - (count + 1) :=
        ih (fun u hu => hrun u (mem_cons_of_mem t hu)) hfits.2.2 (by omega)
      rw [length_cons, hnext]
      omega
    next hfull =>
      have : ¬ count < 256 := fun h => hfull ⟨hsep.1, hsep.2, h⟩
      rw [length_nil]
      omega

end Runs

lemma afterSeparator_of_separates
    (ht : separates Token.textType t = true) : afterSeparator (t :: rest) = rest := by
  simp only [separates, Bool.or_eq_true, decide_eq_true_eq] at ht
  rw [afterSeparator, if_pos ht.symm]

lemma separatorBg_cons (t : Token) (rest : List Token) :
    separatorBg (t :: rest) = decide (t.textType = .and) := by
  simp [separatorBg]

/-- A line is a run, followed by nothing or by a separator and the other runs. -/
lemma exists_first_run (tokens : List Token) :
    ∃ run rest, tokens = run ++ rest ∧ (∀ t ∈ run, separates Token.textType t = false) ∧
      (∀ u us, rest = u :: us → separates Token.textType u = true) ∧
      runsBy Token.textType tokens =
        handOver run (separatorBg rest) (runsBy Token.textType (afterSeparator rest)) := by
  rcases no_separator_or_first (separates Token.textType) tokens with
    hno | ⟨run, t, rest, rfl, ht, hrun⟩
  · refine ⟨tokens, [], (append_nil tokens).symm, hno, by simp, ?_⟩
    rw [runsBy_of_no_separator hno]
    rfl
  refine ⟨run, t :: rest, rfl, hrun, ?_, ?_⟩
  · rintro u us h
    rwa [← (List.cons.inj h).1]
  · rw [runsBy_of_separator hrun ht, afterSeparator_of_separates ht, separatorBg_cons]

lemma length_afterSeparator_lt {run rest : List Token} (hne : run ++ rest ≠ [])
    (hrest : ∀ u us, rest = u :: us → separates Token.textType u = true) :
    (afterSeparator rest).length < (run ++ rest).length := by
  cases rest with
  | nil => simpa [afterSeparator, length_pos_iff] using hne
  | cons u us =>
    rw [afterSeparator_of_separates (hrest u us rfl), length_append, length_cons]
    omega

/-- The runs of the line are the pieces between the separators. -/
lemma mem_splitOnP_first {run rest : List Token}
    (hrun : ∀ t ∈ run, separates Token.textType t = false)
    (hrest : ∀ u us, rest = u :: us → separates Token.textType u = true) (s : List Token)
    (hs : s = run ∨ rest ≠ [] ∧ s ∈ (afterSeparator rest).splitOnP (separates Token.textType)) :
    s ∈ (run ++ rest).splitOnP (separates Token.textType) := by
  cases rest with
  | nil =>
    rw [append_nil, splitOnP_eq_singleton hrun]
    simpa using hs
  | cons u us =>
    have hu := hrest u us rfl
    rw [splitOnP_append_cons_of_forall_mem hrun u hu]
    rw [afterSeparator_of_separates hu] at hs
    simpa using hs

variable {tokens : List Token}

/-- A run that fits `input` is one command. -/
lemma splitLine_eq_runsBy
    (hlen : ∀ run ∈ tokens.splitOnP (separates Token.textType), run.length ≤ 256) :
    splitLine Token.textType tokens = runsBy Token.textType tokens := by
  induction hn : tokens.length using Nat.strong_induction_on generalizing tokens with
  | _ n ih =>
    by_cases hnil : tokens = []
    · subst hnil
      rw [splitLine]
      rfl
    obtain ⟨run, rest, rfl, hrun, hrest, hruns⟩ := exists_first_run tokens
    have hpieces := mem_splitOnP_first hrun hrest
    have hfit := hlen run (hpieces run (.inl rfl))
    have hlater : splitLine Token.textType (afterSeparator rest) =
        runsBy Token.textType (afterSeparator rest) := by
      by_cases hend : rest = []
      · rw [hend, afterSeparator, splitLine]
        rfl
      · refine ih _ (hn ▸ length_afterSeparator_lt hnil hrest) (fun r hr => hlen r ?_) rfl
        exact hpieces r (.inr ⟨hend, hr⟩)
    rw [splitLine_round hnil, collectInput_run hrun (by omega) hrest, hruns]
    dsimp only
    rw [hlater]

/-! ## The runs by the types of the tokens -/

def isSeparator : Token → Bool := separates Token.type

def runs : List Token → List Command := runsBy Token.type

/-- Where every text is read as the lexer meant it, the commands are the runs. -/
lemma splitLine_eq_runs (htext : ∀ t ∈ tokens, t.textType = t.type)
    (hlen : ∀ run ∈ tokens.splitOnP isSeparator, run.length ≤ 256) :
    splitLine Token.textType tokens = runs tokens := by
  have hsep : tokens.splitOnP (separates Token.textType) = tokens.splitOnP isSeparator := by
    refine splitOnP_congr fun t ht => ?_
    rw [isSeparator, separates, separates, htext t ht]
  rw [splitLine_eq_runsBy (by rwa [hsep]), runsBy_congr htext, runs]

/-- In an accepted line every run begins with a word. -/
lemma runs_head (hcheck : check tokens = true) (hc : c ∈ runs tokens) :
    ∃ t ts, c.input = t :: ts ∧ t.type = .word := by
  obtain ⟨hmem, hne⟩ := mem_filter.mp hc
  obtain ⟨p, hp, rfl⟩ := mem_map.mp hmem
  have hpiece := (of_mem_zip hp).1
  obtain ⟨a, b, rfl, ha⟩ := eq_append_of_mem_splitOnP isSeparator tokens p.1 hpiece
  cases hinput : p.1 with
  | nil => simp [hinput] at hne
  | cons t ts =>
    refine ⟨t, ts, rfl, ?_⟩
    rw [hinput] at hcheck
    rcases ha with rfl | ⟨a', u, rfl, hu⟩
    · by_contra hw
      simp [check, hw] at hcheck
    · refine check_operator _ a' u t (ts ++ b) hcheck (by simp) fun hw => ?_
      simp [isSeparator, separates, hw] at hu

/-- The commands handed over are the runs of the line, in order, and the loop ends early
only after an external command in the foreground that failed, or with `exit`. -/
theorem hands_over_runs (execute : List Command → Command → Bool) {tokens : List Token}
    (hwf : ∀ t ∈ tokens, t.WellFormed) (hcheck : check tokens = true)
    (hwords : ∀ t ∈ tokens, t.type = .word → t.textType = .word)
    (hlen : ∀ run ∈ tokens.splitOnP isSeparator, run.length ≤ 255) :
    (mainLoop execute [] tokens).handed <+: runs tokens ∧
    (∀ c ∈ runs tokens, ∃ t ts, c.input = t :: ts ∧ t.type = .word) ∧
    ((mainLoop execute [] tokens).handed = runs tokens ∨
      ∃ earlier c, (mainLoop execute [] tokens).handed = earlier ++ [c] ∧
        (c.builtin = false ∧ c.bg = false ∧ execute earlier c = false ∨ c.isExit = true)) := by
  have htext : ∀ t ∈ tokens, t.textType = t.type := by
    intro t ht
    by_cases hw : t.type = .word
    · rw [hwords t ht hw, hw]
    · exact (hwf t ht).textType_eq hw
  have hfit : ∀ run ∈ tokens.splitOnP isSeparator, run.length ≤ 256 := fun run hrun =>
    (hlen run hrun).trans (by omega)
  rw [mainLoop_eq, splitLine_eq_runs htext hfit]
  obtain ⟨handed, hhanded, hpre, hend⟩ := runCommands_spec execute [] (runs tokens)
  rw [nil_append] at hhanded
  rw [hhanded]
  refine ⟨hpre, fun c hc => runs_head hcheck hc, ?_⟩
  rcases hend with ⟨hall, -⟩ | ⟨earlier, c, rfl, hverdict⟩
  · exact .inl hall
  refine .inr ⟨earlier, c, rfl, ?_⟩
  rcases verdict_eq_some execute hverdict with ⟨hexit, -⟩ | ⟨hb, hbg, hexec, -⟩
  · exact .inr hexit
  · exact .inl ⟨hb, hbg, hexec⟩

/-- The line `a & b ; c`. -/
def threeCommands : List Token :=
  [⟨.word, "a"⟩, ⟨.and, "&"⟩, ⟨.word, "b"⟩, ⟨.colon, ";"⟩, ⟨.word, "c"⟩]

/-- If `b` fails, the last command is not run. -/
theorem hands_over_runs_three :
    runs threeCommands =
      [⟨[⟨.word, "a"⟩], true⟩, ⟨[⟨.word, "b"⟩], false⟩, ⟨[⟨.word, "c"⟩], false⟩] ∧
    (mainLoop (fun _ _ => false) [] threeCommands).handed <+: runs threeCommands := by
  have hwf : ∀ t ∈ threeCommands, t.WellFormed := by
    simp [threeCommands, Token.WellFormed, Types.text]
  refine ⟨by decide, ?_⟩
  exact (hands_over_runs (fun _ _ => false) hwf (by decide) (by decide) (by decide)).1

/-- The line `exit ; c`. -/
def exitFirst : List Token := [⟨.word, "exit"⟩, ⟨.colon, ";"⟩, ⟨.word, "c"⟩]

/-- The loop ends early, after a builtin. -/
theorem exit_ends_the_line : check exitFirst = true ∧
    runs exitFirst = [⟨[⟨.word, "exit"⟩], false⟩, ⟨[⟨.word, "c"⟩], false⟩] ∧
    mainLoop (fun _ _ => true) [] exitFirst = ⟨[⟨[⟨.word, "exit"⟩], false⟩], .exited⟩ := by
  refine ⟨by decide, by decide, ?_⟩
  rw [mainLoop_eq, splitLine_eq_runs (by decide) (by decide)]
  decide

end CshellXv6.Shell
