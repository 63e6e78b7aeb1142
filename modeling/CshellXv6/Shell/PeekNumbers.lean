import CshellXv6.Shell.PeekReverse

/-! # The numbers of lines

Forwards, `peek -n` counts the lines that are not empty, over all files. Backwards, it
counts them file by file before it writes anything, so that it knows the number of the
last line of each file, and then counts down. The numbers are the same, and they are
the numbers from 1 on as long as these fit an `int`.
-/

namespace CshellXv6.Shell.Peek

open Lib List

/-- The lines of a file that get a number. -/
def visibleLines (env : Env) (file : String) : List (List UInt8) :=
  match env.file (path env.home_shell file) with
  | .regular content => (lines newline content).filter nonempty
  | _ => []

/-- The lines that have been written with a number. -/
def numbered (events : List Event) : List (Int × List UInt8) :=
  events.filterMap fun
    | .line ⟨some k, text⟩ => some (k, chop newline text)
    | _ => none

/-- The lines with the numbers from `k` on, as an `int` holds them. -/
def numberFrom (k : Nat) (ls : List (List UInt8)) : List (Int × List UInt8) :=
  (ls.zipIdx k).map fun p => (toInt p.2, p.1)

/-- The same, for the lines of several files. -/
def numberAll : Nat → List (List (List UInt8)) → List (List (Int × List UInt8))
  | _, [] => []
  | k, ls :: rest => numberFrom k ls :: numberAll (k + ls.length) rest

section

variable {n : Bool} {content l : List UInt8} {c : Int} {k : Nat} {ls : List (List UInt8)}
variable {env : Env} {names : List String} {stdin : List UInt8}

lemma flatten_numberAll (lss : List (List (List UInt8))) :
    (numberAll k lss).flatten = numberFrom k lss.flatten := by
  induction lss generalizing k with
  | nil => rfl
  | cons ls rest ih =>
    rw [numberAll, flatten_cons, flatten_cons, ih, numberFrom, numberFrom, numberFrom,
      zipIdx_append, map_append]

/-- The newline at the end of a line does not count. -/
lemma nonempty_chop : nonempty (chop newline l) = nonempty l := by
  unfold chop
  split
  next h =>
    conv_rhs => rw [← dropLast_append_getLast? newline h]
    simp [nonempty, visible]
  · rfl

/-! ## Forwards -/

lemma numbered_cons_some (line : List UInt8) (rest : List Event) :
    numbered (.line ⟨some c, line⟩ :: rest) = (c, chop newline line) :: numbered rest := rfl

lemma numberFrom_cons (line : List UInt8) (ls : List (List UInt8)) :
    numberFrom k (line :: ls) = (toInt k, line) :: numberFrom (k + 1) ls := rfl

lemma printLines_numbered :
    numbered ((printLines true ls (toInt k)).1.map .line) =
      numberFrom k ((ls.map (chop newline)).filter nonempty) ∧
    (printLines true ls (toInt k)).2 =
      toInt (k + (ls.map (chop newline)).countP nonempty : Nat) := by
  induction ls generalizing k with
  | nil => simp [printLines, numbered, numberFrom]
  | cons line rest ih =>
    rw [printLines, map_cons]
    by_cases hline : nonempty line = true
    · have hnext : toInt (toInt k + 1) = toInt (k + 1 : Nat) := by
        rw [toInt_toInt_add]
        norm_cast
      have hchop : nonempty (chop newline line) = true := nonempty_chop.trans hline
      obtain ⟨hpieces, hlast⟩ := ih (k := k + 1)
      have hcount : k + (rest.map (chop newline)).countP nonempty + 1 =
          k + 1 + (rest.map (chop newline)).countP nonempty := by omega
      rw [if_pos ⟨rfl, hline⟩, hnext, filter_cons_of_pos hchop,
        countP_cons_of_pos hchop, numberFrom_cons, ← hpieces, ← Nat.add_assoc, hcount,
        ← hlast]
      exact ⟨rfl, rfl⟩
    · have hchop : ¬ nonempty (chop newline line) = true := by
        rw [nonempty_chop]
        exact hline
      obtain ⟨hpieces, hlast⟩ := ih (k := k)
      rw [if_neg fun h => hline h.2, filter_cons_of_neg hchop,
        countP_cons_of_neg hchop, ← hpieces, ← hlast]
      exact ⟨rfl, rfl⟩

lemma print_numbered (content : List UInt8) (k : Nat) :
    numbered ((print true content (toInt k)).1.map .line) =
      numberFrom k ((lines newline content).filter nonempty) ∧
    (print true content (toInt k)).2 =
      toInt (k + ((lines newline content).filter nonempty).length : Nat) := by
  rw [← map_chop_getlines, ← countP_eq_length_filter]
  exact printLines_numbered

/-- `cnt` counts the lines that get a number. -/
lemma cnt_eq : cnt content = ((lines newline content).filter nonempty).length := by
  rw [← map_chop_getlines, ← countP_eq_length_filter, countP_map, cnt]
  refine countP_congr fun line _ => ?_
  rw [Function.comp_apply, nonempty_chop]

lemma prepareInputs_forward (stdin : List UInt8) : prepareInputs env n false stdin c names =
    names.map fun file => ⟨path env.home_shell file, [], 0⟩ := by
  induction names generalizing stdin c with
  | nil => rfl
  | cons file rest ih =>
    rw [prepareInputs, map_cons]
    split
    all_goals simp [ih]

lemma numberFrom_nil : numberFrom k [] = [] := rfl

lemma numbered_error (text : String) : numbered [.error text] = [] := rfl

lemma outputs_forward (hnames : ∀ file ∈ names, path env.home_shell file ≠ "-") :
    (outputs env true false stdin (toInt k)
      (names.map fun file => ⟨path env.home_shell file, [], 0⟩)).map numbered =
      numberAll k (names.map (visibleLines env)) := by
  induction names generalizing k with
  | nil => rfl
  | cons file rest ih =>
    have hfile := hnames file mem_cons_self
    have hrest := fun k => ih (k := k) fun f hf => hnames f (mem_cons_of_mem file hf)
    rw [map_cons, map_cons, outputs, if_neg hfile, numberAll, visibleLines]
    cases env.file (path env.home_shell file) with
    | missing | directory | unreadable => exact congrArg _ (hrest k)
    | regular content =>
      obtain ⟨hpieces, hlast⟩ := print_numbered content k
      dsimp only
      rw [if_neg Bool.false_ne_true, map_cons, hpieces, hlast, hrest]

/-! ## Backwards -/

/-- The lines with the numbers from `m` down. -/
def numberDown (m : Int) (ls : List (List UInt8)) : List (Int × List UInt8) :=
  ls.zipIdx.map fun p => (toInt (m - p.2), p.1)

lemma numberDown_append (m : Int) (line : List UInt8) :
    numberDown m (ls ++ [line]) = numberDown m ls ++ [(toInt (m - ls.length), line)] := by
  simp [numberDown, zipIdx_append]

/-- Counting down from the last number is counting up, backwards. -/
lemma numberDown_reverse :
    numberDown ((k + ls.length : Nat) - 1) ls.reverse = (numberFrom k ls).reverse := by
  induction ls generalizing k with
  | nil => rfl
  | cons line rest ih =>
    have hlast : ((k + (rest.length + 1) : Nat) : Int) - 1 = (k + 1 + rest.length : Nat) - 1 := by
      push_cast
      ring
    have hfirst : ((k + 1 + rest.length : Nat) : Int) - 1 - rest.length = k := by
      push_cast
      ring
    rw [reverse_cons, numberDown_append, length_cons, length_reverse, hlast, ih,
      hfirst, numberFrom_cons, reverse_cons]

lemma numbered_append (xs ys : List Event) : numbered (xs ++ ys) = numbered xs ++ numbered ys :=
  filterMap_append

lemma writeAll_numbered (m : Int) :
    numbered ((writeAll true (toInt m) ls).out.map .line) = numberDown m (ls.filter nonempty) ∧
    (writeAll true (toInt m) ls).curr = toInt (m - (ls.filter nonempty).length) := by
  induction ls using List.reverseRecOn with
  | nil => simp [writeAll, numbered, numberDown]
  | append_singleton ls line ih =>
    obtain ⟨hpieces, hcurr⟩ := ih
    rw [writeAll_append, RevScan.write, filter_append]
    by_cases hline : nonempty line = true
    · have hone : [line].filter nonempty = [line] := filter_cons_of_pos hline
      have hnext : m - (ls.filter nonempty).length - 1 =
          m - ((ls.filter nonempty).length + 1 : Nat) := by
        push_cast
        ring
      rw [if_pos ⟨hline, rfl⟩, hone, numberDown_append, hcurr, map_append, numbered_append,
        hpieces, length_append, length_singleton, ← hnext, toInt_toInt_sub]
      refine ⟨?_, rfl⟩
      rw [map_singleton, numbered_cons_some, chop_append_newline]
      rfl
    · have hnone : [line].filter nonempty = [] := by simp [hline]
      rw [if_neg fun h => hline h.1, hnone, append_nil, map_append, numbered_append,
        hpieces, ← hcurr]
      exact ⟨append_nil _, rfl⟩

/-- The line that may be missing is empty. -/
lemma filter_reversed :
    (reversed content).filter nonempty = ((lines newline content).filter nonempty).reverse := by
  rw [reversed, ← filter_reverse]
  generalize (lines newline content).reverse = ls
  unfold chop
  split
  next h =>
    conv_rhs => rw [← dropLast_append_getLast? [] h, filter_append]
    exact (append_nil _).symm
  · rfl

lemma printRev_numbered (size : ℕ+) (k : Nat) (h : content.length < 2 ^ 31) :
    numbered ((printRev size true
        (toInt ((k + ((lines newline content).filter nonempty).length : Nat) - 1))
          content).map .line) =
      (numberFrom k ((lines newline content).filter nonempty)).reverse := by
  rw [printRev_lines h, (writeAll_numbered _).1, filter_reversed, numberDown_reverse]

/-- `line_counter` after a file. -/
lemma toInt_add_nonemptyOf (file : String) :
    toInt (toInt k + nonemptyOf (env.file (path env.home_shell file))) =
      toInt (k + (visibleLines env file).length : Nat) := by
  have hzero : toInt (toInt k + 0) = toInt (k + 0 : Nat) := by
    rw [toInt_toInt_add]
    norm_cast
  unfold visibleLines
  cases env.file (path env.home_shell file) with
  | missing | directory | unreadable => exact hzero
  | regular content => rw [nonemptyOf, cnt_eq, toInt_toInt_add, toInt_add_toInt, Nat.cast_add]

lemma outputs_backward (hnames : ∀ file ∈ names, path env.home_shell file ≠ "-")
    (hsmall : ∀ file ∈ names, ∀ content, env.file (path env.home_shell file) = .regular content →
      content.length < 2 ^ 31) :
    (outputs env true true stdin c
      (prepareInputs env true true stdin (toInt k) names)).map numbered =
      (numberAll (k + 1) (names.map (visibleLines env))).map List.reverse := by
  induction names generalizing k with
  | nil => rfl
  | cons file rest ih =>
    have hfile := hnames file mem_cons_self
    have hshort := hsmall file mem_cons_self
    have hrest := ih (k := k + (visibleLines env file).length)
      (fun f hf => hnames f (mem_cons_of_mem file hf))
      fun f hf => hsmall f (mem_cons_of_mem file hf)
    have hnext : k + 1 + (visibleLines env file).length =
        k + (visibleLines env file).length + 1 := by
      omega
    rw [prepareInputs, if_neg hfile]
    dsimp only
    rw [if_pos ⟨rfl, rfl⟩, if_pos ⟨rfl, rfl⟩, toInt_add_nonemptyOf, outputs, if_neg hfile,
      map_cons, numberAll, hnext, map_cons, ← hrest]
    cases hfound : env.file (path env.home_shell file) with
    | missing | directory | unreadable =>
      simp [visibleLines, hfound, numberFrom_nil, numbered_error]
    | regular content =>
      have hlines : visibleLines env file = (lines newline content).filter nonempty := by
        rw [visibleLines, hfound]
      have hpred : ((k + 1 + (visibleLines env file).length : Nat) : Int) - 1 =
          (k + (visibleLines env file).length : Nat) := by
        push_cast
        ring
      have hpieces := printRev_numbered chunkSize (k + 1) (hshort content hfound)
      rw [← hlines, hpred] at hpieces
      dsimp only
      rw [if_pos rfl, map_cons, hpieces]

/-! ## Both -/

lemma peekFiles_forward (hnames : ∀ file ∈ names, path env.home_shell file ≠ "-") :
    (peekFiles env true false names).map numbered = numberAll 1 (names.map (visibleLines env)) := by
  have hone : (1 : Int) = toInt (1 : Nat) := rfl
  rw [peekFiles, prepareInputs_forward, hone]
  exact outputs_forward hnames

lemma peekFiles_backward (hnames : ∀ file ∈ names, path env.home_shell file ≠ "-")
    (hsmall : ∀ file ∈ names, ∀ content, env.file (path env.home_shell file) = .regular content →
      content.length < 2 ^ 31) :
    (peekFiles env true true names).map numbered =
      (numberAll 1 (names.map (visibleLines env))).map List.reverse := by
  have hzero : (0 : Int) = toInt (0 : Nat) := rfl
  rw [peekFiles, hzero]
  exact outputs_backward hnames hsmall

lemma numberFrom_fst : (numberFrom k ls).map Prod.fst =
    (List.range' k ls.length).map fun i : Nat => toInt i := by
  rw [numberFrom, map_map, ← zipIdx_map_snd k ls, map_map]
  simp only [Function.comp_def]

lemma numberFrom_snd : (numberFrom k ls).map Prod.snd = ls := by
  rw [numberFrom, map_map]
  exact zipIdx_map_fst k ls

lemma numberAll_snd (lss : List (List (List UInt8))) :
    (numberAll k lss).map (List.map Prod.snd) = lss := by
  induction lss generalizing k with
  | nil => rfl
  | cons ls rest ih => rw [numberAll, map_cons, numberFrom_snd, ih]

/-- In both directions a line has the same number, the lines with a number are those
that are not empty, and over all files the numbers are those from 1 on. -/
theorem numbers_agree (hnames : ∀ file ∈ names, path env.home_shell file ≠ "-")
    (hsmall : ∀ file ∈ names, ∀ content, env.file (path env.home_shell file) = .regular content →
      content.length < 2 ^ 31)
    (htotal : (names.flatMap (visibleLines env)).length < 2 ^ 31) :
    (peekFiles env true true names).map numbered =
      ((peekFiles env true false names).map numbered).map List.reverse ∧
    ((peekFiles env true false names).map numbered).map (List.map Prod.snd) =
      names.map (visibleLines env) ∧
    ((peekFiles env true false names).map numbered).flatten.map Prod.fst =
      (List.range' 1 (names.flatMap (visibleLines env)).length).map (fun i : Nat => (i : Int)) := by
  rw [peekFiles_forward hnames]
  refine ⟨peekFiles_backward hnames hsmall, numberAll_snd _, ?_⟩
  rw [flatten_numberAll, numberFrom_fst, flatMap_def]
  refine map_congr_left fun i hi => ?_
  rw [flatMap_def] at htotal
  have hrange := mem_range'_1.mp hi
  exact toInt_of_lt (by omega)

end

/-- Two files, the first with an empty line, and a missing one. -/
def notes : Env where
  home_shell := "/home/u"
  file name :=
    if name = "a" then .regular [97, 10, 13, 10, 98, 10]
    else if name = "b" then .regular [99] else .missing
  stdin := []

theorem numbers_agree_notes :
    (peekFiles notes true true ["a", "x", "b"]).map numbered =
      ((peekFiles notes true false ["a", "x", "b"]).map numbered).map List.reverse ∧
    ((peekFiles notes true false ["a", "x", "b"]).map numbered).map (List.map Prod.snd) =
      [[[97], [98]], [], [[99]]] ∧
    ((peekFiles notes true false ["a", "x", "b"]).map numbered).flatten.map Prod.fst =
      [1, 2, 3] := by
  have hnames : ∀ file ∈ ["a", "x", "b"], path notes.home_shell file ≠ "-" := by decide
  refine numbers_agree hnames ?_ (by decide)
  intro file hfile content hcontent
  simp only [mem_cons, not_mem_nil, or_false] at hfile
  rcases hfile with rfl | rfl | rfl
  · have hc : Found.regular [97, 10, 13, 10, 98, 10] = .regular content := hcontent
    cases hc
    decide
  · have hc : Found.missing = .regular content := hcontent
    cases hc
  have hc : Found.regular [99] = .regular content := hcontent
  cases hc
  decide

/-- Every name is that of a file with `m` lines `"a"`. -/
def manyLines (m : Nat) : Env where
  home_shell := "/home/u"
  file _ := .regular (List.replicate m [97, newline]).flatten
  stdin := []

lemma lines_replicate (m : Nat) :
    lines newline (List.replicate m [97, newline]).flatten = List.replicate m [97] := by
  have hget : getlines newline (List.replicate m [97, newline]).flatten =
      List.replicate m [97, newline] := by
    induction m with
    | zero => rfl
    | succ m ih =>
      have hbyte : (97 : UInt8) ≠ newline := by decide
      simp [replicate_succ, getlines, hbyte, ih]
  rw [← map_chop_getlines, hget, map_replicate]
  rfl

lemma visibleLines_manyLines (m : Nat) (file : String) :
    visibleLines (manyLines m) file = List.replicate m [97] := by
  have hlines : visibleLines (manyLines m) file =
      (lines newline (List.replicate m [97, newline]).flatten).filter nonempty := rfl
  rw [hlines, lines_replicate, filter_replicate]
  rfl

/-- Three files of less than `2 ^ 31` bytes with `2 ^ 30 - 1` lines each: the numbers
leave the range of an `int`. -/
theorem numbers_wrap :
    (∀ content, (manyLines (2 ^ 30 - 1)).file "a" = .regular content → content.length < 2 ^ 31) ∧
    -2 ^ 31 ∈ ((peekFiles (manyLines (2 ^ 30 - 1)) true false ["a", "a", "a"]).map
      numbered).flatten.map Prod.fst := by
  constructor
  · intro content hcontent
    have hc : Found.regular (List.replicate (2 ^ 30 - 1) [97, newline]).flatten =
        .regular content := hcontent
    rw [← Found.regular.inj hc, length_flatten, map_replicate, sum_replicate]
    norm_num
  rw [peekFiles_forward (by decide), flatten_numberAll, numberFrom_fst]
  simp only [map_cons, map_nil, visibleLines_manyLines, flatten_cons,
    flatten_nil, append_nil, length_append, length_replicate]
  refine mem_map.mpr ⟨2 ^ 31, mem_range'_1.mpr (by norm_num), ?_⟩
  simp [toInt_eq_bmod, Int.bmod]

end CshellXv6.Shell.Peek
