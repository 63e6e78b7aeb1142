import CshellXv6.Lib.Slices
import CshellXv6.Shell.Execute
import CshellXv6.Shell.Grammar

/-! # A pipeline as `execute` takes it apart

`execute` works on the array of words: it notes where the `|` are, overwrites them with
`NULL`, and goes over the part between two of them with an index that skips the word
behind a redirection. Both loops are written here as they stand. They do what the cut
and the scan of `Structure` do (`recover_eq`), and on the words of a pipeline of the
grammar they give back its derivation.
-/

namespace CshellXv6.Shell.Pipeline

open Lib List

/-! ## The loops -/

/-- `pipeindex` and `input`; `none` is `NULL`. -/
structure Cut where
  pipeindex : List Int
  input : List (Option String)
deriving DecidableEq, Repr

/-- The body of the loop that looks for `|`. -/
def Cut.mark (s : Cut) (i : Nat) : Cut :=
  if s.input[i]? = some (some "|") then ⟨s.pipeindex ++ [(i : Int)], s.input.set i none⟩ else s

/-- The loop, and `pipeindex[n] = count` after it. -/
def pipeCut (input : List String) : Cut :=
  let s := (List.range input.length).foldl Cut.mark ⟨[-1], input.map some⟩
  { s with pipeindex := s.pipeindex ++ [(input.length : Int)] }

/-- What becomes of a stage: the message about `|`, the message of one of the three
redirections, a `NULL` among the words, the `continue` without an argument, or `arg`,
`files` and `out_files` with `out`. -/
inductive Scanned where
  | emptyStage
  | syntaxError
  | null
  | noArgument
  | command (arg files : List String) (out_files : List (String × Bool))
deriving DecidableEq, Repr

/-- `for (int i = 0; i < cmd_count; i++)` over the words of a stage. -/
def scanWords (cmd_input : List (Option String)) (cmd_count i : Nat) (arg files : List String)
    (out_files : List (String × Bool)) : Scanned :=
  if _h : i < cmd_count then
    match cmd_input[i]? with
    | some (some word) =>
      if word = "<" then
        if i + 1 ≥ cmd_count then .syntaxError
        else
          match cmd_input[i + 1]? with
          | some (some file) =>
            scanWords cmd_input cmd_count (i + 2) arg (files ++ [file]) out_files
          | _ => .null
      else if word = ">" then
        if i + 1 ≥ cmd_count then .syntaxError
        else
          match cmd_input[i + 1]? with
          | some (some file) =>
            scanWords cmd_input cmd_count (i + 2) arg files (out_files ++ [(file, false)])
          | _ => .null
      else if word = ">>" then
        if i + 1 ≥ cmd_count then .syntaxError
        else
          match cmd_input[i + 1]? with
          | some (some file) =>
            scanWords cmd_input cmd_count (i + 2) arg files (out_files ++ [(file, true)])
          | _ => .null
      else scanWords cmd_input cmd_count (i + 1) (arg ++ [word]) files out_files
    | _ => .null
  else if arg = [] then .noArgument
  else .command arg files out_files
termination_by cmd_count - i

/-- The stage between two entries of `pipeindex`. -/
def Cut.stage (s : Cut) (before behind : Int) : Scanned :=
  let start := before + 1
  let cmd_count := behind - start
  if cmd_count = 0 then .emptyStage
  else scanWords (s.input.drop start.toNat) cmd_count.toNat 0 [] [] []

/-- What `execute` makes of its words, stage by stage. -/
def recover (input : List String) : List Scanned :=
  let s := pipeCut input
  (s.pipeindex.zip s.pipeindex.tail).map fun p => s.stage p.1 p.2

/-! ## The cut -/

def isPipe (t : Token) : Bool := t.textType = .pipe

/-- A word after the loop. -/
def marked (t : Token) : Option String := if isPipe t then none else some t.val

variable {t : Token} {ty : Types} {k i : Nat} {stops : List Nat} {l1 l2 l : List Token}

/-- The text spells an operator. -/
lemma textType_eq_iff (h : ty ≠ .word) : t.textType = ty ↔ ty.text = some t.val := by
  constructor
  · rintro rfl
    unfold Token.textType at h ⊢
    split_ifs at h ⊢ with h1 h2 h3 h4 h5 h6
    · rw [h1]
      rfl
    · rw [h2]
      rfl
    · rw [h3]
      rfl
    · rw [h4]
      rfl
    · rw [h5]
      rfl
    · rw [h6]
      rfl
    · exact absurd rfl h
  · intro htext
    obtain ⟨ty', val⟩ := t
    cases ty with
    | word => exact absurd rfl h
    | pipe | and | colon | less | greater | greater2 =>
      cases htext
      rfl

lemma isPipe_iff : isPipe t = true ↔ t.val = "|" := by
  rw [isPipe, decide_eq_true_eq, textType_eq_iff (by decide)]
  exact Option.some_inj.trans eq_comm

/-- The state of the loop when `k` words have been looked at. -/
lemma foldl_mark (tokens : List Token) (hk : k ≤ tokens.length) :
    (List.range k).foldl Cut.mark ⟨[-1], (tokens.map Token.val).map some⟩ =
      ⟨-1 :: (hits isPipe tokens 0 k).map (fun i : Nat => (i : Int)),
        (tokens.take k).map marked ++ (tokens.drop k).map (fun t => some t.val)⟩ := by
  induction k with
  | zero => simp [hits]
  | succ k ih =>
    have hlt : k < tokens.length := by omega
    have hx := List.getElem?_eq_getElem hlt
    have hlen : ((tokens.take k).map marked).length = k := by simp; omega
    have hread : ((tokens.take k).map marked ++
        some tokens[k].val :: (tokens.drop (k + 1)).map (fun t => some t.val))[k]? =
        some (some tokens[k].val) := by
      rw [List.getElem?_append_right (by omega), hlen, Nat.sub_self]
      rfl
    rw [range_succ, foldl_append, ih (by omega), foldl_cons, foldl_nil,
      drop_eq_getElem_cons hlt, map_cons, Cut.mark, hread, hits_concat isPipe hx,
      take_add_one, hx, Option.toList_some, map_append, map_singleton, marked]
    by_cases hpipe : isPipe tokens[k] = true
    · rw [if_pos (by rw [isPipe_iff.mp hpipe]), if_pos hpipe, if_pos hpipe]
      rw [set_append_right _ _ (by omega), hlen, Nat.sub_self]
      simp
    have hval : ¬ some (some tokens[k].val) = some (some "|") := by
      intro h
      exact hpipe (isPipe_iff.mpr (Option.some.inj (Option.some.inj h)))
    rw [if_neg hval, if_neg hpipe, if_neg hpipe]
    simp

lemma pipeCut_eq (tokens : List Token) : pipeCut (tokens.map Token.val) =
    ⟨-1 :: (hits isPipe tokens 0 tokens.length ++ [tokens.length]).map (fun i : Nat => (i : Int)),
      tokens.map marked⟩ := by
  rw [pipeCut, length_map, foldl_mark tokens (le_refl _)]
  simp

/-! ## The stages -/

/-- What the scan comes to, when it has collected `arg`, `files` and `out_files` and has
`st` before it. -/
def finish (st : Stage) (arg files : List String) (out_files : List (String × Bool)) : Scanned :=
  if st.scanned = false then .syntaxError
  else if arg ++ st.arg = [] then .noArgument
  else .command (arg ++ st.arg) (files ++ st.files) (out_files ++ st.out_files)

lemma val_eq_of_textType {text : String} (hty : ty.text = some text) (h : t.textType = ty) :
    t.val = text := by
  have hne : ty ≠ .word := by
    rintro rfl
    cases hty
  rw [textType_eq_iff hne, hty] at h
  exact (Option.some.inj h).symm

/-- The kinds of words that the scan tells apart. -/
lemma redirection_cases (h : ty.isRedirection = true) :
    ty = .less ∨ ty = .greater ∨ ty = .greater2 := by
  cases ty <;> simp [Types.isRedirection] at h ⊢

lemma drop_eq_cons {piece ts : List Token} (h : piece.drop i = t :: ts) :
    i < piece.length ∧ piece[i]? = some t ∧ piece.drop (i + 1) = ts := by
  have hlt : i < piece.length := by
    by_contra hge
    rw [drop_eq_nil_iff.mpr (by omega)] at h
    cases h
  rw [drop_eq_getElem_cons hlt] at h
  exact ⟨hlt, by rw [List.getElem?_eq_getElem hlt, (List.cons.inj h).1], (List.cons.inj h).2⟩

/-- The loop with its index is the scan of `Structure`. -/
lemma scanWords_eq {piece : List Token} {words : List (Option String)}
    (hwords : ∀ (j : Nat) (t : Token), piece[j]? = some t → words[j]? = some (some t.val))
    {arg files : List String} {out_files : List (String × Bool)} :
    scanWords words piece.length i arg files out_files =
      finish (scanStage Token.textType (piece.drop i)) arg files out_files := by
  generalize hts : piece.drop i = ts
  induction ts using stage_induction Token.textType generalizing i arg files out_files with
  | nil =>
    have hlen : ¬ i < piece.length := by
      have := drop_eq_nil_iff.mp hts
      omega
    rw [scanWords, dif_neg hlen]
    simp [scanStage, finish]
  | dangling t ht =>
    obtain ⟨hi, hget, hrest⟩ := drop_eq_cons hts
    have hlast : i + 1 ≥ piece.length := drop_eq_nil_iff.mp hrest
    rw [scanWords, dif_pos hi, hwords i t hget, scanStage_dangling ht]
    dsimp only
    rw [if_pos hlast, if_pos hlast, if_pos hlast]
    rcases redirection_cases ht with h | h | h
    all_goals
      rw [val_eq_of_textType rfl h]
      rfl
  | redirection t f ts ht ih =>
    obtain ⟨hi, hget, hrest⟩ := drop_eq_cons hts
    obtain ⟨hi', hget', hrest'⟩ := drop_eq_cons hrest
    have hmore : ¬ i + 1 ≥ piece.length := by omega
    rw [scanWords, dif_pos hi, hwords i t hget]
    dsimp only
    rw [if_neg hmore, if_neg hmore, if_neg hmore, hwords (i + 1) f hget']
    rcases redirection_cases ht with h | h | h
    all_goals
      rw [val_eq_of_textType rfl h]
      simp [ih hrest', scanStage, h, finish]
  | argument t ts ht ih =>
    obtain ⟨hi, hget, hrest⟩ := drop_eq_cons hts
    have hother : ∀ (ty : Types) (text : String), ty.text = some text →
        ty.isRedirection = true → ¬ t.val = text := by
      rintro ty text hty hred rfl
      have hne : ty ≠ .word := by
        rintro rfl
        cases hty
      rw [(textType_eq_iff hne).mpr hty, hred] at ht
      cases ht
    have hless : ¬ t.val = "<" := hother .less "<" rfl rfl
    have hgreater : ¬ t.val = ">" := hother .greater ">" rfl rfl
    have hgreater2 : ¬ t.val = ">>" := hother .greater2 ">>" rfl rfl
    rw [scanWords, dif_pos hi, hwords i t hget]
    dsimp only
    rw [if_neg hless, if_neg hgreater, if_neg hgreater2, ih hrest, scanStage_argument ht]
    simp [finish]

/-- What `execute` makes of a stage. -/
def scannedStage (piece : List Token) : Scanned :=
  if piece = [] then .emptyStage else finish (scanStage Token.textType piece) [] [] []

/-- The stage between two ends. -/
lemma stage_eq {s : Cut} {tokens : List Token} (hinput : s.input = tokens.map marked)
    {start stop : Nat} (hle : start ≤ stop) (hbound : stop ≤ tokens.length)
    (hno : ∀ t ∈ (tokens.drop start).take (stop - start), isPipe t = false) :
    s.stage ((start : Int) - 1) stop = scannedStage ((tokens.drop start).take (stop - start)) := by
  have hlen : ((tokens.drop start).take (stop - start)).length = stop - start := by
    rw [length_take, length_drop]
    omega
  have hstart : (start : Int) - 1 + 1 = start := by omega
  have hcount : (stop : Int) - start = (stop - start : Nat) := by omega
  rw [Cut.stage, hstart, hcount, Int.toNat_natCast, Int.toNat_natCast, scannedStage]
  by_cases hempty : stop - start = 0
  · simp [hempty]
  have hne : (tokens.drop start).take (stop - start) ≠ [] :=
    ne_nil_of_length_pos (by omega)
  have hwords : ∀ (j : Nat) (t : Token), ((tokens.drop start).take (stop - start))[j]? = some t →
      (s.input.drop start)[j]? = some (some t.val) := by
    intro j t hj
    have hnot := hno t (mem_of_getElem? hj)
    rw [List.getElem?_take] at hj
    split at hj
    · rw [hinput, ← map_drop, List.getElem?_map, hj]
      simp [marked, hnot]
    · cases hj
  have hscan : scanWords (s.input.drop start) (stop - start) 0 [] [] [] =
      finish (scanStage Token.textType ((tokens.drop start).take (stop - start))) [] [] [] := by
    rw [← drop_zero (l := (tokens.drop start).take (stop - start)), ← scanWords_eq hwords, hlen]
  rw [if_neg (by omega), if_neg hne, hscan]

lemma stages_eq {s : Cut} {tokens : List Token} (hinput : s.input = tokens.map marked)
    {start : Nat} (h : Ordered tokens.length start stops)
    (hno : ∀ piece ∈ slices tokens start stops, ∀ t ∈ piece, isPipe t = false) :
    ((((start : Int) - 1) :: stops.map (fun i : Nat => (i : Int))).zip
      (stops.map (fun i : Nat => (i : Int)))).map (fun p => s.stage p.1 p.2) =
      (slices tokens start stops).map scannedStage := by
  induction stops generalizing start with
  | nil => rfl
  | cons stop stops ih =>
    obtain ⟨hle, hbound, hrest⟩ := h
    have hnext := ih hrest fun piece hpiece => hno piece (mem_cons_of_mem _ hpiece)
    have hback : ((stop + 1 : Nat) : Int) - 1 = stop := by omega
    rw [hback] at hnext
    rw [slices, map_cons, zip_cons_cons, map_cons, map_cons, hnext,
      stage_eq hinput hle hbound (hno _ mem_cons_self)]

/-- The two loops do what the cut at `|` and the scan of each part do. -/
lemma recover_eq (tokens : List Token) :
    recover (tokens.map Token.val) = (stagesOf tokens).map scannedStage := by
  have hpieces : slices tokens 0 (hits isPipe tokens 0 tokens.length ++ [tokens.length]) =
      stagesOf tokens := by
    rw [slices_hits isPipe tokens (le_refl 0) (Nat.zero_add _), drop_zero, Nat.sub_self,
      take_zero, stagesOf]
    cases hs : tokens.splitOnP isPipe with
    | nil => exact absurd hs (splitOnP_ne_nil isPipe tokens)
    | cons piece pieces => exact hs.symm
  have hinput : (pipeCut (tokens.map Token.val)).input = tokens.map marked := by
    rw [pipeCut_eq]
  have hordered := ordered_hits isPipe tokens (le_refl 0) (Nat.zero_add tokens.length)
  have hstages := stages_eq hinput hordered (by
    rw [hpieces]
    exact fun piece hpiece => not_separator_of_mem_splitOnP _ tokens piece hpiece)
  rw [recover, ← hpieces, ← hstages, pipeCut_eq]
  rfl

/-! ## Derivations -/

/-- `WORD | ('<' | '>' | '>>') WORD`, with the texts of the words. -/
inductive Argument where
  | word (text : String)
  | input (file : String)
  | output (file : String) (append : Bool)
deriving DecidableEq, Repr

/-- `atomic ::= WORD (WORD | ('<' | '>' | '>>') WORD)*`. -/
structure Atomic where
  command : String
  arguments : List Argument
deriving DecidableEq, Repr

/-- `group ::= atomic ('|' atomic)*`. -/
structure Group where
  first : Atomic
  others : List Atomic
deriving DecidableEq, Repr

def Argument.tokens : Argument → List Token
  | .word text => [⟨.word, text⟩]
  | .input file => [⟨.less, "<"⟩, ⟨.word, file⟩]
  | .output file false => [⟨.greater, ">"⟩, ⟨.word, file⟩]
  | .output file true => [⟨.greater2, ">>"⟩, ⟨.word, file⟩]

def Atomic.tokens (a : Atomic) : List Token :=
  ⟨.word, a.command⟩ :: a.arguments.flatMap Argument.tokens

def Group.tokens (g : Group) : List Token :=
  g.first.tokens ++ g.others.flatMap fun a => ⟨.pipe, "|"⟩ :: a.tokens

/-- The word that goes into the argument vector. -/
def Argument.text? : Argument → Option String
  | .word text => some text
  | _ => none

def Argument.file? : Argument → Option String
  | .input file => some file
  | _ => none

/-- The output file, with its append flag. -/
def Argument.outFile? : Argument → Option (String × Bool)
  | .output file append => some (file, append)
  | _ => none

/-- What is to be recovered of a part of a pipeline. -/
def Atomic.scanned (a : Atomic) : Scanned :=
  .command (a.command :: a.arguments.filterMap Argument.text?)
    (a.arguments.filterMap Argument.file?) (a.arguments.filterMap Argument.outFile?)

/-- No word reads as an operator. -/
def Plain (tokens : List Token) : Prop := ∀ t ∈ tokens, t.type = .word → t.textType = .word

instance (tokens : List Token) : Decidable (Plain tokens) :=
  inferInstanceAs (Decidable (∀ t ∈ tokens, t.type = .word → t.textType = .word))

lemma Plain.of_append (h : Plain (l1 ++ l2)) : Plain l1 ∧ Plain l2 :=
  ⟨fun t ht => h t (mem_append_left l2 ht), fun t ht => h t (mem_append_right l1 ht)⟩

lemma Plain.of_cons (h : Plain (t :: l)) : Plain l :=
  fun u hu => h u (mem_cons_of_mem t hu)

lemma Plain.argument {text : String} (h : Plain (⟨.word, text⟩ :: l)) :
    ((⟨.word, text⟩ : Token).textType).isRedirection = false := by
  rw [h _ mem_cons_self rfl]
  rfl

lemma scanStage_arguments {l : List Argument} (h : Plain (l.flatMap Argument.tokens)) :
    scanStage Token.textType (l.flatMap Argument.tokens) =
      ⟨l.filterMap Argument.text?, l.filterMap Argument.file?, l.filterMap Argument.outFile?,
        true⟩ := by
  have hless : (⟨.less, "<"⟩ : Token).textType = .less := rfl
  have hgreater : (⟨.greater, ">"⟩ : Token).textType = .greater := rfl
  have hgreater2 : (⟨.greater2, ">>"⟩ : Token).textType = .greater2 := rfl
  induction l with
  | nil => rfl
  | cons x l ih =>
    rw [flatMap_cons] at h ⊢
    have hrest := ih h.of_append.2
    cases x with
    | word text =>
      rw [Argument.tokens, singleton_append] at h ⊢
      rw [scanStage_argument h.argument, hrest]
      rfl
    | input file =>
      rw [Argument.tokens]
      simp only [cons_append, nil_append, scanStage, hless, hrest, reduceCtorEq, if_true, if_false]
      rfl
    | output file append =>
      cases append with
      | false =>
        rw [Argument.tokens]
        simp only [cons_append, nil_append, scanStage, hgreater, hrest,
          reduceCtorEq, if_true, if_false]
        rfl
      | true =>
        rw [Argument.tokens]
        simp only [cons_append, nil_append, scanStage, hgreater2, hrest,
          reduceCtorEq, if_true, if_false]
        rfl

lemma scannedStage_atomic {a : Atomic} (h : Plain a.tokens) :
    scannedStage a.tokens = a.scanned := by
  rw [Atomic.tokens] at h ⊢
  rw [scannedStage, if_neg (cons_ne_nil _ _), scanStage_argument h.argument,
    scanStage_arguments h.of_cons]
  simp [finish, Atomic.scanned]

/-- A word or a redirection is no `|`. -/
lemma isPipe_atomic {a : Atomic} (h : Plain a.tokens) : ∀ t ∈ a.tokens, isPipe t = false := by
  intro t ht
  by_cases hw : t.type = .word
  · simp [isPipe, h t ht hw]
  rcases mem_cons.mp ht with rfl | ht
  · exact absurd rfl hw
  obtain ⟨x, -, hx⟩ := mem_flatMap.mp ht
  rcases x with text | file | ⟨file, _ | _⟩
  · rw [mem_singleton.mp hx] at hw
    exact absurd rfl hw
  all_goals
    rcases mem_pair.mp hx with rfl | rfl
    · decide
    · exact absurd rfl hw

lemma stagesOf_group {g : Group} (h : Plain g.tokens) :
    stagesOf g.tokens = g.first.tokens :: g.others.map Atomic.tokens := by
  obtain ⟨first, others⟩ := g
  rw [Group.tokens] at h ⊢
  dsimp only at h ⊢
  induction others generalizing first with
  | nil =>
    rw [flatMap_nil, append_nil] at h ⊢
    exact splitOnP_eq_singleton (isPipe_atomic h)
  | cons a others ih =>
    rw [flatMap_cons] at h ⊢
    have hfirst := h.of_append.1
    have hothers := ih a h.of_append.2.of_cons
    have hsplit := splitOnP_append_cons_of_forall_mem (isPipe_atomic hfirst) ⟨.pipe, "|"⟩ rfl
      (a.tokens ++ others.flatMap fun a => ⟨.pipe, "|"⟩ :: a.tokens)
    rw [map_cons, ← hothers]
    exact hsplit

/-- The derivation is recovered. -/
lemma recover_group {g : Group} (h : Plain g.tokens) :
    recover (g.tokens.map Token.val) = (g.first :: g.others).map Atomic.scanned := by
  rw [recover_eq, stagesOf_group h, ← map_cons, map_map]
  refine map_congr_left fun a ha => scannedStage_atomic ?_
  rcases mem_cons.mp ha with rfl | ha
  · exact h.of_append.1
  intro t ht
  refine h t (mem_append_right _ (mem_flatMap.mpr ⟨a, ha, ?_⟩))
  exact mem_cons_of_mem _ ht

/-! ## Every group has a derivation -/

section

open scoped Computability

variable {ts : List Token}

/-- A repetition of parts that have a derivation. -/
lemma exists_flatMap {X : Type} {toks : X → List Token} {l : Language Types}
    (hpart : ∀ us : List Token, (∀ t ∈ us, t.WellFormed) → us.map Token.type ∈ l → ∃ x, toks x = us)
    (hwf : ∀ t ∈ ts, t.WellFormed) (h : ts.map Token.type ∈ l∗) :
    ∃ xs : List X, xs.flatMap toks = ts := by
  obtain ⟨parts, hts, hparts⟩ := Language.mem_kstar.mp h
  induction parts generalizing ts with
  | nil => exact ⟨[], (map_eq_nil_iff.mp hts).symm⟩
  | cons part parts ih =>
    obtain ⟨us, vs, rfl, hus, hvs⟩ := map_eq_append_iff.mp hts
    have hfirst : us.map Token.type ∈ l := hus ▸ hparts part mem_cons_self
    have hothers : ∀ p ∈ parts, p ∈ l := fun p hp => hparts p (mem_cons_of_mem part hp)
    obtain ⟨x, hx⟩ := hpart us (fun t ht => hwf t (mem_append_left vs ht)) hfirst
    obtain ⟨xs, hxs⟩ := ih (fun t ht => hwf t (mem_append_right us ht))
      (hvs ▸ Language.mem_kstar.mpr ⟨parts, rfl, hothers⟩) hvs hothers
    exact ⟨x :: xs, by rw [flatMap_cons, hx, hxs]⟩

/-- A token of an operator is known by its type. -/
lemma eq_of_type {text : String} (hwf : t.WellFormed)
    (hty : t.type = ty) (htext : ty.text = some text) : t = ⟨ty, text⟩ := by
  obtain ⟨ty', val⟩ := t
  have hval : val = text := hwf text (by rw [show ty' = ty from hty, htext])
  rw [hval, show ty' = ty from hty]

lemma eq_word (h : ts.map Token.type ∈ Grammar.tok .word) : ∃ text, ts = [⟨.word, text⟩] := by
  obtain ⟨t, rfl, ht⟩ := map_eq_singleton_iff.mp (Grammar.mem_tok.mp h)
  exact ⟨t.val, by rw [← ht]⟩

/-- An operator with its target. -/
lemma eq_redirection {text : String} (hwf : ∀ t ∈ ts, t.WellFormed)
    (htext : ty.text = some text) (h : ts.map Token.type ∈ Grammar.tok ty * Grammar.tok .word) :
    ∃ file, ts = [⟨ty, text⟩, ⟨.word, file⟩] := by
  cases ts with
  | nil => exact absurd h Grammar.nil_notMem_tok_mul
  | cons t us =>
    obtain ⟨ht, hus⟩ := Grammar.cons_mem_tok_mul.mp h
    obtain ⟨file, rfl⟩ := eq_word hus
    exact ⟨file, by rw [eq_of_type (hwf t mem_cons_self) ht htext]⟩

lemma exists_argument (hwf : ∀ t ∈ ts, t.WellFormed)
    (h : ts.map Token.type ∈ Grammar.argument) : ∃ x : Argument, x.tokens = ts := by
  simp only [Grammar.argument, Grammar.redirection, add_mul, Language.mem_add] at h
  rcases h with h | (h | h) | h
  · obtain ⟨text, rfl⟩ := eq_word h
    exact ⟨.word text, rfl⟩
  · obtain ⟨file, rfl⟩ := eq_redirection hwf rfl h
    exact ⟨.input file, rfl⟩
  · obtain ⟨file, rfl⟩ := eq_redirection hwf rfl h
    exact ⟨.output file false, rfl⟩
  · obtain ⟨file, rfl⟩ := eq_redirection hwf rfl h
    exact ⟨.output file true, rfl⟩

lemma exists_atomic (hwf : ∀ t ∈ ts, t.WellFormed)
    (h : ts.map Token.type ∈ Grammar.atomic) : ∃ a : Atomic, a.tokens = ts := by
  cases ts with
  | nil => exact absurd h Grammar.nil_notMem_tok_mul
  | cons t ts =>
    obtain ⟨ht, hts⟩ := Grammar.cons_mem_tok_mul.mp h
    obtain ⟨xs, hxs⟩ := exists_flatMap (fun us hus => exists_argument hus)
      (fun u hu => hwf u (mem_cons_of_mem t hu)) hts
    refine ⟨⟨t.val, xs⟩, ?_⟩
    rw [Atomic.tokens, hxs, ← ht]

lemma exists_group (hwf : ∀ t ∈ ts, t.WellFormed)
    (h : ts.map Token.type ∈ Grammar.group) : ∃ g : Group, g.tokens = ts := by
  obtain ⟨first, hfirst, others, hothers, hts⟩ := Language.mem_mul.mp h
  obtain ⟨us, vs, rfl, rfl, rfl⟩ := map_eq_append_iff.mp hts.symm
  obtain ⟨a, ha⟩ := exists_atomic (fun t ht => hwf t (mem_append_left vs ht)) hfirst
  have hpart : ∀ us : List Token, (∀ t ∈ us, t.WellFormed) →
      us.map Token.type ∈ Grammar.tok .pipe * Grammar.atomic →
      ∃ x : Atomic, ⟨.pipe, "|"⟩ :: x.tokens = us := by
    intro us hus hmem
    cases us with
    | nil => exact absurd hmem Grammar.nil_notMem_tok_mul
    | cons t us =>
      obtain ⟨ht, hmem⟩ := Grammar.cons_mem_tok_mul.mp hmem
      obtain ⟨x, hx⟩ := exists_atomic (fun u hu => hus u (mem_cons_of_mem t hu)) hmem
      exact ⟨x, by rw [hx, eq_of_type (hus t mem_cons_self) ht rfl]⟩
  obtain ⟨as, has⟩ := exists_flatMap hpart (fun t ht => hwf t (mem_append_right us ht)) hothers
  exact ⟨⟨a, as⟩, by rw [Group.tokens, ha, has]⟩

/-! The tokens of a derivation are a group. -/

lemma flatMap_mem {X : Type} {toks : X → List Token} {l : Language Types}
    (h : ∀ x, (toks x).map Token.type ∈ l) (xs : List X) :
    (xs.flatMap toks).map Token.type ∈ l∗ := by
  refine Language.mem_kstar.mpr ⟨xs.map fun x => (toks x).map Token.type, ?_, ?_⟩
  · rw [map_flatMap, flatMap_def]
  intro part hpart
  obtain ⟨x, -, rfl⟩ := mem_map.mp hpart
  exact h x

lemma argument_mem (x : Argument) : x.tokens.map Token.type ∈ Grammar.argument := by
  simp only [Grammar.argument, Grammar.redirection, add_mul, Language.mem_add]
  rcases x with text | file | ⟨file, _ | _⟩ <;> simp [Argument.tokens]

lemma atomic_mem (a : Atomic) : a.tokens.map Token.type ∈ Grammar.atomic := by
  rw [Atomic.tokens, map_cons, Grammar.atomic, Grammar.cons_mem_tok_mul]
  exact ⟨rfl, flatMap_mem argument_mem a.arguments⟩

lemma group_mem (g : Group) : g.tokens.map Token.type ∈ Grammar.group := by
  rw [Group.tokens, map_append]
  refine Language.append_mem_mul (atomic_mem g.first) (flatMap_mem (fun a => ?_) g.others)
  rw [map_cons, Grammar.cons_mem_tok_mul]
  exact ⟨rfl, atomic_mem a⟩

end

/-- On the tokens of a pipeline of the grammar `execute` recovers the derivation: every
stage is scanned to its end and has an argument. -/
theorem recovers_derivation {tokens : List Token} (hwf : ∀ t ∈ tokens, t.WellFormed)
    (hplain : Plain tokens) (hgroup : tokens.map Token.type ∈ Grammar.group) :
    (∃ g : Group, g.tokens = tokens) ∧
    ∀ g : Group, g.tokens = tokens →
      recover (tokens.map Token.val) = (g.first :: g.others).map Atomic.scanned := by
  constructor
  · exact exists_group hwf hgroup
  · rintro g rfl
    exact recover_group hplain

/-- The derivation of `a < f b | c >> g`. -/
def twoStages : Group := ⟨⟨"a", [.input "f", .word "b"]⟩, [⟨"c", [.output "g" true]⟩]⟩

theorem recovers_derivation_two : twoStages.tokens.map Token.type ∈ Grammar.group ∧
    recover ["a", "<", "f", "b", "|", "c", ">>", "g"] =
      [.command ["a", "b"] ["f"] [], .command ["c"] [] [("g", true)]] := by
  have hwf : ∀ t ∈ twoStages.tokens, t.WellFormed := by
    simp [twoStages, Group.tokens, Atomic.tokens, Argument.tokens, Token.WellFormed, Types.text]
  have hgroup := group_mem twoStages
  exact ⟨hgroup, (recovers_derivation hwf (by decide) hgroup).2 twoStages rfl⟩

end CshellXv6.Shell.Pipeline
