import CshellXv6.Lib.Lists
import CshellXv6.Shell.Lexer

/-! # The structure given to a line

After `convert` and `check` the token types are dropped: `main` cuts the line
into commands, and `execute` cuts a command into stages and a stage into
arguments and redirections, each time by comparing texts with `strcmp`. All
three passes are written here over a classification `cls` of tokens. The code
is their instance at `Token.textType`, what `strcmp` sees; the instance at
`Token.type` is the structure that the lexer's types call for.

The two agree exactly on the lines in which no quoted or escaped word reads
as an operator where a pass looks at it (`structure_typed_iff`).
-/

namespace CshellXv6.Shell

open List

/-- The operator that a token's text spells, by `strcmp`. -/
def Token.textType (t : Token) : Types :=
  if t.val = ";" then .colon
  else if t.val = "&" then .and
  else if t.val = "|" then .pipe
  else if t.val = "<" then .less
  else if t.val = ">" then .greater
  else if t.val = ">>" then .greater2
  else .word

/-- The redirection operators. -/
def Types.isRedirection (ty : Types) : Bool :=
  ty = .less || ty = .greater || ty = .greater2

/-- One round of `main`'s loop: the words in `input`, and `bg`. -/
structure Command where
  input : List Token
  bg : Bool
deriving DecidableEq, Repr

section Passes

variable (cls : Token → Types)

/-! ## `main`: commands -/

/-- The inner `while` of `main`: `input` fills up to `;`, `&`, the end of the
line or 256 words. The result is `input` and where `curr` stands. -/
def collectInput : Nat → List Token → List Token × List Token
  | _, [] => ([], [])
  | count, t :: ts =>
    if cls t ≠ .colon ∧ cls t ≠ .and ∧ count < 256 then
      (t :: (collectInput (count + 1) ts).1, (collectInput (count + 1) ts).2)
    else ([], t :: ts)

/-- `if (count != 0)`: only a nonempty `input` is handed over. -/
def handOver (input : List Token) (bg : Bool) (later : List Command) : List Command :=
  if input = [] then later else ⟨input, bg⟩ :: later

/-- The loop moves on: what it collected and what it left make up the line. -/
lemma collectInput_append (count : Nat) (ts : List Token) :
    (collectInput cls count ts).1 ++ (collectInput cls count ts).2 = ts := by
  induction ts generalizing count with
  | nil => rfl
  | cons t ts ih =>
    rw [collectInput]
    split
    · simpa using ih (count + 1)
    · rfl

/-- A token that is no separator is collected when the count allows it. -/
lemma collectInput_rest_lt (t : Token) (ts : List Token) (u : Token) (us : List Token)
    (h : (collectInput cls 0 (t :: ts)).2 = u :: us)
    (hu : cls u ≠ .colon) (hu' : cls u ≠ .and) : us.length + 1 ≤ ts.length := by
  rw [collectInput] at h
  split at h
  · have := congrArg List.length (collectInput_append cls (0 + 1) ts)
    rw [length_append, h] at this
    simp only [length_cons] at this
    omega
  next hno =>
    cases h
    exact absurd ⟨hu, hu', by omega⟩ hno

/-- The outer `while` of `main`: the commands of a line, in order. -/
def splitLine (curr : List Token) : List Command :=
  match curr with
  | [] => []
  | t :: ts =>
    match _h : (collectInput cls 0 (t :: ts)).2 with
    | [] => handOver (collectInput cls 0 (t :: ts)).1 false []
    | u :: us =>
      if cls u = .and then handOver (collectInput cls 0 (t :: ts)).1 true (splitLine us)
      else if cls u = .colon then handOver (collectInput cls 0 (t :: ts)).1 false (splitLine us)
      -- `input` is full: the next round starts at the same token
      else handOver (collectInput cls 0 (t :: ts)).1 false (splitLine (u :: us))
termination_by curr.length
decreasing_by
  · have := congrArg List.length (collectInput_append cls 0 (t :: ts))
    rw [length_append, _h] at this
    simp only [length_cons] at this ⊢
    omega
  · have := congrArg List.length (collectInput_append cls 0 (t :: ts))
    rw [length_append, _h] at this
    simp only [length_cons] at this ⊢
    omega
  · have := collectInput_rest_lt cls t ts u us _h (by assumption) (by assumption)
    simp only [length_cons]
    omega

/-! ## `execute`: stages and redirections -/

/-- What the redirection scan of `execute` fills in for one stage: `arg`,
`files`, `out_files` with the append flag of `out`, and whether the scan ran
to the end (`false` is the `syntax error` return after a dangling operator). -/
structure Stage where
  arg : List String
  files : List String
  out_files : List (String × Bool)
  scanned : Bool
deriving DecidableEq, Repr

/-- The redirection scan over one stage. -/
def scanStage : List Token → Stage
  | [] => ⟨[], [], [], true⟩
  | t :: ts =>
    if cls t = .less then
      match ts with
      | [] => ⟨[], [], [], false⟩
      | f :: ts' => { scanStage ts' with files := f.val :: (scanStage ts').files }
    else if cls t = .greater then
      match ts with
      | [] => ⟨[], [], [], false⟩
      | f :: ts' => { scanStage ts' with out_files := (f.val, false) :: (scanStage ts').out_files }
    else if cls t = .greater2 then
      match ts with
      | [] => ⟨[], [], [], false⟩
      | f :: ts' => { scanStage ts' with out_files := (f.val, true) :: (scanStage ts').out_files }
    else { scanStage ts with arg := t.val :: (scanStage ts).arg }

/-- The commands that `main` runs itself. -/
def builtins : List String :=
  ["hop", "reveal", "peek", "locate", "activities", "resume", "exit", "ping", "spy", "snoop", "cd"]

/-- `main`'s test of `input[0]`. -/
def Command.builtin (c : Command) : Bool :=
  match c.input with
  | [] => false
  | t :: _ => builtins.contains t.val

/-- A command as it is delivered: a builtin gets its words as they are, any
other command is cut into stages at `|` and each stage is scanned. -/
inductive Delivered where
  | builtin (input : List String) (bg : Bool)
  | pipeline (stages : List Stage) (bg : Bool)
deriving DecidableEq, Repr

/-- What `main` and `execute` make of one command. -/
def deliver (c : Command) : Delivered :=
  if c.builtin then .builtin (c.input.map Token.val) c.bg
  else .pipeline ((c.input.splitOnP (fun t => cls t = .pipe)).map (scanStage cls)) c.bg

/-- The structure of a whole line. -/
def lineStructure (tokens : List Token) : List Delivered :=
  (splitLine cls tokens).map (deliver cls)

end Passes

/-- The scan of a stage as `execute` does it, by what `strcmp` sees. -/
abbrev scanText (words : List Token) : Stage := scanStage Token.textType words

/-- The structure the code computes: every pass compares texts. -/
def mainStructure (tokens : List Token) : List Delivered :=
  lineStructure Token.textType tokens

/-- The structure by the types that the lexer assigned. -/
def typedStructure (tokens : List Token) : List Delivered :=
  lineStructure Token.type tokens

/-! ## Commands and the line they come from -/

variable {c : Command} {t : Token} {ts : List Token}

section Commands

variable {cls cls' : Token → Types} {input us : List Token} {bg : Bool} {later : List Command}
  {u : Token}

lemma mem_handOver (h : c ∈ handOver input bg later) : c.input = input ∨ c ∈ later := by
  unfold handOver at h
  split at h
  · exact .inr h
  rcases mem_cons.mp h with rfl | h
  · exact .inl rfl
  · exact .inr h

lemma mem_handOver_of_later (h : c ∈ later) : c ∈ handOver input bg later := by
  unfold handOver
  split
  · exact h
  · exact mem_cons_of_mem _ h

lemma exists_mem_handOver (h : t ∈ input) : ∃ c ∈ handOver input bg later, t ∈ c.input := by
  unfold handOver
  split
  next hnil => simp [hnil] at h
  · exact ⟨⟨input, bg⟩, by simp, h⟩

/-- What `main` collects holds no separator. -/
lemma collectInput_not_separator (count : Nat) (ts : List Token) :
    ∀ t ∈ (collectInput cls count ts).1, cls t ≠ .colon ∧ cls t ≠ .and := by
  induction ts generalizing count with
  | nil => simp [collectInput]
  | cons u ts ih =>
    intro t ht
    rw [collectInput] at ht
    split at ht
    next hu =>
      rcases mem_cons.mp ht with rfl | ht
      · exact ⟨hu.1, hu.2.1⟩
      · exact ih (count + 1) t ht
    · simp at ht

/-- An induction rule for the rounds of `main`'s loop: one collects a command, and the
next starts behind the separator, or where `input` was full. -/
lemma splitLine_induction {motive : List Token → List Command → Prop} (nil : motive [] [])
    (round : ∀ t ts bg sep rest, (collectInput cls 0 (t :: ts)).1 ++ (sep ++ rest) = t :: ts →
      (∀ u ∈ sep, cls u = .colon ∨ cls u = .and) → motive rest (splitLine cls rest) →
      motive (t :: ts) (handOver (collectInput cls 0 (t :: ts)).1 bg (splitLine cls rest)))
    (ts : List Token) : motive ts (splitLine cls ts) := by
  have hline : ∀ {t ts left}, (collectInput cls 0 (t :: ts)).2 = left →
      (collectInput cls 0 (t :: ts)).1 ++ left = t :: ts := by
    rintro t ts left rfl
    exact collectInput_append cls 0 _
  fun_induction splitLine cls ts with
  | case1 => exact nil
  | case2 t ts hrest =>
    have hround := round t ts false [] [] (hline hrest) (by simp)
    rw [splitLine] at hround
    exact hround nil
  | case3 t ts u us hrest hu ih => exact round t ts true [u] us (hline hrest) (by simp [hu]) ih
  | case4 t ts u us hrest _ hu ih => exact round t ts false [u] us (hline hrest) (by simp [hu]) ih
  | case5 t ts u us hrest _ _ ih => exact round t ts false [] _ (hline hrest) (by simp) ih

/-- A rule for facts about every command of a line: they only have to be
shown for what the inner loop collects from a suffix of the line. -/
lemma splitLine_forall (P : List Token → Prop) (ts : List Token)
    (h : ∀ a u us, ts = a ++ u :: us → P (collectInput cls 0 (u :: us)).1) :
    ∀ c ∈ splitLine cls ts, P c.input := by
  refine splitLine_induction (motive := fun ts cs => (∀ a u us, ts = a ++ u :: us →
    P (collectInput cls 0 (u :: us)).1) → ∀ c ∈ cs, P c.input) (by simp) ?_ ts h
  intro t ts bg sep rest hline _ ih h c hc
  rcases mem_handOver hc with hc | hc
  · rw [hc]
    exact h [] t ts rfl
  -- a suffix of what the round leaves is a suffix of the line
  refine ih ?_ c hc
  rintro a u us rfl
  refine h ((collectInput cls 0 (t :: ts)).1 ++ (sep ++ a)) u us (hline.symm.trans ?_)
  simp only [append_assoc]

/-- No command holds a separator. -/
lemma splitLine_not_separator (ts : List Token) :
    ∀ c ∈ splitLine cls ts, ∀ t ∈ c.input, cls t ≠ .colon ∧ cls t ≠ .and :=
  splitLine_forall (fun input => ∀ t ∈ input, cls t ≠ .colon ∧ cls t ≠ .and) ts
    (fun _ _ _ _ => collectInput_not_separator 0 _)

/-- A command is a contiguous part of the line. -/
lemma splitLine_infix (ts : List Token) :
    ∀ c ∈ splitLine cls ts, ∃ a b, ts = a ++ (c.input ++ b) := by
  refine splitLine_forall (fun input => ∃ a b, ts = a ++ (input ++ b)) ts ?_
  rintro a u us rfl
  exact ⟨a, (collectInput cls 0 (u :: us)).2, by rw [collectInput_append]⟩

/-- Every token that is no separator ends up in a command. -/
lemma exists_command_of_mem (ts : List Token) (t : Token) (ht : t ∈ ts)
    (hc : cls t ≠ .colon) (ha : cls t ≠ .and) : ∃ c ∈ splitLine cls ts, t ∈ c.input := by
  refine splitLine_induction (motive := fun ts cs => t ∈ ts → ∃ c ∈ cs, t ∈ c.input)
    (by simp) ?_ ts ht
  intro u us bg sep rest hline hsep ih ht
  -- the token is collected in this round, or ends it, or is among what is left
  rw [← hline, mem_append, mem_append] at ht
  rcases ht with h | h | h
  · exact exists_mem_handOver h
  · rcases hsep t h with h | h
    · exact absurd h hc
    · exact absurd h ha
  · obtain ⟨c, hcm, htc⟩ := ih h
    exact ⟨c, mem_handOver_of_later hcm, htc⟩

/-- The inner loop only asks whether a token is a separator. -/
lemma collectInput_congr (count : Nat) (ts : List Token)
    (h : ∀ t ∈ ts, (cls t = .colon ↔ cls' t = .colon) ∧ (cls t = .and ↔ cls' t = .and)) :
    collectInput cls count ts = collectInput cls' count ts := by
  induction ts generalizing count with
  | nil => rfl
  | cons t ts ih =>
    have ht := h t (by simp)
    have hts := ih (count + 1) (fun u hu => h u (by simp [hu]))
    simp only [collectInput, ne_eq, ht.1, ht.2, hts]

/-- One round of `main`'s loop, by what the inner loop leaves. -/
lemma splitLine_nil_rest (h : (collectInput cls 0 (t :: ts)).2 = []) :
    splitLine cls (t :: ts) = handOver (collectInput cls 0 (t :: ts)).1 false [] := by
  rw [splitLine]
  split
  · rfl
  next h' => rw [h] at h'; cases h'

lemma splitLine_cons_rest (h : (collectInput cls 0 (t :: ts)).2 = u :: us) :
    splitLine cls (t :: ts) =
      if cls u = .and then handOver (collectInput cls 0 (t :: ts)).1 true (splitLine cls us)
      else if cls u = .colon then
        handOver (collectInput cls 0 (t :: ts)).1 false (splitLine cls us)
      else handOver (collectInput cls 0 (t :: ts)).1 false (splitLine cls (u :: us)) := by
  rw [splitLine]
  split
  next h' => rw [h] at h'; cases h'
  next u' us' h' =>
    rw [h] at h'
    cases h'
    rfl

/-- So does the whole cut into commands. -/
lemma splitLine_congr (ts : List Token)
    (h : ∀ t ∈ ts, (cls t = .colon ↔ cls' t = .colon) ∧ (cls t = .and ↔ cls' t = .and)) :
    splitLine cls ts = splitLine cls' ts := by
  -- what a round leaves consists of tokens of the line
  have hmem : ∀ {t : Token} {ts rest : List Token}, (collectInput cls 0 (t :: ts)).2 = rest →
      ∀ v ∈ rest, v ∈ t :: ts := by
    intro t ts rest hrest v hv
    rw [← collectInput_append cls 0 (t :: ts), hrest]
    exact mem_append_right _ hv
  fun_induction splitLine cls ts with
  | case1 => rw [splitLine]
  | case2 t ts hrest =>
    have hc := collectInput_congr 0 (t :: ts) h
    rw [splitLine_nil_rest (hc ▸ hrest), hc]
  | case3 t ts u us hrest hu ih =>
    have hc := collectInput_congr 0 (t :: ts) h
    have hu' := (h u (hmem hrest u (by simp))).2.mp hu
    rw [splitLine_cons_rest (hc ▸ hrest), if_pos hu', hc,
      ih (fun v hv => h v (hmem hrest v (by simp [hv])))]
  | case4 t ts u us hrest hu hu2 ih =>
    have hc := collectInput_congr 0 (t :: ts) h
    have hsep := h u (hmem hrest u (by simp))
    rw [splitLine_cons_rest (hc ▸ hrest), if_neg (fun hx => hu (hsep.2.mpr hx)),
      if_pos (hsep.1.mp hu2), hc, ih (fun v hv => h v (hmem hrest v (by simp [hv])))]
  | case5 t ts u us hrest hu hu2 ih =>
    have hc := collectInput_congr 0 (t :: ts) h
    have hsep := h u (hmem hrest u (by simp))
    have hrest' : (collectInput cls' 0 (t :: ts)).2 = u :: us := hc ▸ hrest
    rw [ih (fun v hv => h v (hmem hrest v hv)), splitLine_cons_rest hrest',
      if_neg (fun hx => hu (hsep.2.mpr hx)), if_neg (fun hx => hu2 (hsep.1.mpr hx)), hc]

end Commands

/-! ## Stages and the words they hold -/

/-- All words a stage delivers, as arguments or as redirection targets. -/
def Stage.words (st : Stage) : List String :=
  st.arg ++ st.files ++ st.out_files.map Prod.fst

section Stages

variable {cls : Token → Types} {f : Token}

/-- A redirection operator with its target, then the rest of the stage. -/
lemma scanStage_redirection (h : (cls t).isRedirection) :
    (scanStage cls (t :: f :: ts)).arg = (scanStage cls ts).arg ∧
      ∀ s, s ∈ (scanStage cls (t :: f :: ts)).words ↔ s = f.val ∨ s ∈ (scanStage cls ts).words := by
  rcases hc : cls t <;> simp [hc, Types.isRedirection] at h <;>
    simp [scanStage, hc, Stage.words] <;> intro s <;> simp only [or_left_comm]

/-- Any other token is an argument. -/
lemma scanStage_argument (h : (cls t).isRedirection = false) :
    scanStage cls (t :: ts) = { scanStage cls ts with arg := t.val :: (scanStage cls ts).arg } := by
  rw [scanStage.eq_def]
  rcases hc : cls t <;> simp [hc, Types.isRedirection] at h <;> simp [hc]

/-- A dangling redirection operator delivers nothing. -/
lemma scanStage_dangling (h : (cls t).isRedirection) : scanStage cls [t] = ⟨[], [], [], false⟩ := by
  rcases hc : cls t <;> simp [hc, Types.isRedirection] at h <;> simp [scanStage, hc]

/-- The scan takes a token at a time, or an operator with its target: an
induction rule with these cases. -/
lemma stage_induction (cls : Token → Types) {motive : List Token → Prop} (nil : motive [])
    (dangling : ∀ t, (cls t).isRedirection → motive [t])
    (redirection : ∀ t f ts, (cls t).isRedirection → motive ts → motive (t :: f :: ts))
    (argument : ∀ t ts, (cls t).isRedirection = false → motive ts → motive (t :: ts))
    (ts : List Token) : motive ts := by
  induction hn : ts.length using Nat.strong_induction_on generalizing ts with
  | _ n ih =>
    cases ts with
    | nil => exact nil
    | cons t ts =>
      simp only [length_cons] at hn
      by_cases ht : (cls t).isRedirection = true
      · cases ts with
        | nil => exact dangling t ht
        | cons f ts =>
          simp only [length_cons] at hn
          exact redirection t f ts ht (ih ts.length (by omega) ts rfl)
      · exact argument t ts (by simpa using ht) (ih ts.length (by omega) ts rfl)

/-- Every argument is a token that is no redirection operator. -/
lemma mem_scanStage_arg (ts : List Token) :
    ∀ s ∈ (scanStage cls ts).arg, ∃ t ∈ ts, t.val = s ∧ (cls t).isRedirection = false := by
  induction ts using stage_induction cls with
  | nil => simp [scanStage]
  | dangling t ht => simp [scanStage_dangling ht]
  | redirection t f ts ht ih =>
    intro s hs
    rw [(scanStage_redirection ht).1] at hs
    obtain ⟨u, hu, h⟩ := ih s hs
    exact ⟨u, by simp [hu], h⟩
  | argument t ts ht ih =>
    intro s hs
    rw [scanStage_argument ht] at hs
    rcases mem_cons.mp hs with rfl | hs
    · exact ⟨t, by simp, rfl, ht⟩
    · obtain ⟨u, hu, h⟩ := ih s hs
      exact ⟨u, by simp [hu], h⟩

/-- Every delivered word is the text of a token of the stage. -/
lemma mem_scanStage_words (ts : List Token) :
    ∀ s ∈ (scanStage cls ts).words, ∃ t ∈ ts, t.val = s := by
  induction ts using stage_induction cls with
  | nil => simp [scanStage, Stage.words]
  | dangling t ht => simp [scanStage_dangling ht, Stage.words]
  | redirection t f ts ht ih =>
    intro s hs
    rcases ((scanStage_redirection ht).2 s).mp hs with rfl | hs
    · exact ⟨f, by simp, rfl⟩
    · obtain ⟨u, hu, h⟩ := ih s hs
      exact ⟨u, by simp [hu], h⟩
  | argument t ts ht ih =>
    intro s hs
    rw [scanStage_argument ht] at hs
    rcases mem_cons.mp hs with rfl | hs
    · exact ⟨t, by simp, rfl⟩
    · obtain ⟨u, hu, h⟩ := ih s hs
      exact ⟨u, by simp [hu], h⟩

/-- Every token that is no redirection operator is delivered. -/
lemma mem_words_of_not_redirection (ts : List Token) :
    ∀ t ∈ ts, (cls t).isRedirection = false → t.val ∈ (scanStage cls ts).words := by
  induction ts using stage_induction cls with
  | nil => simp
  | dangling t ht =>
    intro u hu hur
    rw [mem_singleton.mp hu, ht] at hur
    cases hur
  | redirection t f ts ht ih =>
    intro u hu hur
    rw [(scanStage_redirection ht).2]
    rcases mem_cons.mp hu with rfl | hu
    · rw [ht] at hur; cases hur
    rcases mem_cons.mp hu with rfl | hu
    · exact .inl rfl
    · exact .inr (ih u hu hur)
  | argument t ts ht ih =>
    intro u hu hur
    rw [scanStage_argument ht]
    rcases mem_cons.mp hu with rfl | hu
    · exact mem_cons_self
    · exact mem_cons_of_mem _ (ih u hu hur)

/-- A token that is no operator, and does not stand right after a redirection
operator, is an argument. -/
lemma mem_arg_of_position (ts : List Token) :
    ∀ (pre : List Token) (t : Token) (post : List Token), ts = pre ++ t :: post →
      (cls t).isRedirection = false →
      (∀ u, pre.getLast? = some u → (cls u).isRedirection = false) →
      t.val ∈ (scanStage cls ts).arg := by
  induction ts using stage_induction cls with
  | nil => intro pre t post h; simp at h
  | dangling t ht =>
    intro pre u post h hu
    cases pre with
    | nil =>
      simp only [nil_append, List.cons.injEq] at h
      rw [← h.1, ht] at hu
      cases hu
    | cons x pre => simp at h
  | redirection t f ts ht ih =>
    intro pre u post h hu hlast
    rw [(scanStage_redirection ht).1]
    rcases pre with _ | ⟨x, _ | ⟨y, pre⟩⟩
    · simp only [nil_append, List.cons.injEq] at h
      rw [← h.1, ht] at hu
      cases hu
    · simp only [cons_append, nil_append, List.cons.injEq] at h
      have := hlast x rfl
      rw [← h.1, ht] at this
      cases this
    · simp only [cons_append, List.cons.injEq] at h
      exact ih pre u post h.2.2 hu
        (fun v hv => hlast v (mem_getLast?_cons (mem_getLast?_cons hv)))
  | argument t ts ht ih =>
    intro pre u post h hu hlast
    rw [scanStage_argument ht]
    cases pre with
    | nil =>
      simp only [nil_append, List.cons.injEq] at h
      simp [h.1]
    | cons x pre =>
      simp only [cons_append, List.cons.injEq] at h
      exact mem_cons_of_mem _
        (ih pre u post h.2 hu (fun v hv => hlast v (mem_getLast?_cons hv)))

end Stages

/-! ## Where text and types agree -/

/-- On an operator of the lexer, the text spells the type. -/
lemma Token.WellFormed.textType_eq (h : t.WellFormed) (hw : t.type ≠ .word) :
    t.textType = t.type := by
  obtain ⟨ty, val⟩ := t
  cases ty with
  | word => exact absurd rfl hw
  | pipe | and | colon | less | greater | greater2 =>
    have hval := h _ rfl
    simp only at hval
    subst hval
    rfl

lemma checkLoop_tail (h : checkLoop (t :: ts) = true) : checkLoop ts = true := by
  rw [checkLoop.eq_def] at h
  cases ts with
  | nil => rfl
  | cons u us =>
    simp only at h
    split at h
    · split at h
      · cases h
      · exact h
    split at h
    · exact h
    split at h
    · cases h
    · exact h

/-- In an accepted line an operator is followed by a word, if by anything. -/
lemma checkLoop_operator (pre : List Token) (u v : Token) (post : List Token)
    (h : checkLoop (pre ++ u :: v :: post) = true) (hu : u.type ≠ .word) : v.type = .word := by
  induction pre with
  | nil =>
    rw [nil_append, checkLoop.eq_def] at h
    by_contra hv
    rcases hty : u.type <;> simp_all
  | cons x pre ih => exact ih (checkLoop_tail h)

lemma check_operator (ts pre : List Token) (u v : Token) (post : List Token) (h : check ts = true)
    (hts : ts = pre ++ u :: v :: post) (hu : u.type ≠ .word) : v.type = .word := by
  subst hts
  cases pre with
  | nil =>
    -- the first token of an accepted line is a word, hence no operator
    have : u.type = .word := by
      by_contra hw
      simp [check, hw] at h
    exact absurd this hu
  | cons x pre =>
    have hloop : checkLoop (pre ++ u :: v :: post) = true := by
      rw [cons_append, check] at h
      split at h
      · cases h
      · exact h
    exact checkLoop_operator pre u v post hloop hu

lemma check_redirection (ts pre : List Token) (u v : Token) (post : List Token)
    (h : check ts = true) (hts : ts = pre ++ u :: v :: post) (hu : u.type.isRedirection) :
    v.type = .word := by
  refine check_operator ts pre u v post h hts fun hw => ?_
  rw [hw] at hu
  cases hu

/-- Text and types give one stage the same shape when every word that reads
as a redirection operator stands right after a real one. -/
lemma scanStage_text_eq_typed (ts : List Token) (hwf : ∀ t ∈ ts, t.WellFormed)
    (hadj : ∀ (pre : List Token) (u v : Token) (post : List Token),
      ts = pre ++ u :: v :: post → u.type.isRedirection → v.type = .word)
    (hpos : ∀ (pre : List Token) (t : Token) (post : List Token),
      ts = pre ++ t :: post → t.type = .word → t.textType.isRedirection →
        ∃ u, pre.getLast? = some u ∧ u.type.isRedirection) :
    scanStage Token.textType ts = scanStage Token.type ts := by
  induction ts using stage_induction Token.type with
  | nil => rfl
  | dangling t ht =>
    have hw : t.type ≠ .word := by rintro hw; simp [hw, Types.isRedirection] at ht
    have htext := (hwf t (by simp)).textType_eq hw
    rw [scanStage_dangling ht, scanStage_dangling (htext ▸ ht)]
  | redirection t f ts ht ih =>
    have hw : t.type ≠ .word := by rintro hw; simp [hw, Types.isRedirection] at ht
    have htext := (hwf t (by simp)).textType_eq hw
    have hf : f.type = .word := hadj [] t f ts rfl ht
    have hts := ih (fun u hu => hwf u (by simp [hu]))
      (fun pre u v post h => hadj (t :: f :: pre) u v post (by simp [h]))
      (by
        intro pre u post h hu hur
        obtain ⟨w, hlast, hwr⟩ := hpos (t :: f :: pre) u post (by simp [h]) hu hur
        cases pre with
        | nil =>
          -- the target is a word, so it is not the operator in front
          simp only [List.getLast?_cons_cons, List.getLast?_singleton, Option.some.injEq] at hlast
          simp [← hlast, hf, Types.isRedirection] at hwr
        | cons x pre => exact ⟨w, by simpa using hlast, hwr⟩)
    rw [scanStage.eq_def, scanStage.eq_def Token.type]
    simp only [htext, hts]
    rcases hty : t.type <;> simp [hty, Types.isRedirection] at ht ⊢
  | argument t ts ht ih =>
    have htext : t.textType.isRedirection = false := by
      by_cases hw : t.type = .word
      · by_contra hr
        obtain ⟨u, hu, -⟩ := hpos [] t ts rfl hw (by simpa using hr)
        cases hu
      · rw [(hwf t (by simp)).textType_eq hw]
        exact ht
    have hts := ih (fun u hu => hwf u (by simp [hu]))
      (fun pre u v post h => hadj (t :: pre) u v post (by simp [h]))
      (by
        intro pre u post h hu hur
        obtain ⟨w, hlast, hwr⟩ := hpos (t :: pre) u post (by simp [h]) hu hur
        cases pre with
        | nil =>
          simp only [List.getLast?_singleton, Option.some.injEq] at hlast
          rw [hlast, hwr] at ht
          cases ht
        | cons x pre => exact ⟨w, by simpa using hlast, hwr⟩)
    rw [scanStage_argument ht, scanStage_argument htext, hts]

/-- A word at its place in a command is harmless when no pass that looks at
it takes it for an operator: it spells none; or the command is a builtin and
it does not spell a separator; or it spells a redirection operator and is
itself the target of one. -/
def Harmless (c : Command) (pre : List Token) (t : Token) : Prop :=
  t.textType = .word ∨ (c.builtin = true ∧ t.textType ≠ .colon ∧ t.textType ≠ .and) ∨
    (t.textType.isRedirection ∧ ∃ u, pre.getLast? = some u ∧ u.type.isRedirection)

/-- Every word of the line is harmless at its place. -/
def HarmlessLine (tokens : List Token) : Prop :=
  ∀ c ∈ splitLine Token.type tokens, ∀ pre t post, c.input = pre ++ t :: post →
    t.type = .word → Harmless c pre t

variable {tokens : List Token}

/-- In a harmless line a token is a separator by text exactly when it is
one by type. -/
lemma HarmlessLine.separator_iff (h : HarmlessLine tokens) (hwf : ∀ t ∈ tokens, t.WellFormed) :
    ∀ t ∈ tokens, (t.textType = .colon ↔ t.type = .colon) ∧
      (t.textType = .and ↔ t.type = .and) := by
  intro t ht
  by_cases hw : t.type = .word
  · have hcolon : t.type ≠ .colon := by simp [hw]
    have hand : t.type ≠ .and := by simp [hw]
    obtain ⟨c, hc, htc⟩ := exists_command_of_mem tokens t ht hcolon hand
    obtain ⟨pre, post, hsplit⟩ := append_of_mem htc
    have hsep : t.textType ≠ .colon ∧ t.textType ≠ .and := by
      rcases h c hc pre t post hsplit hw with hword | ⟨-, h1, h2⟩ | ⟨hr, -⟩
      · simp [hword]
      · exact ⟨h1, h2⟩
      · rcases hty : t.textType <;> simp [hty, Types.isRedirection] at hr ⊢
    simp [hsep, hcolon, hand]
  · rw [(hwf t ht).textType_eq hw]
    simp

/-- In a harmless command that is no builtin, text and types deliver the
same pipeline. -/
lemma HarmlessLine.deliver_eq (h : HarmlessLine tokens) (hwf : ∀ t ∈ tokens, t.WellFormed)
    (hk : check tokens = true) (hc : c ∈ splitLine Token.type tokens) :
    deliver Token.textType c = deliver Token.type c := by
  unfold deliver
  split
  · rfl
  next hb =>
  obtain ⟨a, b, htokens⟩ := splitLine_infix tokens c hc
  have hmem : ∀ t ∈ c.input, t ∈ tokens := by
    intro t ht
    rw [htokens]
    simp [ht]
  -- outside builtins, a word that spells an operator follows a redirection
  have hword : ∀ (pre : List Token) (t : Token) (post : List Token),
      c.input = pre ++ t :: post → t.type = .word → t.textType = .word ∨
        (t.textType.isRedirection ∧ ∃ u, pre.getLast? = some u ∧ u.type.isRedirection) := by
    intro pre t post hsplit hw
    rcases h c hc pre t post hsplit hw with h1 | ⟨h2, -⟩ | h3
    · exact .inl h1
    · exact absurd h2 hb
    · exact .inr h3
  have hpipe : ∀ t ∈ c.input, t.textType = .pipe ↔ t.type = .pipe := by
    intro t ht
    by_cases hw : t.type = .word
    · obtain ⟨pre, post, hsplit⟩ := append_of_mem ht
      rcases hword pre t post hsplit hw with h1 | ⟨h2, -⟩
      · simp [h1, hw]
      · rcases hty : t.textType <;> simp [hty, Types.isRedirection] at h2 <;> simp [hw]
    · rw [(hwf t (hmem t ht)).textType_eq hw]
  have hstages : c.input.splitOnP (fun t => t.textType = .pipe) =
      c.input.splitOnP (fun t => t.type = .pipe) :=
    Lib.splitOnP_congr (fun t ht => by simp [hpipe t ht])
  rw [hstages]
  congr 1
  refine map_congr_left ?_
  intro st hst
  obtain ⟨x, y, hinput, hx⟩ := Lib.eq_append_of_mem_splitOnP _ _ _ hst
  refine scanStage_text_eq_typed st ?_ ?_ ?_
  · intro t ht
    exact hwf t (hmem t (by rw [hinput]; simp [ht]))
  · intro pre u v post hst' hu
    exact check_redirection tokens (a ++ (x ++ pre)) u v (post ++ (y ++ b)) hk
      (by rw [htokens, hinput, hst']; simp) hu
  intro pre t post hst' hw hr
  have hsplit : c.input = (x ++ pre) ++ t :: (post ++ y) := by rw [hinput, hst']; simp
  rcases hword _ t _ hsplit hw with h1 | ⟨-, u, hu, hur⟩
  · simp [h1, Types.isRedirection] at hr
  refine ⟨u, ?_, hur⟩
  rw [List.getLast?_append] at hu
  cases hlast : pre.getLast? with
  | some z => simpa [hlast] using hu
  | none =>
    -- then the operator would be the `|` in front of the stage
    exfalso
    simp only [hlast, Option.none_or] at hu
    rcases hx with rfl | ⟨x', z, rfl, hz⟩
    · simp at hu
    simp only [List.getLast?_append, List.getLast?_singleton, Option.some_or,
      Option.some.injEq] at hu
    simp only [decide_eq_true_eq] at hz
    simp [← hu, hz, Types.isRedirection] at hur

/-- What is left once the separators are excluded. -/
lemma word_or_redirection {ty : Types} (hcolon : ty ≠ .colon) (hand : ty ≠ .and)
    (hpipe : ty ≠ .pipe) : ty = .word ∨ ty.isRedirection := by
  cases ty <;> simp [Types.isRedirection] at hcolon hand hpipe ⊢

/-- The words of a command delivered by text never spell a separator, and
outside builtins they never spell `|`; an argument of a stage spells no
operator at all. -/
lemma deliver_text_words (hc : c ∈ splitLine Token.textType tokens) :
    match deliver Token.textType c with
    | .builtin input _ => ∀ t : Token, t.val ∈ input → t.textType ≠ .colon ∧ t.textType ≠ .and
    | .pipeline stages _ => ∀ st ∈ stages, ∀ t : Token,
        (t.val ∈ st.words → t.textType = .word ∨ t.textType.isRedirection) ∧
        (t.val ∈ st.arg → t.textType = .word) := by
  have hsep := splitLine_not_separator tokens c hc
  -- `strcmp` sees texts only
  have htext : ∀ t u : Token, t.val = u.val → t.textType = u.textType := by
    intro t u h
    simp only [Token.textType, h]
  unfold deliver
  split
  next input bg heq =>
    split at heq
    · cases heq
      intro t ht
      obtain ⟨u, hu, huv⟩ := mem_map.mp ht
      rw [← htext u t huv]
      exact hsep u hu
    · cases heq
  next stages bg heq =>
    split at heq
    · cases heq
    cases heq
    intro st hst t
    obtain ⟨piece, hpiece, rfl⟩ := mem_map.mp hst
    have hnopipe := Lib.not_separator_of_mem_splitOnP _ _ _ hpiece
    obtain ⟨x, y, hinput, -⟩ := Lib.eq_append_of_mem_splitOnP _ _ _ hpiece
    have hkind : ∀ u ∈ piece, u.textType = .word ∨ u.textType.isRedirection := by
      intro u hu
      have hmem : u ∈ c.input := by rw [hinput]; simp [hu]
      have hpipe := of_decide_eq_false (hnopipe u hu)
      exact word_or_redirection (hsep u hmem).1 (hsep u hmem).2 hpipe
    constructor
    · intro ht
      obtain ⟨u, hu, huv⟩ := mem_scanStage_words piece _ ht
      rw [← htext u t huv]
      exact hkind u hu
    intro ht
    obtain ⟨u, hu, huv, hur⟩ := mem_scanStage_arg piece _ ht
    rw [← htext u t huv]
    rcases hkind u hu with h | h
    · exact h
    · rw [h] at hur; cases hur

/-- **The structure follows the types exactly on harmless lines.** For every
line that `convert` tokenizes and `check` accepts, the structure computed
from texts is the structure given by the token types if and only if every
word of the line is harmless at its place. -/
theorem structure_typed_iff (line : List Char) (tokens : List Token)
    (hline : convert line = .ok tokens) (hk : check tokens = true) :
    mainStructure tokens = typedStructure tokens ↔ HarmlessLine tokens := by
  have hwf := convert_wellFormed line tokens hline
  constructor
  · intro heq c hc pre t post hsplit hw
    -- the same command, as some command of the text structure
    have hmem : deliver Token.type c ∈ mainStructure tokens := by
      rw [heq]
      exact mem_map.mpr ⟨c, hc, rfl⟩
    obtain ⟨c', hc', hdel⟩ := mem_map.mp hmem
    have hwords := deliver_text_words hc'
    rw [hdel] at hwords
    unfold deliver at hwords
    by_cases hb : c.builtin = true
    · simp only [hb, if_true] at hwords
      exact .inr (.inl ⟨hb, hwords t (by simp [hsplit])⟩)
    simp only [hb, Bool.false_eq_true, if_false] at hwords
    obtain ⟨st, hst, pre', post', rfl, hpre'⟩ :=
      Lib.exists_piece_of_append (fun u : Token => decide (u.type = .pipe)) pre t post
        (by simp [hw])
    rw [← hsplit] at hst
    have hstage := hwords _ (mem_map.mpr ⟨_, hst, rfl⟩) t
    have htr : t.type.isRedirection = false := by simp [hw, Types.isRedirection]
    rcases hstage.1 (mem_words_of_not_redirection _ t (by simp) htr) with hword | hred
    · exact .inl hword
    refine .inr (.inr ⟨hred, ?_⟩)
    -- an argument would spell no operator, so `t` follows a redirection
    by_contra hno
    have harg := mem_arg_of_position (pre' ++ t :: post') pre' t post' rfl htr (by
      intro u hu
      rcases hpre' with rfl | hlast
      · cases hu
      · by_contra hur
        exact hno ⟨u, hlast ▸ hu, by simpa using hur⟩)
    rw [hstage.2 harg] at hred
    cases hred
  · intro h
    have hsplit : splitLine Token.textType tokens = splitLine Token.type tokens :=
      splitLine_congr tokens (h.separator_iff hwf)
    unfold mainStructure typedStructure lineStructure
    rw [hsplit]
    exact map_congr_left (fun c hc => h.deliver_eq hwf hk hc)

/-- The theorem at `cat < '<' 'a b'`: the quoted `<` is a redirection target. -/
theorem structure_typed_iff_quoted_target :
    mainStructure [⟨.word, "cat"⟩, ⟨.less, "<"⟩, ⟨.word, "<"⟩, ⟨.word, "a b"⟩] =
        typedStructure [⟨.word, "cat"⟩, ⟨.less, "<"⟩, ⟨.word, "<"⟩, ⟨.word, "a b"⟩] ↔
      HarmlessLine [⟨.word, "cat"⟩, ⟨.less, "<"⟩, ⟨.word, "<"⟩, ⟨.word, "a b"⟩] :=
  structure_typed_iff "cat < \x27<\x27 \x27a b\x27".toList _ (by decide +kernel) (by decide)

/-- On `echo ";" hi` the quoted word cuts the line into the commands `echo`
and `hi`; by its types the line is one command with three words. -/
theorem quoted_semicolon_splits :
    convert "echo \x22;\x22 hi".toList =
        .ok [⟨.word, "echo"⟩, ⟨.word, ";"⟩, ⟨.word, "hi"⟩] ∧
      check [⟨.word, "echo"⟩, ⟨.word, ";"⟩, ⟨.word, "hi"⟩] = true ∧
      mainStructure [⟨.word, "echo"⟩, ⟨.word, ";"⟩, ⟨.word, "hi"⟩] =
        [.pipeline [⟨["echo"], [], [], true⟩] false, .pipeline [⟨["hi"], [], [], true⟩] false] ∧
      typedStructure [⟨.word, "echo"⟩, ⟨.word, ";"⟩, ⟨.word, "hi"⟩] =
        [.pipeline [⟨["echo", ";", "hi"], [], [], true⟩] false] ∧
      mainStructure [⟨.word, "echo"⟩, ⟨.word, ";"⟩, ⟨.word, "hi"⟩] ≠
        typedStructure [⟨.word, "echo"⟩, ⟨.word, ";"⟩, ⟨.word, "hi"⟩] := by
  decide +kernel

end CshellXv6.Shell
