import Mathlib.Data.List.TakeWhile
import CshellXv6.Shell.Execute
import CshellXv6.Shell.MainLoop
import CshellXv6.Shell.Quoting

/-! # The fixed-size arrays

On its way to the job table a command passes through seven arrays of fixed size: `input`
of `main`, `cmd`, `cmd_names` and `pids` of `execute`, and `cmd`, `prs` and `name` of a
job. None of the copies checks a bound. Here every store is written down with its index,
in program order, together with the rounds in which `main` stops in the middle of a
command because `input` is full.

The words of a line may have up to 4095 bytes and a line up to 1000 words. The arrays are
smaller than that. What a line has to keep to is `Command.Fits`, for every command that
is reached (`stores_in_range_iff`).
-/

namespace CshellXv6.Shell

open Lib List

/-! ## Stores -/

/-- The arrays. `cmd_names` is the array of rows, `row` the bytes of one of them;
`jobCmd`, `prs` and `name` are the fields of a job and of its processes. -/
inductive Buffer where
  | input | cmd | pids | cmd_names | row | jobCmd | prs | name
deriving DecidableEq, Repr

def Buffer.size : Buffer → Nat
  | .input => 256
  | .cmd => 1000
  | .pids => 256
  | .cmd_names => 256
  | .row => 256
  | .jobCmd => 1000
  | .prs => 200
  | .name => 256

/-- A store, or the end of a round of `main` in the middle of a command. -/
inductive Event where
  | store (b : Buffer) (index : Nat)
  | cut
deriving DecidableEq, Repr

/-- What the event should be: a store inside the array. -/
def Event.Sound : Event → Prop
  | .store b index => index < b.size
  | .cut => False

def AllSound (events : List Event) : Prop := ∀ e ∈ events, e.Sound

@[simp] lemma allSound_nil : AllSound [] := by simp [AllSound]

@[simp] lemma allSound_cons (e : Event) (es : List Event) :
    AllSound (e :: es) ↔ e.Sound ∧ AllSound es := by simp [AllSound]

@[simp] lemma allSound_append (es fs : List Event) :
    AllSound (es ++ fs) ↔ AllSound es ∧ AllSound fs := by
  simp [AllSound, or_imp, forall_and]

/-- Consecutive stores, `count` of them from `start` on. -/
def storeRange (b : Buffer) (start count : Nat) : List Event :=
  (List.range' start count).map (.store b)

variable {b : Buffer} {input rest : List Token}

lemma storeRange_sound {start count : Nat} (h : 0 < count) :
    AllSound (storeRange b start count) ↔ start + count ≤ b.size := by
  constructor
  · intro hall
    have hlast : .store b (start + (count - 1)) ∈ storeRange b start count :=
      mem_map_of_mem (mem_range'_1.mpr ⟨by omega, by omega⟩)
    have hin : start + (count - 1) < b.size := hall _ hlast
    omega
  · intro hle e he
    obtain ⟨index, hindex, rfl⟩ := mem_map.mp he
    have hlt := (mem_range'_1.mp hindex).2
    exact lt_of_lt_of_le hlt hle

/-- `strcpy`: the bytes and the NUL. -/
def strcpy (b : Buffer) (text : String) : List Event := storeRange b 0 (text.length + 1)

/-- `strcat` to a text of `length` bytes. -/
def strcat (b : Buffer) (length : Nat) (text : String) : List Event :=
  storeRange b length (text.length + 1)

@[simp] lemma strcpy_sound (b : Buffer) (text : String) :
    AllSound (strcpy b text) ↔ text.length < b.size := by
  rw [strcpy, storeRange_sound (by omega)]
  omega

@[simp] lemma strcat_sound (b : Buffer) (length : Nat) (text : String) :
    AllSound (strcat b length text) ↔ length + text.length < b.size := by
  rw [strcat, storeRange_sound (by omega)]
  omega

/-! ## The stores of `execute` -/

/-- What a call of `execute` meets: the outcomes of its system calls, the state of the
shell, and the texts that the rows of `cmd_names`, which are not initialised, hold. -/
structure Moment where
  env : Env
  sh : ShellState
  stack : Nat → String

/-- The loop that joins the words in `cmd`, of which `length` bytes are filled. -/
def joinStores : Nat → List Token → List Event
  | _, [] => []
  | length, [t] => strcat .cmd length t.val
  | length, t :: u :: ts =>
    strcat .cmd length t.val ++ strcat .cmd (length + t.val.length) " " ++
      joinStores (length + t.val.length + 1) (u :: ts)

/-- The words of a command as `cmd` holds them. -/
def cmdText (input : List Token) : String := " ".intercalate (input.map Token.val)

/-- The store of the name of a stage, which a stage comes to with its pipe open, its
redirections scanned, and a command word. -/
def nameStores (env : Env) (n c : Nat) (words : List Token) : List Event :=
  if words = [] ∨ (c + 1 < n ∧ env.stagePipe c = false) ∨
      (scanText words).scanned = false then []
  else
    match (scanText words).arg with
    | [] => []
    | cmd :: _ => .store .cmd_names c :: strcpy .row (commandName cmd)

/-- `pids[c] = pid`, which a stage without a command word skips. -/
def pidStores (c : Nat) (words : List Token) : List Event :=
  if (scanText words).arg = [] then [] else [.store .pids c]

/-- The loop over the stages, from stage `c` on. -/
def stageStores (env : Env) (n : Nat) (sync : PipeFds) :
    Nat → List (List Token) → Loop → List Event
  | _, [], _ => []
  | c, words :: stages, st =>
    nameStores env n c words ++
      match runStage env n sync c words st with
      | .error _ => []
      | .ok st' => pidStores c words ++ stageStores env n sync (c + 1) stages st'

/-- The text in row `c` of `cmd_names` after the loop. -/
def rowText (stack : Nat → String) (c : Nat) (words : List Token) : String :=
  match (scanText words).arg with
  | [] => stack c
  | cmd :: _ => commandName cmd

/-- The loop of `add_job` over the processes, from process `j` on. -/
def entryEvents (stack : Nat → String) : Nat → List (List Token) → List Event
  | _, [] => []
  | j, words :: stages =>
    .store .prs j :: strcpy .name (rowText stack j words) ++ entryEvents stack (j + 1) stages

/-- `execute`, with its call of `add_job` if it gets there. -/
def executeStores (m : Moment) (input : List Token) (bg : Bool) : List Event :=
  let synced := openSync m.env bg m.sh.fds
  let stages := stagesOf input
  joinStores 0 input ++ storeRange .pids 0 256 ++
    stageStores m.env stages.length synced.1 0 stages ⟨synced.2, 0, [], [], []⟩ ++
    match execute m.env input bg m.sh with
    | .failed _ _ _ => []
    | .launched _ _ => strcpy .jobCmd (cmdText input) ++ entryEvents m.stack 0 stages

/-! ## The stores of `main` -/

/-- The value that `execute` returns. -/
def Executed.flag : Executed → Bool
  | .failed _ _ _ => false
  | .launched _ _ => true

/-- The stores for one command. -/
def Command.stores (m : Moment) (c : Command) : List Event :=
  if c.builtin then [] else executeStores m c.input c.bg

/-- The value of `flag`; `world` says what the call meets after the commands before it. -/
def returned (world : List Command → Moment) (before : List Command) (c : Command) : Bool :=
  (execute (world before).env c.input c.bg (world before).sh).flag

/-- A round stops in the middle of a command. -/
def cutEvents (rest : List Token) : List Event :=
  if rest.head?.any (fun t => !separates Token.textType t) then [.cut] else []

/-- The loop of `main` over a line. -/
def lineEvents (world : List Command → Moment) (before : List Command) (curr : List Token) :
    List Event :=
  if _h : curr = [] then []
  else
    let input := (collectInput Token.textType 0 curr).1
    let rest := (collectInput Token.textType 0 curr).2
    let c : Command := ⟨input, separatorBg rest⟩
    -- the words and the terminating `NULL`
    storeRange .input 0 (input.length + 1) ++ cutEvents rest ++
      if input = [] then lineEvents world before (afterSeparator rest)
      else
        c.stores (world before) ++
          match verdict (returned world) before c with
          | some _ => []
          | none => lineEvents world (before ++ [c]) (afterSeparator rest)
termination_by curr.length
decreasing_by
  · exact afterSeparator_lt _h
  · exact afterSeparator_lt _h

/-! ## What a line has to keep to -/

/-- The stage is a syntax error: it is empty, or it ends with a redirection operator. -/
def malformed (words : List Token) : Bool :=
  words = [] || !(scanText words).scanned

/-- The name of the stage's command fits its row. -/
def NameFits (words : List Token) : Prop :=
  ∀ cmd ∈ (scanText words).arg.head?, (commandName cmd).length ≤ 255

/-- A command that fits the arrays. A builtin is only stored in `input`. For any other
command, the stages count up to the first syntax error; without one, the names of all
stages go into the job table, so there has to be one for each. -/
structure Command.Fits (c : Command) : Prop where
  words : c.input.length ≤ 255
  text : c.builtin = false → (cmdText c.input).length ≤ 999
  names : c.builtin = false →
    ∀ words ∈ (stagesOf c.input).takeWhile (fun words => !malformed words), NameFits words
  commands : c.builtin = false → (∀ words ∈ stagesOf c.input, malformed words = false) →
    ∀ words ∈ stagesOf c.input, (scanText words).arg ≠ []

/-- After the command the rest of the line is not looked at: it is `exit`, or a syntax
error in the foreground. -/
def Command.endsLine (c : Command) : Bool :=
  c.isExit || (!c.builtin && !c.bg && (stagesOf c.input).any malformed)

/-- The commands up to the first one that ends the line. -/
def reached : List Command → List Command
  | [] => []
  | c :: cs => c :: if c.endsLine then [] else reached cs

/-! ## The stages -/

lemma joinStores_sound {length : Nat} (h : input ≠ []) :
    AllSound (joinStores length input) ↔ length + (cmdText input).length < 1000 := by
  induction input generalizing length with
  | nil => exact absurd rfl h
  | cons t ts ih =>
    cases ts with
    | nil => simp [joinStores, cmdText, Buffer.size]
    | cons u ts =>
      have hblank : (" " : String).length = 1 := rfl
      have htext : (cmdText (t :: u :: ts)).length =
          t.val.length + 1 + (cmdText (u :: ts)).length := by
        simp only [cmdText, map_cons, String.intercalate_cons_cons, String.length_append, hblank]
      rw [joinStores, allSound_append, allSound_append, ih (by simp), strcat_sound,
        strcat_sound, htext, hblank, Buffer.size]
      omega

section Stages

variable {env : Env} {n c : Nat} {sync : PipeFds} {words : List Token} {st st' : Loop}

lemma malformed_eq_false :
    malformed words = false ↔ words ≠ [] ∧ (scanText words).scanned = true := by
  simp [malformed]

/-- A syntax error ends the loop. -/
lemma not_malformed_of_ok (h : runStage env n sync c words st = .ok st') :
    malformed words = false := by
  rw [malformed_eq_false]
  by_contra hbad
  by_cases hnil : words = []
  · simp [runStage, prepare, hnil] at h
  have hscan : (scanText words).scanned = false := by simpa [hnil] using hbad
  by_cases hpipe : c + 1 < n ∧ env.stagePipe c = false
  · simp [runStage, prepare, hnil, hpipe] at h
  · simp [runStage, prepare, hnil, hpipe, hscan] at h

/-- Nothing else does if every call succeeds. -/
lemma runStage_fine (h : malformed words = false) :
    ∃ st', runStage Env.fine n sync c words st = .ok st' := by
  obtain ⟨hnil, hscan⟩ := malformed_eq_false.mp h
  have hcase := runStage_case Env.fine n sync c words st
  have hlate : ¬ (words = [] ∨ PipeFails Env.fine n c) := by
    rintro (hwords | ⟨-, hpipe⟩)
    · exact hnil hwords
    · cases hpipe
  have hstart : Startable Env.fine c words :=
    ⟨hscan, fun _ _ => rfl, fun _ _ => rfl, rfl⟩
  cases hr : runStage Env.fine n sync c words st with
  | ok st' => exact ⟨st', rfl⟩
  | error e =>
    rw [hr] at hcase
    cases hcase with
    | early hearly => exact absurd hearly hlate
    | stopped _ _ _ _ hnot => exact absurd hstart hnot
    | forkFails _ hfork => cases hfork

lemma nameStores_sound (hc : c < 256) (h : malformed words = false → NameFits words) :
    AllSound (nameStores env n c words) := by
  unfold nameStores
  split
  · exact allSound_nil
  next hlate =>
    rw [not_or, not_or] at hlate
    have hfits := h (malformed_eq_false.mpr ⟨hlate.1, by simpa using hlate.2.2⟩)
    cases harg : (scanText words).arg with
    | nil => exact allSound_nil
    | cons cmd args =>
      have hlen := hfits cmd (by simp [harg])
      rw [allSound_cons, strcpy_sound]
      exact ⟨hc, Nat.lt_succ_of_le hlen⟩

lemma nameFits_of_nameStores (h : malformed words = false)
    (hsound : AllSound (nameStores Env.fine n c words)) : NameFits words := by
  obtain ⟨hnil, hscan⟩ := malformed_eq_false.mp h
  intro cmd hcmd
  cases harg : (scanText words).arg with
  | nil => simp [harg] at hcmd
  | cons cmd' args =>
    obtain rfl : cmd' = cmd := by simpa [harg] using hcmd
    have hstores : nameStores Env.fine n c words =
        .store .cmd_names c :: strcpy .row (commandName cmd') := by
      simp [nameStores, hnil, hscan, harg, Env.fine]
    rw [hstores, allSound_cons, strcpy_sound] at hsound
    exact Nat.le_of_lt_succ hsound.2

/-- Every stage that is passed takes a word and a `|`. -/
def load (stages : List (List Token)) : Nat := (stages.map List.length).sum + stages.length

lemma load_cons (words : List Token) (stages : List (List Token)) :
    load (words :: stages) = words.length + 1 + load stages := by
  simp only [load, map_cons, sum_cons, length_cons]
  omega

lemma load_stagesOf (input : List Token) : load (stagesOf input) = input.length + 1 :=
  sum_length_splitOnP _ input

variable {stages : List (List Token)}

lemma two_mul_length_le_load (h : ∀ words ∈ stages, words ≠ []) :
    2 * stages.length ≤ load stages := by
  induction stages with
  | nil => simp [load]
  | cons words stages ih =>
    have hwords := length_pos_of_ne_nil (h words mem_cons_self)
    have hrest := ih fun w hw => h w (mem_cons_of_mem words hw)
    rw [load_cons, length_cons]
    omega

/-- The loop over the stages stays inside `cmd_names` and `pids`. -/
lemma stageStores_sound (hload : 2 * c + load stages ≤ 256)
    (hnames : ∀ words ∈ stages.takeWhile (fun words => !malformed words), NameFits words) :
    AllSound (stageStores env n sync c stages st) := by
  induction stages generalizing c st with
  | nil => exact allSound_nil
  | cons words stages ih =>
    rw [load_cons] at hload
    rw [stageStores, allSound_append]
    constructor
    · refine nameStores_sound (by omega) fun hgood => hnames words ?_
      simp [hgood]
    cases hr : runStage env n sync c words st with
    | error e => exact allSound_nil
    | ok st' =>
      have hgood := not_malformed_of_ok hr
      have hwords : 0 < words.length :=
        length_pos_of_ne_nil (malformed_eq_false.mp hgood).1
      dsimp only
      rw [allSound_append]
      constructor
      · unfold pidStores
        split
        · exact allSound_nil
        simp only [allSound_cons, allSound_nil, and_true]
        show c < 256
        omega
      · refine ih (by omega) fun w hw => hnames w ?_
        rw [takeWhile_cons_of_pos (by simp [hgood])]
        exact mem_cons_of_mem words hw

/-- If every call succeeds, it comes to every stage before the first syntax error. -/
lemma nameFits_of_stageStores (hsound : AllSound (stageStores Env.fine n sync c stages st)) :
    ∀ words ∈ stages.takeWhile (fun words => !malformed words), NameFits words := by
  induction stages generalizing c st with
  | nil => simp
  | cons words stages ih =>
    intro w hw
    cases hbad : malformed words with
    | true => simp [hbad] at hw
    | false =>
      obtain ⟨st', hst'⟩ : ∃ st', runStage Env.fine n sync c words st = .ok st' :=
        runStage_fine hbad
      rw [stageStores, hst', allSound_append, allSound_append] at hsound
      rw [takeWhile_cons_of_pos (by simp [hbad])] at hw
      rcases mem_cons.mp hw with rfl | hw
      · exact nameFits_of_nameStores hbad hsound.1
      · exact ih hsound.2.2 w hw

lemma not_malformed_of_runStages (h : runStages env n sync c stages st = .ok st') :
    ∀ words ∈ stages, malformed words = false := by
  induction stages generalizing c st with
  | nil => simp
  | cons words stages ih =>
    rw [runStages] at h
    cases hr : runStage env n sync c words st with
    | error e => simp [hr] at h
    | ok st1 =>
      rw [hr] at h
      intro w hw
      rcases mem_cons.mp hw with rfl | hw
      · exact not_malformed_of_ok hr
      · exact ih h w hw

lemma runStages_fine (h : ∀ words ∈ stages, malformed words = false) :
    ∃ st', runStages Env.fine n sync c stages st = .ok st' := by
  induction stages generalizing c st with
  | nil => exact ⟨st, rfl⟩
  | cons words stages ih =>
    obtain ⟨st', hst'⟩ : ∃ st', runStage Env.fine n sync c words st = .ok st' :=
      runStage_fine (h words mem_cons_self)
    rw [runStages, hst']
    exact ih fun w hw => h w (mem_cons_of_mem words hw)

variable {stack : Nat → String} {j : Nat}

/-- `add_job` stays inside `prs` and inside every `name`. -/
lemma entryEvents_sound (hlen : j + stages.length ≤ 200)
    (hargs : ∀ words ∈ stages, (scanText words).arg ≠ [])
    (hnames : ∀ words ∈ stages, NameFits words) : AllSound (entryEvents stack j stages) := by
  induction stages generalizing j with
  | nil => exact allSound_nil
  | cons words stages ih =>
    rw [length_cons] at hlen
    rw [entryEvents, cons_append, allSound_cons, allSound_append, strcpy_sound]
    refine ⟨?_, ?_, ?_⟩
    · show j < 200
      omega
    · cases harg : (scanText words).arg with
      | nil => exact absurd harg (hargs words mem_cons_self)
      | cons cmd args =>
        have hfits := hnames words mem_cons_self cmd (by simp [harg])
        rw [rowText, harg]
        exact Nat.lt_succ_of_le hfits
    · exact ih (by omega) (fun w hw => hargs w (mem_cons_of_mem words hw))
        fun w hw => hnames w (mem_cons_of_mem words hw)

/-- A row that no stage has filled is copied as it is found. -/
lemma arg_of_entryEvents (hstack : ∀ c, 256 ≤ (stack c).length)
    (hsound : AllSound (entryEvents stack j stages)) :
    ∀ words ∈ stages, (scanText words).arg ≠ [] := by
  induction stages generalizing j with
  | nil => simp
  | cons words stages ih =>
    rw [entryEvents, cons_append, allSound_cons, allSound_append, strcpy_sound] at hsound
    intro w hw
    rcases mem_cons.mp hw with rfl | hw
    · intro harg
      have hlt := hsound.2.1
      rw [rowText, harg] at hlt
      exact absurd hlt (Nat.not_lt.mpr (hstack j))
    · exact ih hsound.2.2 w hw

end Stages

/-! ## One command -/

section Command

variable {env : Env} {input : List Token} {bg : Bool} {sh sh' : ShellState} {c : Command}
  {procs : List Forked}

lemma not_malformed_of_launched (hne : input ≠ [])
    (h : execute env input bg sh = .launched sh' procs) :
    ∀ words ∈ stagesOf input, malformed words = false := by
  rw [execute, if_neg hne] at h
  dsimp only at h
  split at h
  · cases h
  next hr => exact not_malformed_of_runStages hr

lemma launched_fine (h : ∀ words ∈ stagesOf input, malformed words = false) :
    ∃ sh' procs, execute Env.fine input bg sh = .launched sh' procs := by
  by_cases hnil : input = []
  · exact ⟨sh, [], by rw [execute, if_pos hnil]⟩
  rw [execute, if_neg hnil]
  dsimp only
  obtain ⟨st', hst'⟩ : ∃ st', runStages Env.fine (stagesOf input).length
      (openSync Env.fine bg sh.fds).1 0 (stagesOf input)
      ⟨(openSync Env.fine bg sh.fds).2, 0, [], [], []⟩ = .ok st' := runStages_fine h
  rw [hst']
  exact ⟨_, _, rfl⟩

/-- A command that fits stays inside the arrays, whatever the call meets. -/
lemma Command.Fits.stores_sound (h : c.Fits) (hne : c.input ≠ []) (m : Moment) :
    AllSound (c.stores m) := by
  unfold Command.stores
  cases hb : c.builtin with
  | true => exact allSound_nil
  | false =>
    have htext := h.text hb
    have hwords := h.words
    have hload := load_stagesOf c.input
    simp only [Bool.false_eq_true, if_false, executeStores, allSound_append]
    refine ⟨⟨⟨?_, ?_⟩, ?_⟩, ?_⟩
    · rw [joinStores_sound hne]
      omega
    · rw [storeRange_sound (by omega)]
      exact le_rfl
    · exact stageStores_sound (by omega) (h.names hb)
    cases hexec : execute m.env c.input c.bg m.sh with
    | failed e sh' procs => exact allSound_nil
    | launched sh' procs =>
      have hgood := not_malformed_of_launched hne hexec
      have hnames := h.names hb
      rw [takeWhile_eq_self_iff.mpr (by simpa using hgood)] at hnames
      -- two words a stage: a command and a `|`, or two
      have hstages : 2 * (stagesOf c.input).length ≤ load (stagesOf c.input) := by
        refine two_mul_length_le_load fun words hw => ?_
        exact (malformed_eq_false.mp (hgood words hw)).1
      dsimp only
      rw [allSound_append, strcpy_sound]
      constructor
      · show (cmdText c.input).length < 1000
        omega
      · exact entryEvents_sound (by omega) (h.commands hb hgood) hnames

/-- The call in which everything succeeds and the stack is full of old text. -/
def Moment.fine : Moment :=
  ⟨Env.fine, ShellState.start, fun _ => String.ofList (List.replicate 256 'x')⟩

lemma Moment.length_stack_fine (c : Nat) : (Moment.fine.stack c).length = 256 := by
  show (String.ofList (List.replicate 256 'x')).length = 256
  rw [String.length_ofList, length_replicate]

/-- In that call nothing is spared. -/
lemma Command.fits_of_stores (hne : c.input ≠ []) (hlen : c.input.length ≤ 255)
    (hsound : AllSound (c.stores Moment.fine)) : c.Fits := by
  cases hb : c.builtin with
  | true => exact ⟨hlen, by simp [hb], by simp [hb], by simp [hb]⟩
  | false =>
    simp only [Command.stores, hb, Bool.false_eq_true, if_false, executeStores,
      allSound_append] at hsound
    obtain ⟨⟨⟨hjoin, -⟩, hstages⟩, hjob⟩ := hsound
    refine ⟨hlen, fun _ => ?_, fun _ => nameFits_of_stageStores hstages, fun _ hgood => ?_⟩
    · rw [joinStores_sound hne] at hjoin
      omega
    obtain ⟨sh', procs, hexec⟩ : ∃ sh' procs,
        execute Moment.fine.env c.input c.bg Moment.fine.sh = .launched sh' procs :=
      launched_fine hgood
    rw [hexec, allSound_append] at hjob
    exact arg_of_entryEvents (fun e => (Moment.length_stack_fine e).ge) hjob.2

/-- A command that ends the line does so in every call. -/
lemma verdict_of_endsLine (world : List Command → Moment) (before : List Command)
    (hne : c.input ≠ []) (h : c.endsLine = true) : verdict (returned world) before c ≠ none := by
  unfold verdict
  by_cases hexit : c.isExit = true
  · simp [hexit]
  have hrest : (c.builtin = false ∧ c.bg = false) ∧ ∃ words ∈ stagesOf c.input,
      malformed words = true := by
    simpa [Command.endsLine, hexit] using h
  obtain ⟨⟨hb, hbg⟩, words, hwords, hbad⟩ := hrest
  have hflag : returned world before c = false := by
    unfold returned
    cases hexec : execute (world before).env c.input c.bg (world before).sh with
    | failed e sh' procs => rfl
    | launched sh' procs =>
      have hgood := not_malformed_of_launched hne hexec words hwords
      rw [hbad] at hgood
      cases hgood
  simp [hexit, hb, hbg, hflag]

/-- If every call succeeds, no other command does. -/
lemma verdict_fine (before : List Command) (h : c.endsLine = false) :
    verdict (returned fun _ => Moment.fine) before c = none := by
  have hparts : c.isExit = false ∧ (c.builtin = false → c.bg = false →
      ∀ words ∈ stagesOf c.input, malformed words = false) := by
    simpa [Command.endsLine] using h
  unfold verdict
  rw [if_neg (by simp [hparts.1])]
  cases hb : c.builtin with
  | true => simp
  | false =>
    cases hbg : c.bg with
    | true => simp
    | false =>
      obtain ⟨sh', procs, hexec⟩ : ∃ sh' procs,
          execute Moment.fine.env c.input c.bg Moment.fine.sh = .launched sh' procs :=
        launched_fine (hparts.2 hb hbg)
      simp [returned, hexec, Executed.flag]

end Command

/-! ## The line -/

/-- The commands of a line one after the other: each fits `input`, and its stores are in
range. -/
def RunsSound (world : List Command → Moment) : List Command → List Command → Prop
  | _, [] => True
  | before, c :: cs =>
    c.input.length ≤ 255 ∧ AllSound (c.stores (world before)) ∧
      (verdict (returned world) before c = none → RunsSound world (before ++ [c]) cs)

lemma input_sound (count : Nat) : AllSound (storeRange .input 0 (count + 1)) ↔ count ≤ 255 := by
  rw [storeRange_sound (by omega), Buffer.size]
  omega

lemma cutEvents_sound (h : ∀ u us, rest = u :: us → separates Token.textType u = true) :
    AllSound (cutEvents rest) := by
  cases rest with
  | nil => exact allSound_nil
  | cons u us =>
    have hu := h u us rfl
    simp [cutEvents, hu]

variable {world : List Command → Moment} {before cs : List Command}

/-- One round, for a run that fits `input`. -/
lemma lineEvents_round {run rest : List Token}
    (hrun : ∀ t ∈ run, separates Token.textType t = false) (hlen : run.length ≤ 255)
    (hne : run ++ rest ≠ []) (hrest : ∀ u us, rest = u :: us → separates Token.textType u = true) :
    AllSound (lineEvents world before (run ++ rest)) ↔
      if run = [] then AllSound (lineEvents world before (afterSeparator rest))
      else
        AllSound (Command.stores (world before) ⟨run, separatorBg rest⟩) ∧
          (verdict (returned world) before ⟨run, separatorBg rest⟩ = none →
            AllSound (lineEvents world (before ++ [⟨run, separatorBg rest⟩])
              (afterSeparator rest))) := by
  rw [lineEvents, dif_neg hne, collectInput_run hrun (by omega) hrest]
  dsimp only
  rw [allSound_append, allSound_append, input_sound]
  have hcut := cutEvents_sound hrest
  split
  · simp [hlen, hcut]
  rw [allSound_append]
  cases verdict (returned world) before ⟨run, separatorBg rest⟩ with
  | none | some ending => simp [hlen, hcut]

/-- A longer run overflows `input`. -/
lemma not_allSound_of_long {run rest : List Token}
    (hrun : ∀ t ∈ run, separates Token.textType t = false) (hlen : 256 ≤ run.length) :
    ¬ AllSound (lineEvents world before (run ++ rest)) := by
  have hne : run ++ rest ≠ [] := by
    intro hnil
    have hrun := (append_eq_nil_iff.mp hnil).1
    simp [hrun] at hlen
  have hfull : (collectInput Token.textType 0 (run ++ rest)).1.length = 256 - 0 :=
    collectInput_full hrun (Nat.zero_le 256) (by omega)
  rw [lineEvents, dif_neg hne]
  dsimp only
  rw [allSound_append, allSound_append, input_sound, hfull]
  rintro ⟨⟨hle, -⟩, -⟩
  omega

lemma lineEvents_sound_iff (world : List Command → Moment) (before : List Command)
    (tokens : List Token) :
    AllSound (lineEvents world before tokens) ↔
      RunsSound world before (runsBy Token.textType tokens) := by
  induction hn : tokens.length using Nat.strong_induction_on generalizing tokens before with
  | _ n ih =>
    by_cases hnil : tokens = []
    · subst hnil
      rw [lineEvents, dif_pos rfl]
      simp [runsBy, RunsSound]
    obtain ⟨run, rest, rfl, hrun, hrest, hruns⟩ := exists_first_run tokens
    rw [hruns]
    have hlt := hn ▸ length_afterSeparator_lt hnil hrest
    by_cases hlen : run.length ≤ 255
    · rw [lineEvents_round hrun hlen hnil hrest]
      by_cases hempty : run = []
      · rw [if_pos hempty, handOver, if_pos hempty]
        exact ih _ hlt before _ rfl
      · rw [if_neg hempty, handOver, if_neg hempty, RunsSound, ih _ hlt _ _ rfl]
        simp only [hlen, true_and]
    have hempty : run ≠ [] := by
      rintro rfl
      simp at hlen
    rw [handOver, if_neg hempty, RunsSound]
    constructor
    · intro hsound
      exact absurd hsound (not_allSound_of_long hrun (by omega))
    · intro hsound
      exact absurd hsound.1 hlen

lemma RunsSound.of_fits (hne : ∀ c ∈ cs, c.input ≠ [])
    (h : ∀ c ∈ reached cs, c.Fits) (before : List Command) : RunsSound world before cs := by
  induction cs generalizing before with
  | nil => trivial
  | cons c cs ih =>
    have hfits := h c mem_cons_self
    have hcne := hne c mem_cons_self
    refine ⟨hfits.words, hfits.stores_sound hcne (world before), fun hgoes => ?_⟩
    cases hends : c.endsLine with
    | true => exact absurd hgoes (verdict_of_endsLine world before hcne hends)
    | false =>
      refine ih (fun d hd => hne d (mem_cons_of_mem c hd)) (fun d hd => h d ?_) _
      rw [reached, if_neg (by simp [hends])]
      exact mem_cons_of_mem c hd

lemma RunsSound.fits (hne : ∀ c ∈ cs, c.input ≠ [])
    (h : RunsSound (fun _ => Moment.fine) before cs) : ∀ c ∈ reached cs, c.Fits := by
  induction cs generalizing before with
  | nil => simp [reached]
  | cons c cs ih =>
    obtain ⟨hlen, hsound, hlater⟩ := h
    intro d hd
    rw [reached] at hd
    rcases mem_cons.mp hd with rfl | hd
    · exact Command.fits_of_stores (hne d mem_cons_self) hlen hsound
    cases hends : c.endsLine with
    | true => simp [hends] at hd
    | false =>
      rw [if_neg (by simp [hends])] at hd
      exact ih (fun d hd => hne d (mem_cons_of_mem c hd)) (hlater (verdict_fine before hends)) d hd

/-- In every course of events all stores of a line are in range and no command is cut,
if and only if each command fits that is reached when nothing fails. -/
theorem stores_in_range_iff (tokens : List Token) :
    (∀ world, ∀ e ∈ lineEvents world [] tokens, e.Sound) ↔
      ∀ c ∈ reached (runsBy Token.textType tokens), c.Fits := by
  have hne : ∀ c ∈ runsBy Token.textType tokens, c.input ≠ [] := by
    intro c hc
    simpa using (mem_filter.mp hc).2
  constructor
  · intro h
    have hsound : AllSound (lineEvents (fun _ => Moment.fine) [] tokens) := h _
    rw [lineEvents_sound_iff] at hsound
    exact hsound.fits hne
  intro h world
  have hruns : RunsSound world [] (runsBy Token.textType tokens) := RunsSound.of_fits hne h []
  rw [← lineEvents_sound_iff] at hruns
  exact hruns

/-! ## A line within the documented limits -/

/-- The line `a a … a`, with a space after each word. -/
def repeatedWord (count : Nat) : List Char := (List.replicate count ['a', ' ']).flatten

lemma convert_repeatedWord (count : Nat) :
    convert (repeatedWord count) = .ok (List.replicate count ⟨.word, "a"⟩) := by
  induction count with
  | zero => simp [repeatedWord, convert]
  | succ count ih =>
    have hline : repeatedWord (count + 1) = 'a' :: ' ' :: repeatedWord count := rfl
    have hstop : wordLoop false false (' ' :: repeatedWord count) =
        ⟨[], some (' ' :: repeatedWord count)⟩ :=
      wordLoop_of_separated (by simp [Separated, isspace])
    have hword : wordLoop false false ('a' :: ' ' :: repeatedWord count) =
        ⟨['a'], some (' ' :: repeatedWord count)⟩ := by
      rw [wordLoop, hstop]
      simp [WordScan.push, isspace, isoperator]
    have hblank : convert (' ' :: repeatedWord count) = convert (repeatedWord count) := by
      rw [convert]
      simp [isspace]
    rw [hline, convert_word (by decide) (by decide) hword (by simp), hblank, ih]
    rfl

lemma check_replicate (count : Nat) : check (List.replicate count ⟨.word, "a"⟩) = true := by
  have hloop : checkLoop (List.replicate count ⟨.word, "a"⟩) = true := by
    induction count with
    | zero => rfl
    | succ count ih => simpa [replicate_succ, checkLoop] using ih
  cases count with
  | zero => rfl
  | succ count => simpa [replicate_succ, check, checkLoop] using hloop

/-- A command of 256 words of one byte: the terminating `NULL` is stored behind `input`. -/
theorem null_behind_input : convert (repeatedWord 256) = .ok (List.replicate 256 ⟨.word, "a"⟩) ∧
    check (List.replicate 256 ⟨.word, "a"⟩) = true ∧
    (∀ t ∈ List.replicate 256 (⟨.word, "a"⟩ : Token), t.val.length < 4096) ∧
    ∀ world, Event.store .input 256 ∈ lineEvents world [] (List.replicate 256 ⟨.word, "a"⟩) ∧
      ¬ (Event.store .input 256).Sound := by
  refine ⟨convert_repeatedWord 256, check_replicate 256, ?_, fun world => ⟨?_, ?_⟩⟩
  · intro t ht
    rw [eq_of_mem_replicate ht]
    decide
  · have hne : List.replicate 256 (⟨.word, "a"⟩ : Token) ≠ [] := by
      rw [Ne, replicate_eq_nil_iff]
      omega
    have hfull : (collectInput Token.textType 0
        (List.replicate 256 (⟨.word, "a"⟩ : Token) ++ [])).1.length = 256 - 0 := by
      refine collectInput_full (fun t ht => ?_) (Nat.zero_le 256) (by rw [length_replicate])
      rw [eq_of_mem_replicate ht]
      decide
    rw [append_nil] at hfull
    rw [lineEvents, dif_neg hne]
    dsimp only
    rw [hfull]
    refine mem_append_left _ (mem_append_left _ (mem_map_of_mem ?_))
    exact mem_range'_1.mpr ⟨by omega, by omega⟩
  · exact Nat.lt_irrefl 256

end CshellXv6.Shell
