import CshellXv6.Lib.Scanning

/-! # The lexer of the shell

`convert` of `c-shell/src/lexer.c`, together with the grammar check of
`c-shell/src/grammar.c`. A line is the list of its bytes before the
terminating NUL; a byte is a `Char`, since the code only compares bytes with
fixed ASCII characters.

The one array of `convert` is `buffer[4096]`. Its writes are not bounds
checked, so a word of 4096 bytes or more is undefined behaviour; the model
reports it as `Converted.overflow` instead of guessing an outcome.
-/

namespace CshellXv6.Shell

open Lib List

/-- `Types` of `lexer.h`. -/
inductive Types where
  | word | pipe | and | colon | less | greater | greater2
deriving DecidableEq, Repr

/-- A token: its type and its text. -/
structure Token where
  type : Types
  val : String
deriving DecidableEq, Repr

/-- The bytes that `strchr("|&<>;", *p)` finds. -/
def isoperator (c : Char) : Bool :=
  c = '|' || c = '&' || c = '<' || c = '>' || c = ';'

/-- What the word loop leaves behind: the bytes it stored in `buffer`, and
where `p` stands afterwards. `rest = none` is the early return with
`invalid syntax`: a trailing backslash or an open quote. -/
structure WordScan where
  buffer : List Char
  rest : Option (List Char)
deriving DecidableEq, Repr

/-- `buffer[b++] = c`, seen from the front of the buffer. -/
def WordScan.push (c : Char) (w : WordScan) : WordScan :=
  { w with buffer := c :: w.buffer }

/-- The inner `while` of `convert`, with its two quote flags. -/
def wordLoop (singleq doubleq : Bool) : List Char → WordScan
  | [] => ⟨[], if singleq || doubleq then none else some []⟩
  | c :: p =>
    if !singleq && !doubleq && (isspace c || isoperator c) then ⟨[], some (c :: p)⟩
    else if c = '\x5c' && !singleq then
      match p with
      | [] => ⟨[], none⟩
      | d :: p' =>
        -- inside double quotes a backslash only escapes `"` and itself
        if doubleq && !(d = '\x22' || d = '\x5c') then
          ((wordLoop singleq doubleq p').push d).push '\x5c'
        else (wordLoop singleq doubleq p').push d
    else if c = '\x27' then
      if !doubleq then wordLoop (!singleq) doubleq p
      else (wordLoop singleq doubleq p).push c
    else if c = '\x22' then
      if !singleq then wordLoop singleq (!doubleq) p
      else (wordLoop singleq doubleq p).push c
    else (wordLoop singleq doubleq p).push c

/-- Every outcome of `convert`. -/
inductive Converted where
  | ok (tokens : List Token)
  | invalid
  | overflow
deriving DecidableEq, Repr

/-- `add` at the head side of the token list: the token found first stands
in front of those found later. -/
def Converted.add (t : Token) : Converted → Converted
  | .ok ts => .ok (t :: ts)
  | .invalid => .invalid
  | .overflow => .overflow

@[simp] lemma WordScan.push_rest (c : Char) (w : WordScan) : (w.push c).rest = w.rest := rfl

/-- The word loop never leaves more input than it was given. -/
lemma wordLoop_rest_le (singleq doubleq : Bool) (p r : List Char)
    (h : (wordLoop singleq doubleq p).rest = some r) : r.length ≤ p.length := by
  fun_induction wordLoop singleq doubleq p with
  | case1 singleq doubleq => cases singleq <;> cases doubleq <;> simp_all
  | case2 => simp_all
  | case3 => simp at h
  | case4 _ _ _ _ _ _ _ _ ih | case5 _ _ _ _ _ _ _ _ ih =>
    have := ih (by simpa using h)
    simp only [length_cons]
    omega
  | case6 _ _ _ _ _ _ ih | case7 _ _ _ _ _ _ ih | case8 _ _ _ _ _ _ _ ih
  | case9 _ _ _ _ _ _ _ ih | case10 _ _ _ _ _ _ _ _ ih =>
    have := ih (by simpa using h)
    simp only [length_cons]
    omega

/-- Started on a byte that is no blank and no operator, the word loop
consumes that byte. -/
lemma wordLoop_rest_lt (c : Char) (p r : List Char) (hs : isspace c = false)
    (ho : isoperator c = false)
    (h : (wordLoop false false (c :: p)).rest = some r) : r.length ≤ p.length := by
  unfold wordLoop at h
  simp only [hs, ho, Bool.not_false, Bool.and_true, Bool.or_self, Bool.and_false,
    Bool.false_eq_true, if_false] at h
  split at h
  · cases p with
    | nil => simp at h
    | cons d p' =>
      have := wordLoop_rest_le false false p' r (by simpa using h)
      simp only [length_cons]
      omega
  · split at h
    · exact wordLoop_rest_le _ _ _ _ h
    split at h
    · exact wordLoop_rest_le _ _ _ _ h
    · exact wordLoop_rest_le _ _ _ _ (by simpa using h)

/-- `convert`: the outer loop over the line. -/
def convert (p : List Char) : Converted :=
  match p with
  | [] => .ok []
  | c :: p' =>
    if isspace c then convert p'
    else if c = '|' then (convert p').add ⟨.pipe, "|"⟩
    else if c = '&' then (convert p').add ⟨.and, "&"⟩
    else if c = ';' then (convert p').add ⟨.colon, ";"⟩
    else if c = '<' then (convert p').add ⟨.less, "<"⟩
    else if c = '>' then
      if p'.head? = some '>' then (convert p'.tail).add ⟨.greater2, ">>"⟩
      else (convert p').add ⟨.greater, ">"⟩
    else
      match _h : (wordLoop false false (c :: p')).rest with
      | none =>
        if 4096 < (wordLoop false false (c :: p')).buffer.length then .overflow else .invalid
      | some r =>
        -- the closing `buffer[b] = 0` needs one more byte
        if 4096 ≤ (wordLoop false false (c :: p')).buffer.length then .overflow
        else (convert r).add ⟨.word, String.ofList (wordLoop false false (c :: p')).buffer⟩
termination_by p.length
decreasing_by
  all_goals simp_all
  all_goals first
    | omega
    | exact wordLoop_rest_lt c p' r (by assumption) (by simp_all [isoperator]) (by assumption)

/-! ## The grammar check -/

/-- The `while` loop of `check`: `curr` is the token under the cursor. -/
def checkLoop : List Token → Bool
  | [] => true
  | t :: ts =>
    if t.type = .and then
      match ts with
      | [] => true
      | u :: _ => if u.type ≠ .word then false else checkLoop ts
    else if t.type = .word then checkLoop ts
    else
      match ts with
      | [] => false
      | u :: _ => if u.type ≠ .word then false else checkLoop ts

/-- `check` of `grammar.c`. -/
def check : List Token → Bool
  | [] => true
  | t :: ts => if t.type ≠ .word then false else checkLoop ts

/-! ## What the lexer guarantees about its tokens -/

/-- The text that `convert` stores for an operator. -/
def Types.text : Types → Option String
  | .word => none
  | .pipe => some "|"
  | .and => some "&"
  | .colon => some ";"
  | .less => some "<"
  | .greater => some ">"
  | .greater2 => some ">>"

/-- A token as the lexer builds it: an operator carries its own text. -/
def Token.WellFormed (t : Token) : Prop :=
  ∀ s, t.type.text = some s → t.val = s

variable {ts : List Token}

lemma Converted.add_eq_ok {t : Token} {r : Converted}
    (h : r.add t = .ok ts) : ∃ us, r = .ok us ∧ ts = t :: us := by
  cases r with
  | ok us =>
    simp only [Converted.add, Converted.ok.injEq] at h
    exact ⟨us, rfl, h.symm⟩
  | invalid | overflow => simp [Converted.add] at h

/-- Adding a well-formed token keeps a list of well-formed tokens. -/
lemma Converted.add_wellFormed {t : Token} {r : Converted}
    (h : r.add t = .ok ts) (ht : t.WellFormed)
    (hr : ∀ us, r = .ok us → ∀ u ∈ us, u.WellFormed) : ∀ u ∈ ts, u.WellFormed := by
  obtain ⟨us, hus, rfl⟩ := Converted.add_eq_ok h
  intro u hu
  rcases mem_cons.mp hu with rfl | hu
  · exact ht
  · exact hr us hus u hu

/-- Every token that `convert` produces is well formed. -/
lemma convert_wellFormed (p : List Char) : ∀ ts, convert p = .ok ts → ∀ t ∈ ts, t.WellFormed := by
  have hop : ∀ (ty : Types) (s : String), ty.text = some s → Token.WellFormed ⟨ty, s⟩ := by
    intro ty s hs s' hs'
    exact Option.some.inj (hs.symm.trans hs')
  fun_induction convert p with
  | case1 => intro ts h; cases h; simp
  | case2 _ _ _ ih => exact ih
  | case3 _ _ ih => exact fun ts h => Converted.add_wellFormed h (hop .pipe _ rfl) ih
  | case4 _ _ _ ih => exact fun ts h => Converted.add_wellFormed h (hop .and _ rfl) ih
  | case5 _ _ _ _ ih => exact fun ts h => Converted.add_wellFormed h (hop .colon _ rfl) ih
  | case6 _ _ _ _ _ ih => exact fun ts h => Converted.add_wellFormed h (hop .less _ rfl) ih
  | case7 _ _ _ _ _ _ _ ih => exact fun ts h => Converted.add_wellFormed h (hop .greater2 _ rfl) ih
  | case8 _ _ _ _ _ _ _ ih => exact fun ts h => Converted.add_wellFormed h (hop .greater _ rfl) ih
  | case9 | case10 | case11 => intro ts h; cases h
  | case12 _ _ _ _ _ _ _ _ _ _ _ ih =>
    refine fun ts h => Converted.add_wellFormed h ?_ ih
    intro s hs
    cases hs

end CshellXv6.Shell
