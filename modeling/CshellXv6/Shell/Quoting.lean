import CshellXv6.Shell.Lexer

/-! # Quoting

The three ways of writing down a word so that `convert` reads it back: in
single quotes, in double quotes, and with every byte escaped. Each is an
inverse of the word loop, in the quoting mode its first byte switches on, and
the loop is left in no mode at all, so that whatever follows the word is
tokenized as if the word had not been there.
-/

namespace CshellXv6.Shell

open Lib List

/-- A way of quoting. -/
inductive Quoting where
  | single
  | double
  | backslash
deriving DecidableEq, Repr

/-- A byte between single quotes: a single quote is written after closing the
quotes, escaped, and the quotes are opened again. -/
def singleQuoted (c : Char) : List Char :=
  if c = '\x27' then ['\x27', '\x5c', '\x27', '\x27'] else [c]

/-- A byte between double quotes. -/
def doubleQuoted (c : Char) : List Char :=
  if c = '\x22' ∨ c = '\x5c' then ['\x5c', c] else [c]

/-- A word as it is typed. -/
def Quoting.render : Quoting → List Char → List Char
  | .single, text => '\x27' :: text.flatMap singleQuoted ++ ['\x27']
  | .double, text => '\x22' :: text.flatMap doubleQuoted ++ ['\x22']
  | .backslash, text => text.flatMap fun c => ['\x5c', c]

/-- One token of a typed line: an operator or a quoted word. -/
inductive Item where
  | operator (type : Types)
  | word (quoting : Quoting) (text : List Char)
deriving DecidableEq, Repr

/-- The items whose tokens can be read back: a word that fits in the buffer
with its NUL, and is not the empty word without quotes. -/
def Item.Valid : Item → Prop
  | .operator type => type ≠ .word
  | .word quoting text => text.length ≤ 4095 ∧ (quoting = .backslash → text ≠ [])

instance (i : Item) : Decidable i.Valid := by
  unfold Item.Valid
  apply @Item.casesOn _ i
  all_goals intros; infer_instance

/-- The token an item stands for. -/
def Item.token : Item → Token
  | .operator type => ⟨type, type.text.getD ""⟩
  | .word _ text => ⟨.word, String.ofList text⟩

/-- The item as it is typed. -/
def Item.render : Item → List Char
  | .operator type => (type.text.getD "").toList
  | .word quoting text => quoting.render text

/-- The items of a line, with a space between any two. -/
def renderLine (items : List Item) : List Char :=
  [' '].intercalate (items.map Item.render)

/-! ## The word loop undoes each way of quoting -/

/-- Several bytes stored one after the other. -/
def WordScan.pushAll (text : List Char) (w : WordScan) : WordScan :=
  { w with buffer := text ++ w.buffer }

lemma WordScan.push_pushAll (c : Char) (text : List Char) (w : WordScan) :
    (w.pushAll text).push c = w.pushAll (c :: text) := rfl

/-- A single quote outside double quotes opens or closes single quotes. -/
lemma wordLoop_singleq (singleq : Bool) (p : List Char) :
    wordLoop singleq false ('\x27' :: p) = wordLoop (!singleq) false p := by
  rw [wordLoop.eq_def]
  simp [isspace, isoperator]

/-- A double quote outside single quotes opens or closes double quotes. -/
lemma wordLoop_doubleq (doubleq : Bool) (p : List Char) :
    wordLoop false doubleq ('\x22' :: p) = wordLoop false (!doubleq) p := by
  rw [wordLoop.eq_def]
  simp [isspace, isoperator]

/-- A backslash outside single quotes takes a byte that it escapes as it is. -/
lemma wordLoop_escape (doubleq : Bool) (d : Char) (p : List Char)
    (h : doubleq = true → d = '\x22' ∨ d = '\x5c') :
    wordLoop false doubleq ('\x5c' :: d :: p) = (wordLoop false doubleq p).push d := by
  rw [wordLoop.eq_def]
  cases doubleq with
  | false => simp [isspace, isoperator]
  | true => rcases h rfl with rfl | rfl <;> simp

/-- Inside single quotes nothing but the closing quote is special. -/
lemma wordLoop_single (text p : List Char) :
    wordLoop true false (text.flatMap singleQuoted ++ '\x27' :: p) =
      (wordLoop false false p).pushAll text := by
  induction text with
  | nil => exact wordLoop_singleq true p
  | cons c text ih =>
    rw [flatMap_cons, append_assoc, ← WordScan.push_pushAll, ← ih, singleQuoted]
    split
    next hc =>
      -- out of the quotes, over the escaped quote, and back into them
      subst hc
      simp only [cons_append, nil_append]
      rw [wordLoop_singleq, Bool.not_true, wordLoop_escape _ _ _ (by simp), wordLoop_singleq,
        Bool.not_false]
    next hc =>
      rw [singleton_append, wordLoop.eq_def]
      simp [hc]

/-- Inside double quotes a backslash escapes `"` and itself. -/
lemma wordLoop_double (text p : List Char) :
    wordLoop false true (text.flatMap doubleQuoted ++ '\x22' :: p) =
      (wordLoop false false p).pushAll text := by
  induction text with
  | nil => exact wordLoop_doubleq true p
  | cons c text ih =>
    rw [flatMap_cons, append_assoc, ← WordScan.push_pushAll, ← ih, doubleQuoted]
    split
    next hc => exact wordLoop_escape true c _ fun _ => hc
    next hc =>
      rw [not_or] at hc
      rw [singleton_append, wordLoop.eq_def]
      simp [hc]

/-- Outside quotes a backslash escapes every byte. -/
lemma wordLoop_backslash (text p : List Char) :
    wordLoop false false ((text.flatMap fun c => ['\x5c', c]) ++ p) =
      (wordLoop false false p).pushAll text := by
  induction text with
  | nil => rfl
  | cons c text ih =>
    rw [flatMap_cons, append_assoc, ← WordScan.push_pushAll, ← ih]
    exact wordLoop_escape false c _ (by simp)

lemma wordLoop_render (q : Quoting) (text p : List Char) :
    wordLoop false false (q.render text ++ p) = (wordLoop false false p).pushAll text := by
  cases q with
  | single =>
    rw [← wordLoop_single]
    simp [Quoting.render, wordLoop_singleq]
  | double =>
    rw [← wordLoop_double]
    simp [Quoting.render, wordLoop_doubleq]
  | backslash => exact wordLoop_backslash text p

/-! ## The outer loop reads the items back -/

/-- What stands behind an item of a line: nothing, or a space. -/
def Separated (p : List Char) : Prop := p.head?.all isspace

variable {p r : List Char} {c : Char}

lemma wordLoop_of_separated (h : Separated p) : wordLoop false false p = ⟨[], some p⟩ := by
  cases p with
  | nil => rfl
  | cons c p =>
    have hc : isspace c = true := by simpa [Separated] using h
    rw [wordLoop.eq_def]
    simp [hc]

/-- A quoted word starts with a byte that starts a word. -/
lemma Quoting.render_eq_cons (q : Quoting) (text : List Char) (h : q = .backslash → text ≠ []) :
    ∃ c p, q.render text = c :: p ∧ isspace c = false ∧ isoperator c = false := by
  cases q with
  | single | double => exact ⟨_, _, rfl, by decide, by decide⟩
  | backslash =>
    cases text with
    | nil => exact absurd rfl (h rfl)
    | cons c text => exact ⟨'\x5c', c :: _, rfl, by decide, by decide⟩

/-- At a byte that starts a word, `convert` runs the word loop. -/
lemma convert_word {text : List Char} (hs : isspace c = false) (ho : isoperator c = false)
    (hw : wordLoop false false (c :: p) = ⟨text, some r⟩) (hlen : text.length ≤ 4095) :
    convert (c :: p) = (convert r).add ⟨.word, String.ofList text⟩ := by
  have hno : c ≠ '|' ∧ c ≠ '&' ∧ c ≠ ';' ∧ c ≠ '<' ∧ c ≠ '>' := by
    simp only [isoperator, Bool.or_eq_false_iff, decide_eq_false_iff_not] at ho
    tauto
  rw [convert]
  simp only [hs, hno, if_false, Bool.false_eq_true]
  split
  next hr => simp [hw] at hr
  next r' hr =>
    have : r = r' := by simpa [hw] using hr
    subst this
    rw [if_neg (by simp only [hw]; omega), hw]

/-- `convert` reads one item, if it is followed by a space or by nothing. -/
lemma convert_item {i : Item} (hi : i.Valid) (hp : Separated p) :
    convert (i.render ++ p) = (convert p).add i.token := by
  cases i with
  | operator type =>
    -- a space keeps `>` apart from a `>` after it
    have hgt : p.head? ≠ some '>' := by
      intro h
      simp [Separated, h, isspace] at hp
    cases type with
    | word => exact absurd rfl hi
    | pipe | and | colon | less | greater | greater2 =>
      simp [Item.render, Item.token, Types.text, convert, isspace, hgt]
  | word q text =>
    obtain ⟨c, p', hc, hs, ho⟩ := q.render_eq_cons text hi.2
    have hw := wordLoop_render q text p
    rw [wordLoop_of_separated hp, hc, cons_append] at hw
    rw [Item.render, hc, cons_append]
    exact convert_word hs ho (hw.trans (by simp [WordScan.pushAll])) hi.1

/-- Tokenizing undoes quoting: whatever the words are and however each of them
is quoted, `convert` returns the tokens of the line. -/
theorem convert_renderLine (items : List Item) (h : ∀ i ∈ items, i.Valid) :
    convert (renderLine items) = .ok (items.map Item.token) := by
  induction items with
  | nil => simp [renderLine, convert]
  | cons i items ih =>
    have hi := h i (by simp)
    have ih := ih fun j hj => h j (by simp [hj])
    cases items with
    | nil =>
      have hone := convert_item hi (p := []) rfl
      rw [append_nil] at hone
      simpa [renderLine, convert, Converted.add] using hone
    | cons j items =>
      have hline : renderLine (i :: j :: items) =
          i.render ++ ' ' :: renderLine (j :: items) := by
        simp [renderLine, List.intercalate]
      have hblank : ∀ p, convert (' ' :: p) = convert p := by
        intro p
        rw [convert]
        simp [isspace]
      rw [hline, convert_item hi (by simp [Separated, isspace]), hblank, ih]
      rfl

theorem convert_renderLine_mixed :
    convert (renderLine [.word .single ['a', '\x27', ' '], .operator .greater,
      .word .double [], .operator .and, .word .backslash ['|']]) =
      .ok [⟨.word, "a' "⟩, ⟨.greater, ">"⟩, ⟨.word, ""⟩, ⟨.and, "&"⟩, ⟨.word, "|"⟩] :=
  convert_renderLine _ (by decide)

end CshellXv6.Shell
