import CshellXv6.Lib.Lines
import CshellXv6.Lib.Words

/-! # `peek`

`c-shell/src/peek.c`: files are written to the standard output, forwards or with the
last line first, with or without numbers for the lines that are not empty. Backwards,
a file is read in chunks from its end; the beginning of a line whose end has been read
already is kept as a tail for the next chunk.

What is written is kept as a list of pieces, one for each line, with its number.
The bytes are those of the C strings, and an `int` has 32 bits.
-/

namespace CshellXv6.Shell.Peek

open Lib

def newline : UInt8 := 10

/-- A byte other than `'\n'`, `'\r'` and `'\0'`. -/
def visible (b : UInt8) : Bool := b ≠ newline && b ≠ 13 && b ≠ 0

/-- `e == 0` after the loop over a line. -/
def nonempty (line : List UInt8) : Bool := line.any visible

/-- The bytes written for one line, and the number before them. -/
structure Piece where
  number : Option Int
  text : List UInt8
deriving DecidableEq, Repr

/-- `printf("%d ", k)`. -/
def numberBytes (k : Int) : List UInt8 :=
  (toString k).toList.map (fun c => UInt8.ofNat c.toNat) ++ [32]

def Piece.render (p : Piece) : List UInt8 := (p.number.map numberBytes).getD [] ++ p.text

/-! ## `cnt` and `print` -/

/-- The loop of `cnt`. -/
def cnt (content : List UInt8) : Nat := (getlines newline content).countP nonempty

/-- The loop of `print`, with the value of `*line_n` at its end. -/
def printLines (n : Bool) : List (List UInt8) → Int → List Piece × Int
  | [], line_n => ([], line_n)
  | line :: rest, line_n =>
    if n ∧ nonempty line then
      match printLines n rest (toInt (line_n + 1)) with
      | (pieces, last) => (⟨some line_n, line⟩ :: pieces, last)
    else
      match printLines n rest line_n with
      | (pieces, last) => (⟨none, line⟩ :: pieces, last)

def print (n : Bool) (content : List UInt8) (line_n : Int) : List Piece × Int :=
  printLines n (getlines newline content) line_n

/-! ## `print_rev` -/

/-- The variables of `print_rev`; `stop` is `end + 1`. -/
structure RevScan where
  stop : Nat
  tail : List UInt8
  curr : Int
  out : List Piece
deriving DecidableEq, Repr

/-- A line is written, with its number if it gets one. -/
def RevScan.write (n : Bool) (line : List UInt8) (s : RevScan) : RevScan :=
  if nonempty line ∧ n then
    { s with out := s.out ++ [⟨some s.curr, line ++ [newline]⟩], curr := toInt (s.curr - 1) }
  else { s with out := s.out ++ [⟨none, line ++ [newline]⟩] }

/-- There is a newline at `j`: what is behind it in the chunk and the tail are a line. -/
def RevScan.found (n : Bool) (chunk : List UInt8) (j : Nat) (s : RevScan) : RevScan :=
  { s.write n ((chunk.drop (j + 1)).take (s.stop - (j + 1)) ++ s.tail) with
    tail := []
    stop := j }

/-- `for (int j = end; j >= 0; j--)`; the argument is `j + 1`. -/
def scanDown (n : Bool) (chunk : List UInt8) : Nat → RevScan → RevScan
  | 0, s => s
  | j + 1, s => scanDown n chunk j (if chunk[j]? = some newline then s.found n chunk j else s)

/-- `if (end >= 0)`: the rest of the chunk goes in front of the tail. -/
def RevScan.keep (chunk : List UInt8) (s : RevScan) : RevScan :=
  if 0 < s.stop then { s with tail := chunk.take s.stop ++ s.tail } else s

/-- `while (pos > 0)`, with a `chunk` of `size` bytes. -/
def revLoop (size : ℕ+) (n : Bool) (content : List UInt8) (pos : Nat) (first : Bool)
    (s : RevScan) : RevScan :=
  if _h : 0 < pos then
    let r := if pos > size then size.val else pos
    let chunk := (content.drop (pos - r)).take r
    let stop := if first = true ∧ chunk[r - 1]? = some newline then r - 1 else r
    revLoop size n content (pos - r) false
      ((scanDown n chunk stop { s with stop := stop }).keep chunk)
  else s
termination_by pos
decreasing_by
  have := size.pos
  split <;> omega

/-- `print_rev` of a file, whose `line_num` is the number of its last line. -/
def printRev (size : ℕ+) (n : Bool) (line_num : Int) (content : List UInt8) : List Piece :=
  let pos := toInt content.length
  let s := revLoop size n content pos.toNat true ⟨0, [], line_num, []⟩
  if s.tail ≠ [] then (s.write n s.tail).out else s.out

/-- `sizeof(chunk)`. -/
def chunkSize : ℕ+ := 4096

/-- The lines are written in this order, from the number `c` down. -/
def writeAll (n : Bool) (c : Int) (ls : List (List UInt8)) : RevScan :=
  ls.foldl (fun s line => s.write n line) ⟨0, [], c, []⟩

/-! ## Standard input -/

/-- What `buff` keeps of a line: the newline and a carriage return before it become
zero bytes, and `strdup` copies up to the first one. -/
def buffLine (line : List UInt8) : List UInt8 :=
  let r := line.length
  let bytes := if line.getLast? = some newline then line.set (r - 1) 0 else line
  let bytes := if 1 < r ∧ bytes[r - 2]? = some 13 then bytes.set (r - 2) 0 else bytes
  bytes.takeWhile (· ≠ 0)

def buff (stdin : List UInt8) : List (List UInt8) := (getlines newline stdin).map buffLine

/-! ## `peek` -/

/-- What is found under a path. -/
inductive Found where
  | missing
  | directory
  | unreadable
  | regular (content : List UInt8)
deriving DecidableEq, Repr

structure Env where
  home_shell : String
  file : String → Found
  stdin : List UInt8

def path (home_shell inp : String) : String :=
  match inp.toList with
  | ['~'] => home_shell
  | '~' :: '/' :: rest => home_shell ++ "/" ++ String.ofList rest
  | _ => inp

/-- What is written: a line to the standard output, or a message to the standard error. -/
inductive Event where
  | line (piece : Piece)
  | error (text : String)
deriving DecidableEq, Repr

/-- `File`; `lines` is used for the standard input only. -/
structure Input where
  name : String
  lines : List (List UInt8)
  line_num : Int
deriving DecidableEq, Repr

/-- `f->nonempty` after `cnt`. Nothing can be read from a directory. -/
def nonemptyOf : Found → Int
  | .regular content => toInt (cnt content)
  | _ => 0

/-- The first loop over the files: how many lines they have. -/
def prepareInputs (env : Env) (n r : Bool) (stdin : List UInt8) (line_counter : Int) :
    List String → List Input
  | [] => []
  | file :: rest =>
    let name := path env.home_shell file
    if name = "-" then
      let lines := if r then buff stdin else []
      let line_num := if r ∧ n then toInt (line_counter + toInt (lines.countP nonempty)) else 0
      ⟨name, lines, line_num⟩ :: prepareInputs env n r (if r then [] else stdin)
        (if r ∧ n then line_num else line_counter) rest
    else
      let line_num := if r ∧ n then toInt (line_counter + nonemptyOf (env.file name)) else 0
      ⟨name, [], line_num⟩ :: prepareInputs env n r stdin
        (if r ∧ n then line_num else line_counter) rest

/-- The second loop: what is written for each file. -/
def outputs (env : Env) (n r : Bool) (stdin : List UInt8) (fw_count : Int) :
    List Input → List (List Event)
  | [] => []
  | input :: rest =>
    if input.name = "-" then
      if r then
        (writeAll n input.line_num input.lines.reverse).out.map .line ::
          outputs env n r stdin fw_count rest
      else
        match print n stdin fw_count with
        | (pieces, fw_count) => pieces.map .line :: outputs env n r [] fw_count rest
    else
      match env.file input.name with
      | .missing =>
        [.error "peek: no such file or directory\n"] :: outputs env n r stdin fw_count rest
      | .directory => [.error "peek: is a directory\n"] :: outputs env n r stdin fw_count rest
      | .unreadable =>
        [.error "peek error: Permission denied\n"] :: outputs env n r stdin fw_count rest
      | .regular content =>
        if r then
          (printRev chunkSize n input.line_num content).map .line ::
            outputs env n r stdin fw_count rest
        else
          match print n content fw_count with
          | (pieces, fw_count) => pieces.map .line :: outputs env n r stdin fw_count rest

/-- `peek` of the files `all`, one list for each of them. -/
def peekFiles (env : Env) (n r : Bool) (all : List String) : List (List Event) :=
  outputs env n r env.stdin 1 (prepareInputs env n r env.stdin 0 all)

/-- The letters of an option. -/
def optionLetters : List Char → Bool × Bool → Option (Bool × Bool)
  | [], flags => some flags
  | 'n' :: rest, flags => optionLetters rest (true, flags.2)
  | 'r' :: rest, flags => optionLetters rest (flags.1, true)
  | _ :: _, _ => none

/-- The loop over the arguments: the flags `n` and `r`, and the files. -/
def parseArgs : List String → Bool × Bool → List String → Option (Bool × Bool × List String)
  | [], flags, all => some (flags.1, flags.2, all)
  | arg :: rest, flags, all =>
    match arg.toList with
    | '-' :: c :: letters =>
      (optionLetters (c :: letters) flags).bind fun flags => parseArgs rest flags all
    | _ => parseArgs rest flags (all ++ [arg])

def peek (env : Env) (input : List String) : List Event :=
  match parseArgs input (false, false) [] with
  | none => [.error "peek: invalid syntax\n"]
  | some (n, r, all) => (peekFiles env n r (if all = [] then ["-"] else all)).flatten

end CshellXv6.Shell.Peek
