import CshellXv6.Lib.CStrings
import CshellXv6.Lib.Scanning
import CshellXv6.Lib.Tally
import CshellXv6.Shell.Paths
import Mathlib.Data.List.Sort

/-! # `hop` and its history

`c-shell/src/hop.c`: `hop` changes the working directory, remembers the one before, and counts
its visits in the file `.shell_history`. The file has two readers. `new_rec` takes its lines
apart with `strtok`, changes one record and writes all of them back; `frecency`, which is asked
when there is no directory of the name given, takes them apart with `sscanf` and tries the
directories whose path contains the name.

A byte is a character. Where the C code has no defined behaviour (a field that is missing is
used, an array or a buffer is left) there is no result: `none`. The file can be opened whenever
it is there. In which order `qsort` leaves records with equal scores is up to the C library.
-/

namespace CshellXv6.Shell.Hop

open Lib

/-- A record of type `hops`. -/
structure Rec where
  num : Int
  time : Int
  path : List Char
deriving DecidableEq, Repr

/-- What `fgets` leaves in `line`, one call after the other: strings, so up to a zero. -/
def fgetsLines (content : List Char) : List (List Char) :=
  (pieces '\n' (pathMax - 1) (pathMax - 1) content).map fun l => l.takeWhile fun c => c ≠ '\x00'

/-! ## `new_rec` -/

def blank (c : Char) : Bool := c = ' ' || c = '\t'

def lineEnd (c : Char) : Bool := c = '\r' || c = '\n'

/-- The three calls of `strtok`: `freq`, `time` and, if there is one, `path`. -/
def fields (line : List Char) : Option (List Char × List Char × Option (List Char)) :=
  (strtok blank line).bind fun freq =>
    (strtok blank freq.2).map fun time =>
      (freq.1, time.1, (strtok lineEnd time.2).map Prod.fst)

/-- The element of `data` for these fields. -/
def toRec (freq time path : List Char) : Rec :=
  ⟨atoi freq, atoi time, (path.dropWhile blank).take (pathMax - 1)⟩

/-- The loop that fills `data`, which has 1000 elements. -/
def readData : List (List Char) → List Rec → Option (List Rec)
  | [], data => some data
  | line :: rest, data =>
    match fields line with
    | none => readData rest data
    | some (freq, time, path) =>
      if data.length < 1000 then
        -- `if (path)` is about the loop only; `strncpy` takes a `path` that is missing
        path.bind fun path => readData rest (data ++ [toRec freq time path])
      else none

/-- The visit is counted. -/
def count (destpath : List Char) (now : Int) (data : List Rec) : List Rec :=
  upsert Rec.path destpath (fun r => { r with num := toInt (r.num + 1), time := toInt now })
    ⟨1, toInt now, destpath⟩ data

def Rec.line (r : Rec) : List Char := showInt r.num ++ ' ' :: (showInt r.time ++ ' ' :: r.path)

def write (data : List Rec) : List Char := data.flatMap fun r => r.line ++ ['\n']

/-- `new_rec`: what the file holds afterwards. -/
def newRec (history : Option (List Char)) (destpath : List Char) (now : Int) :
    Option (List Char) :=
  (readData (fgetsLines (history.getD [])) []).bind fun data =>
    if destpath ∈ data.map Rec.path ∨ data.length < 1000 then
      some (write (count destpath now data))
    else none

/-! ## `frecency` -/

/-- `sscanf` with `"%d %d %[^\n]"`, if it returns 3. -/
def scanEntry (line : List Char) : Option Rec :=
  (scanInt line).bind fun num =>
    (scanInt num.2).bind fun time =>
      if ((time.2.dropWhile Lib.isspace).takeWhile fun c => c ≠ '\n') = [] then none
      else some ⟨num.1, time.1, (time.2.dropWhile Lib.isspace).takeWhile fun c => c ≠ '\n'⟩

/-- The loop that fills `match`, which has 1000 elements. -/
def readMatches (dest : List Char) : List (List Char) → List Rec → Option (List Rec)
  | [], found => some found
  | line :: rest, found =>
    match scanEntry line with
    | none => readMatches dest rest found
    | some entry =>
      if dest <:+: entry.path then
        if found.length < 1000 then readMatches dest rest (found ++ [entry]) else none
      else readMatches dest rest found

/-- The number of visits, weighted by the age of the last one, as a `double`. -/
def score (curr_time : Int) (entry : Rec) : Float :=
  let factor := 1 - Float.ofInt (curr_time - entry.time) / (90 * 24 * 3600)
  Float.ofInt entry.num * if factor < 0.1 then 0.1 else factor

def compare (curr_time : Int) (h1 h2 : Rec) : Int :=
  if score curr_time h1 < score curr_time h2 then 1
  else if score curr_time h1 == score curr_time h2 then 0 else -1

/-- `qsort`. It permutes the array, and sorts it if the comparison is one. -/
structure Qsort where
  sort : (Rec → Rec → Int) → List Rec → List Rec
  perm : ∀ compare l, (sort compare l).Perm l
  sorted : ∀ compare l, (∀ a b, compare a b ≤ 0 ∨ compare b a ≤ 0) →
    (∀ a b c, compare a b ≤ 0 → compare b c ≤ 0 → compare a c ≤ 0) →
    (sort compare l).Pairwise fun a b => compare a b ≤ 0

/-- `frecency`: the directory that is entered, if one is. `chdir` gives the name of the
directory to which a path leads. -/
def frecency (history : Option (List Char)) (dest : List Char) (now : Int) (qsort : Qsort)
    (chdir : List Char → Option (List Char)) : Option (Option (List Char)) :=
  match history with
  | none => some none
  | some content =>
    (readMatches dest (fgetsLines content) []).map fun found =>
      (qsort.sort (compare (toInt now)) found).findSome? fun e => chdir e.path

/-! ## `hopto` -/

inductive Message where
  | getcwd
  | hop
  | noPrevious
  | noDirectory
deriving DecidableEq, Repr

/-- What `perror` puts before the reason, and the other messages. -/
def Message.text : Message → String
  | .getcwd => "getcwd"
  | .hop => "hop"
  | .noPrevious => "no previous directory\n"
  | .noDirectory => "hop: no such directory\n"

/-- How a hop ends. When the target of `hop -` cannot be entered, nothing is said. -/
inductive Report where
  | ok
  | silent
  | error (message : Message)
deriving DecidableEq, Repr

/-- The working directory, by the name `getcwd` gives for it, the variable `prev` and the
file `.shell_history`. -/
structure State where
  cwd : List Char
  prev : List Char
  history : Option (List Char)
deriving DecidableEq, Repr

/-- The answers of the system during one hop: whether the first and the second `getcwd` succeed,
the directory to which a path leads, the time, and how arrays are sorted. -/
structure Answers where
  curr : Bool
  next : Bool
  chdir : List Char → Option (List Char)
  now : Int
  qsort : Qsort

/-- The directory `next` has been entered; `report` is what is said without its name. -/
def entered (s : State) (ans : Answers) (report : Report) (next : List Char) :
    Option (State × Report) :=
  if ans.next then
    (newRec s.history next ans.now).map fun content => (⟨next, s.cwd, some content⟩, .ok)
  else some (⟨next, s.cwd, s.history⟩, report)

def hopto (home_shell : List Char) (ans : Answers) (input : List Char) (s : State) :
    Option (State × Report) :=
  if ans.curr = false then some (s, .error .getcwd)
  else if input = ['.'] then some ({ s with prev := s.cwd }, .ok)
  else if input = ['-'] then
    if s.prev = [] then some (s, .error .noPrevious)
    else
      match ans.chdir s.prev with
      | none => some (s, .silent)
      | some next => entered s ans (.error .hop) next
  else if (expand home_shell input).length < pathMax then
    match ans.chdir (expand home_shell input) with
    | some next => entered s ans .ok next
    | none =>
      (frecency s.history input ans.now ans.qsort ans.chdir).bind fun found =>
        match found with
        | some next => entered s ans .ok next
        | none => some (s, .error .noDirectory)
  else none

/-- The loop of `hopper`, each argument with the answers to its hop. -/
def hops (home_shell : List Char) : List (List Char × Answers) → State → Option State
  | [], s => some s
  | (input, ans) :: rest, s =>
    (hopto home_shell ans input s).bind fun r => hops home_shell rest r.1

/-- `hopper`; without arguments it goes home. -/
def hopper (home_shell : List Char) (input : List (List Char × Answers)) (ans : Answers)
    (s : State) : Option State :=
  if input = [] then hops home_shell [(['~'], ans)] s else hops home_shell input s

end CshellXv6.Shell.Hop
