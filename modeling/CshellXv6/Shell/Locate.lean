import CshellXv6.Lib.CStrings
import CshellXv6.Shell.Paths

/-! # `locate` and the search for a command

`c-shell/src/locate.c` and the function `path` of `c-shell/src/execution.c` look for a
command in the working directory and then in the directories of `PATH`: `path` returns
the first file it finds, `locate` prints all of them. Both put the names together in a
buffer of `PATH_MAX` bytes without looking at the length; a name that does not fit is
stored past its end, and nothing is said about what happens then (`none`).

A byte is a character. The system does not tell repeated slashes apart from single ones.
-/

namespace CshellXv6.Shell.Locate

open Lib List Option

/-- The path with single slashes. -/
def squeeze (p : List Char) : List Char :=
  p.foldr (fun c rest => if c = '/' ∧ rest.head? = some '/' then rest else c :: rest) []

/-- What the system answers: the name of the working directory or why there is none, the
variable `PATH`, and which paths lead to a regular file that may be executed. -/
structure Env where
  getcwd : Except String (List Char)
  PATH : Option (List Char)
  executable : List Char → Bool

def Env.isfile (env : Env) (p : List Char) : Bool := env.executable (squeeze p)

/-- The tokens of `PATH`. -/
def Env.dirs (env : Env) : List (List Char) :=
  (env.PATH.map (strtokAll fun c => c = ':')).getD []

/-- The string is copied to a buffer of `PATH_MAX` bytes. -/
def store (p : List Char) : Option (List Char) := if p.length < pathMax then some p else none

/-- A name in a directory of `PATH`. -/
def entry (dir name : List Char) : List Char :=
  if dir.getLast? = some '/' then dir ++ name else dir ++ '/' :: name

/-! ## `path` -/

/-- The loop over the directories. -/
def pathDirs (env : Env) (search : List Char) : List (List Char) → Option (Option (List Char))
  | [] => some none
  | dir :: rest =>
    (store (entry dir search)).bind fun temp =>
      if env.isfile temp then some (some temp) else pathDirs env search rest

/-- The working directory. -/
def pathCwd (env : Env) (search : List Char) : Option (Option (List Char)) :=
  match env.getcwd with
  | .error _ => some none
  | .ok cwd =>
    (store (cwd ++ '/' :: search)).map fun temp => if env.isfile temp then some temp else none

/-- `path`. A command with a `%` in front is not looked for in the working directory. -/
def path (env : Env) (cmd : List Char) : Option (Option (List Char)) :=
  if cmd.head? = some '%' then pathDirs env cmd.tail env.dirs
  else if '/' ∈ cmd then some (if env.isfile cmd then some cmd else none)
  else
    (pathCwd env cmd).bind fun found =>
      match found with
      | some temp => some (some temp)
      | none => pathDirs env cmd env.dirs

/-! ## `locate` -/

inductive Message where
  | invalid
  | noCwd (reason : String)
  | notFound (inp : List Char)
deriving DecidableEq, Repr

def Message.text : Message → String
  | .invalid => "locate: invalid syntax\n"
  | .noCwd reason => "locate error: " ++ reason ++ "\n"
  | .notFound inp => "locate: command not found (" ++ String.ofList inp ++ ")\n"

/-- What is written: a line to the standard output, or a message to the standard error. -/
inductive Event where
  | line (file : List Char)
  | error (message : Message)
deriving DecidableEq, Repr

/-- The loop over the directories. -/
def locateDirs (env : Env) (inp : List Char) : List (List Char) → Option (List (List Char))
  | [] => some []
  | dir :: rest =>
    (store (entry dir inp)).bind fun p =>
      (locateDirs env inp rest).map fun files => if env.isfile p then p :: files else files

/-- The name in the working directory. -/
def cwdEntry (cwd inp : List Char) : List Char :=
  if cwd = ['/'] then '/' :: inp else cwd ++ '/' :: inp

/-- What is written for a name, when these files have been found. -/
def report (inp : List Char) (files : List (List Char)) : List Event :=
  if files = [] then [.error (.notFound inp)] else files.map .line

/-- One round of the loop over the names. -/
def locateOne (env : Env) (cwd inp : List Char) : Option (List Event) :=
  (store (cwdEntry cwd inp)).bind fun p =>
    (locateDirs env inp env.dirs).map fun files =>
      report inp (if env.isfile p then p :: files else files)

def locate (env : Env) (input : List (List Char)) : Option (List Event) :=
  if input = [] then some [.error .invalid]
  else
    match env.getcwd with
    | .error reason => some [.error (.noCwd reason)]
    | .ok cwd => (input.mapM (locateOne env cwd)).map List.flatten

/-! ## Both find the same -/

/-- The first file that is printed. -/
def firstFile (events : List Event) : Option (List Char) :=
  events.findSome? fun
    | .line file => some file
    | .error _ => none

/-- `path` and `locate` come to an end; what `path` returns is the first file that
`locate` prints, up to repeated slashes, and it returns nothing exactly if `locate` says
that there is no such command. -/
def Agree (env : Env) (cmd : List Char) : Prop :=
  ∃ found events, path env cmd = some found ∧ locate env [cmd] = some events ∧
    found.map squeeze = (firstFile events).map squeeze ∧
    (found = none ↔ .error (.notFound cmd) ∈ events)

section

variable {env : Env} {cmd cwd p q : List Char} {dirs : List (List Char)} {reason : String}

lemma squeeze_slash (p : List Char) : squeeze ('/' :: '/' :: p) = squeeze ('/' :: p) := by
  have hcons : ∀ c p, squeeze (c :: p) =
      if c = '/' ∧ (squeeze p).head? = some '/' then squeeze p else c :: squeeze p :=
    fun _ _ => rfl
  by_cases h : (squeeze p).head? = some '/'
  all_goals simp [hcons, h]

lemma store_eq_some : store p = some q ↔ p.length < pathMax ∧ p = q := by
  unfold store
  split
  next h => simp [h]
  next h => simp [h]

lemma store_of_lt (h : p.length < pathMax) : store p = some p := if_pos h

/-- All names fit: the loop of `path` finds the first file. -/
lemma pathDirs_eq (h : ∀ dir ∈ dirs, (entry dir cmd).length < pathMax) :
    pathDirs env cmd dirs = some ((dirs.map fun dir => entry dir cmd).find? env.isfile) := by
  induction dirs with
  | nil => rfl
  | cons dir rest ih =>
    rw [pathDirs, store_of_lt (h dir mem_cons_self), bind_some, map_cons,
      List.find?_cons, ih fun d hd => h d (mem_cons_of_mem dir hd)]
    cases env.isfile (entry dir cmd) with
    | true | false => rfl

/-- All names fit: the loop of `locate` finds all files. -/
lemma locateDirs_eq (h : ∀ dir ∈ dirs, (entry dir cmd).length < pathMax) :
    locateDirs env cmd dirs = some ((dirs.map fun dir => entry dir cmd).filter env.isfile) := by
  induction dirs with
  | nil => rfl
  | cons dir rest ih =>
    rw [locateDirs, store_of_lt (h dir mem_cons_self), bind_some, map_cons,
      filter_cons, ih fun d hd => h d (mem_cons_of_mem dir hd)]
    rfl

/-- The loop of `locate` tries every directory. -/
lemma fits_of_locateDirs {files : List (List Char)} (h : locateDirs env cmd dirs = some files) :
    ∀ dir ∈ dirs, (entry dir cmd).length < pathMax := by
  induction dirs generalizing files with
  | nil =>
    intro dir hdir
    cases hdir
  | cons dir rest ih =>
    rw [locateDirs] at h
    obtain ⟨p, hp, hrest⟩ := bind_eq_some_iff.mp h
    obtain ⟨files', hfiles, -⟩ := map_eq_some_iff.mp hrest
    intro d hd
    rcases mem_cons.mp hd with rfl | hd
    · exact (store_eq_some.mp hp).1
    · exact ih hfiles d hd

/-- The two names of the command in the working directory. -/
lemma squeeze_cwdEntry (cwd cmd : List Char) :
    squeeze (cwdEntry cwd cmd) = squeeze (cwd ++ '/' :: cmd) := by
  unfold cwdEntry
  split
  next hroot => rw [hroot, singleton_append, squeeze_slash]
  · rfl

lemma locate_of_ok (hcwd : env.getcwd = .ok cwd) : locate env [cmd] = locateOne env cwd cmd := by
  rw [locate, if_neg (cons_ne_nil cmd []), hcwd]
  cases h : locateOne env cwd cmd with
  | none | some events => simp [h]

lemma locate_of_error (hcwd : env.getcwd = .error reason) :
    locate env [cmd] = some [.error (.noCwd reason)] := by
  rw [locate, if_neg (cons_ne_nil cmd []), hcwd]

lemma path_eq (hslash : '/' ∉ cmd) (hpercent : cmd.head? ≠ some '%') : path env cmd =
    (pathCwd env cmd).bind fun found =>
      match found with
      | some temp => some (some temp)
      | none => pathDirs env cmd env.dirs := by
  rw [path, if_neg hpercent, if_neg hslash]

/-- What `locate` writes about the files it has found. -/
lemma firstFile_report (cmd : List Char) (files : List (List Char)) :
    firstFile (report cmd files) = files.head? ∧
    (files.head? = none ↔ .error (.notFound cmd) ∈ report cmd files) := by
  cases files with
  | nil | cons file files => simp [report, firstFile]

lemma path_of_fits (hslash : '/' ∉ cmd) (hpercent : cmd.head? ≠ some '%')
    (hcwd : env.getcwd = .ok cwd) (hfits : (cwd ++ '/' :: cmd).length < pathMax)
    (hdirs : ∀ dir ∈ env.dirs, (entry dir cmd).length < pathMax) : path env cmd =
      some (((cwd ++ '/' :: cmd) :: env.dirs.map fun dir => entry dir cmd).find? env.isfile) := by
  rw [path_eq hslash hpercent, pathCwd, hcwd]
  dsimp only
  rw [store_of_lt hfits, map_some, bind_some, pathDirs_eq hdirs, List.find?_cons]
  cases env.isfile (cwd ++ '/' :: cmd) with
  | true | false => rfl

lemma locate_of_fits (hcwd : env.getcwd = .ok cwd) (hfits : (cwdEntry cwd cmd).length < pathMax)
    (hdirs : ∀ dir ∈ env.dirs, (entry dir cmd).length < pathMax) : locate env [cmd] =
      some (report cmd
        ((cwdEntry cwd cmd :: env.dirs.map fun dir => entry dir cmd).filter env.isfile)) := by
  rw [locate_of_ok hcwd, locateOne, store_of_lt hfits, bind_some, locateDirs_eq hdirs,
    map_some, filter_cons]

lemma agree_of_fits (hslash : '/' ∉ cmd) (hpercent : cmd.head? ≠ some '%')
    (hcwd : env.getcwd = .ok cwd) (hfits : cwd.length + 1 + cmd.length < pathMax)
    (hdirs : ∀ dir ∈ env.dirs, (entry dir cmd).length < pathMax) : Agree env cmd := by
  have hpath : (cwd ++ '/' :: cmd).length < pathMax := by
    rw [length_append, length_cons]
    omega
  have hlocate : (cwdEntry cwd cmd).length < pathMax := by
    unfold cwdEntry
    split
    · rw [length_cons]
      omega
    · exact hpath
  have hsame : env.isfile (cwdEntry cwd cmd) = env.isfile (cwd ++ '/' :: cmd) := by
    rw [Env.isfile, Env.isfile, squeeze_cwdEntry]
  refine ⟨_, _, path_of_fits hslash hpercent hcwd hpath hdirs,
    locate_of_fits hcwd hlocate hdirs, ?_⟩
  obtain ⟨hfirst, hnone⟩ := firstFile_report cmd
    ((cwdEntry cwd cmd :: env.dirs.map fun dir => entry dir cmd).filter env.isfile)
  rw [hfirst, ← hnone, List.head?_filter, List.find?_cons, List.find?_cons, hsame]
  cases env.isfile (cwd ++ '/' :: cmd) with
  | true => simp [squeeze_cwdEntry]
  | false => simp

/-- **When `locate` and `execute` find the same.** For a command without a slash that does not
begin with `%`, the file that is executed is the first one `locate` prints, and it is not
found exactly if `locate` says so, for exactly the environments in which the working
directory has a name and all names that are put together fit their buffers. -/
theorem locate_agrees_iff (hslash : '/' ∉ cmd) (hpercent : cmd.head? ≠ some '%') :
    Agree env cmd ↔ ∃ cwd, env.getcwd = .ok cwd ∧ cwd.length + 1 + cmd.length < pathMax ∧
      ∀ dir ∈ env.dirs, (entry dir cmd).length < pathMax := by
  constructor
  · rintro ⟨found, events, hpath, hlocate, hfirst, hnone⟩
    cases hcwd : env.getcwd with
    | error text =>
      -- `locate` gives up, and says something else
      rw [locate_of_error hcwd] at hlocate
      obtain rfl := Option.some.inj hlocate
      cases found with
      | none =>
        have hsaid := hnone.mp rfl
        cases mem_singleton.mp hsaid
      | some file => cases hfirst
    | ok cwd =>
      refine ⟨cwd, rfl, ?_, ?_⟩
      · rw [path_eq hslash hpercent, pathCwd, hcwd] at hpath
        obtain ⟨found', hcwdfound, -⟩ := bind_eq_some_iff.mp hpath
        obtain ⟨temp, hstore, -⟩ := map_eq_some_iff.mp hcwdfound
        have hlt := (store_eq_some.mp hstore).1
        rw [length_append, length_cons] at hlt
        omega
      · rw [locate_of_ok hcwd, locateOne] at hlocate
        obtain ⟨p, -, hrest⟩ := bind_eq_some_iff.mp hlocate
        obtain ⟨files, hfiles, -⟩ := map_eq_some_iff.mp hrest
        exact fits_of_locateDirs hfiles
  · rintro ⟨cwd, hcwd, hfits, hdirs⟩
    exact agree_of_fits hslash hpercent hcwd hfits hdirs

end

/-- A system with the file `/bin/ls`. -/
def system (getcwd : Except String (List Char)) (PATH : String) : Env where
  getcwd := getcwd
  PATH := some PATH.toList
  executable p := p = "/bin/ls".toList

/-- In the directory `/`, with empty elements in `PATH` and one that ends in slashes. -/
theorem locate_agrees_root : Agree (system (.ok ['/']) ":/usr/bin::/bin//:") "ls".toList := by
  refine (locate_agrees_iff (by decide) (by decide)).mpr ⟨['/'], rfl, by decide, ?_⟩
  decide

/-- The working directory has been removed. `path` finds `ls`; `locate` does not look. -/
theorem locate_gives_up :
    path (system (.error "No such file or directory") "/bin") "ls".toList =
      some (some "/bin/ls".toList) ∧
    locate (system (.error "No such file or directory") "/bin") ["ls".toList] =
      some [.error (.noCwd "No such file or directory")] := by
  decide

end CshellXv6.Shell.Locate
