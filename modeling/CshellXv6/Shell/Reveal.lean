import CshellXv6.Lib.Assoc
import CshellXv6.Shell.Paths
import Mathlib.Data.List.Sort
import Mathlib.Data.Char
import Mathlib.Data.List.Lex

/-! # `reveal`

`c-shell/src/reveal.c` lists a directory and, with `-t`, the directories in it, calling
itself with the path of each. It knows the system by two calls only: `lstat`, which does
not follow a link at the end of a path, and `readdir`. The second part of this file says
what the two answer about a tree of directories; `.` and `..` are resolved there, and so
are the paths that leave the tree.

The stack is not bounded. The names of the errors come without their reason.
-/

namespace CshellXv6.Shell.Reveal

open Lib List Option

abbrev Name := List Char

inductive Kind where
  | directory
  | link
  | other
deriving DecidableEq, Repr

/-- The answers of the system. `readdir` gives the names that `opendir` and `readdir`
give one after the other, in the order of the system. -/
structure Fs where
  lstat : List Char → Option Kind
  readdir : List Char → Option (List Name)

/-- `home_shell` comes from `getcwd`: it does not begin with a `~`. -/
structure Env where
  home_shell : List Char
  home_ne_tilde : home_shell.head? ≠ some '~'
  fs : Fs

abbrev Env.expand (env : Env) (path : List Char) : List Char :=
  Shell.expand env.home_shell path

inductive Message where
  | reading
  | opening
  | invalid
deriving DecidableEq, Repr

def Message.text : Message → String
  | .reading => "Error reading path"
  | .opening => "Error opening directory"
  | .invalid => "reveal: invalid syntax\n"

/-- What can be seen of a call: the lines and errors it writes, and the calls of
`reveal_direc` it makes. -/
inductive Event where
  | line (text : List Char)
  | call (full_path : List Char)
  | error (message : Message)
deriving DecidableEq, Repr

/-- `snprintf` to a buffer of `PATH_MAX + 2` bytes. -/
def fit (s : List Char) : List Char := s.take (pathMax + 1)

def Env.lstat (env : Env) (p : List Char) : Option Kind :=
  if p.length < pathMax then env.fs.lstat p else none

/-- The array `all`: what is read, up to 10000 names, in the order of `strcmp`. -/
def all (a : Bool) (names : List Name) : List Name :=
  ((names.filter fun name => a || name.head? ≠ some '.').take 10000).insertionSort (· ≤ ·)

/-- `display`. -/
def display (front name : List Char) : List Char :=
  fit (if front = [] then name else front ++ '/' :: name)

variable {s : List Char}

lemma fit_of_lt (h : (fit s).length < pathMax) : fit s = s := by
  refine take_of_length_le ?_
  rw [fit, length_take] at h
  omega

lemma Env.expand_join (env : Env) (path name : List Char) :
    env.expand (env.expand path ++ '/' :: name) = env.expand path ++ '/' :: name :=
  Shell.expand_join env.home_ne_tilde name

/-- The path becomes longer with each call. -/
lemma pathMax_sub_lt (env : Env) {path name : List Char}
    (h : (fit (env.expand path ++ '/' :: name)).length < pathMax) :
    pathMax - (env.expand (fit (env.expand path ++ '/' :: name))).length <
      pathMax - (env.expand path).length := by
  have heq := fit_of_lt h
  rw [heq] at h ⊢
  rw [env.expand_join]
  rw [length_append, length_cons] at h ⊢
  omega

/-- `reveal_direc`; `front` is its parameter `prefix`. -/
def revealDirec (env : Env) (a t : Bool) (path front : List Char) : List Event :=
  match env.lstat (env.expand path) with
  | none => [.error .reading]
  | some .directory =>
    match env.fs.readdir (env.expand path) with
    | none => [.error .opening]
    | some names =>
      (all a names).flatMap fun name =>
        if _h : (fit (env.expand path ++ '/' :: name)).length < pathMax then
          match env.fs.lstat (fit (env.expand path ++ '/' :: name)) with
          | none => []
          | some kind =>
            if t ∧ kind = .directory then
              .line (display front name ++ ['/']) ::
              .call (fit (env.expand path ++ '/' :: name)) ::
              revealDirec env a t (fit (env.expand path ++ '/' :: name))
                (display front name)
            else [.line (display front name)]
        else []
  | some _ => [.line path]
termination_by pathMax - (env.expand path).length
decreasing_by exact pathMax_sub_lt env ‹_›

/-- The letters after a `-`; `none` for a letter that is not known. -/
def flags : List Char → Bool × Bool → Option (Bool × Bool)
  | [], given => some given
  | c :: rest, (a, t) =>
    if c = 'a' then flags rest (true, t)
    else if c = 't' then flags rest (a, true)
    else if c = '\n' ∨ c = '\r' ∨ c = ' ' then flags rest (a, t)
    else none

/-- The loop over the arguments: the flags and the paths. -/
def arguments : List (List Char) → Bool × Bool → Option ((Bool × Bool) × List (List Char))
  | [], given => some (given, [])
  | arg :: rest, given =>
    if arg.head? = some '-' then (flags arg.tail given).bind (arguments rest)
    else (arguments rest given).map fun r => (r.1, arg :: r.2)

/-- `reveal`; `none` if a path is copied to `p` that does not fit. -/
def reveal (env : Env) (input : List (List Char)) : Option (List Event) :=
  match arguments input (false, false) with
  | none => some [.error .invalid]
  | some (_, _ :: _ :: _) => some [.error .invalid]
  | some ((a, t), paths) =>
    let path := paths.head?.getD ['.']
    if (env.expand path).length < pathMax then some (revealDirec env a t path [])
    else none

/-! ## A tree of directories -/

/-- Links and other files are leaves. A directory may be read (`opendir`) and searched
(`lstat` of the paths in it). -/
inductive Node where
  | file
  | link
  | dir (readable searchable : Bool) (entries : List (Name × Node))

def Node.kind : Node → Kind
  | .file => .other
  | .link => .link
  | .dir _ _ _ => .directory

def Node.child : Node → Name → Option Node
  | .dir _ _ entries, name => entries.lookup name
  | _, _ => none

/-- The descendant with this path. -/
def Node.follow (node : Node) : List Name → Option Node
  | [] => some node
  | name :: rest => (node.child name).bind fun child => child.follow rest

mutual

/-- The number of directories. -/
def Node.dirs : Node → Nat
  | .file => 0
  | .link => 0
  | .dir _ _ entries => dirsIn entries + 1

def dirsIn : List (Name × Node) → Nat
  | [] => 0
  | (_, node) :: rest => node.dirs + dirsIn rest

end

mutual

/-- A node and all its descendants, with their paths. -/
def Node.paths : Node → List (List Name × Node)
  | .file => [([], .file)]
  | .link => [([], .link)]
  | .dir readable searchable entries =>
    ([], .dir readable searchable entries) :: pathsIn entries

def pathsIn : List (Name × Node) → List (List Name × Node)
  | [] => []
  | (name, node) :: rest => (node.paths.map fun e => (name :: e.1, e.2)) ++ pathsIn rest

end

/-- A name that a directory can hold, besides `.` and `..`. -/
structure Proper (name : Name) : Prop where
  ne_nil : name ≠ []
  ne_dot : name ≠ ['.']
  ne_dotdot : name ≠ ['.', '.']
  no_slash : '/' ∉ name

/-- No directory has two entries of one name. -/
structure Tree where
  root : Node
  nodup : ∀ names readable searchable entries,
    root.follow names = some (.dir readable searchable entries) → (entries.map Prod.fst).Nodup
  proper : ∀ names readable searchable entries,
    root.follow names = some (.dir readable searchable entries) → ∀ e ∈ entries, Proper e.1

/-- Where a path leads: to a node, below the nodes `above`; out of the tree; nowhere. -/
inductive Place where
  | inside (node : Node) (above : List Node)
  | outside
  | missing

/-- One name of a path. A link is followed here, to a place that is not known. -/
def Place.step : Place → Name → Place
  | .inside (.dir readable searchable entries) above, name =>
    if searchable = false then .missing
    else if name = ['.'] then .inside (.dir readable searchable entries) above
    else if name = ['.', '.'] then
      match above with
      | [] => .outside
      | node :: above => .inside node above
    else
      match entries.lookup name with
      | none => .missing
      | some child => .inside child (.dir readable searchable entries :: above)
  | .inside .file _, _ => .missing
  | .inside .link _, _ => .outside
  | .outside, _ => .outside
  | .missing, _ => .missing

/-- A tree in a file system, at a path. `readdir` gives the names of a directory in some
order. -/
structure Mount where
  path : List Char
  tree : Tree
  order : List Char → List Name → List Name
  order_perm : ∀ q names, (order q names).Perm names
  outside : Fs

abbrev Mount.follow (m : Mount) (names : List Name) : Option Node := m.tree.root.follow names

def Mount.walk (m : Mount) (names : List Name) : Place :=
  names.foldl Place.step (.inside m.tree.root [])

/-- The path is cut at its slashes, after the path of the root. -/
def Mount.place (m : Mount) (q : List Char) : Place :=
  if q = m.path then m.walk []
  else if m.path ++ ['/'] <+: q then m.walk ((q.drop (m.path.length + 1)).splitOn '/')
  else .outside

/-- The names that `readdir` gives of a directory with these entries. -/
abbrev listing (entries : List (Name × Node)) : List Name :=
  ['.'] :: ['.', '.'] :: entries.map Prod.fst

def Mount.fs (m : Mount) : Fs where
  lstat q :=
    match m.place q with
    | .inside node _ => some node.kind
    | .outside => m.outside.lstat q
    | .missing => none
  readdir q :=
    match m.place q with
    | .inside (.dir true _ entries) _ =>
      some (m.order q (listing entries))
    | .outside => m.outside.readdir q
    | _ => none

/-- The path of a descendant. -/
def below (p : List Char) (names : List Name) : List Char :=
  names.foldl (fun q name => q ++ '/' :: name) p

/-! ## What is found in the tree -/

section

variable {m : Mount} {names : List Name} {name : Name} {node child : Node} {p : List Char}

lemma Node.follow_append (node : Node) (names more : List Name) :
    node.follow (names ++ more) = (node.follow names).bind fun n => n.follow more := by
  induction names generalizing node with
  | nil => rfl
  | cons name names ih =>
    rw [cons_append, Node.follow, Node.follow]
    cases node.child name with
    | none => rfl
    | some child => exact ih child

lemma Node.follow_singleton (node : Node) (name : Name) : node.follow [name] = node.child name := by
  rw [Node.follow]
  cases node.child name with
  | none | some child => rfl

lemma Node.follow_snoc (h : node.follow names = some child) (name : Name) :
    node.follow (names ++ [name]) = child.child name := by
  rw [Node.follow_append, h, bind_some, Node.follow_singleton]

lemma mem_pathsIn {entries : List (Name × Node)} (hname : (name, child) ∈ entries)
    (h : (names, node) ∈ child.paths) : (name :: names, node) ∈ pathsIn entries := by
  induction entries with
  | nil => cases hname
  | cons e entries ih =>
    rw [pathsIn]
    rcases mem_cons.mp hname with rfl | hname
    · exact mem_append_left _ (List.mem_map.mpr ⟨(names, node), h, rfl⟩)
    · exact mem_append_right _ (ih hname)

/-- A tree is finite: what holds of the nodes in the list holds of all descendants. -/
lemma Node.mem_paths (h : node.follow names = some child) : (names, child) ∈ node.paths := by
  induction names generalizing node with
  | nil =>
    obtain rfl := Option.some.inj h
    cases node with
    | file | link => exact mem_singleton.mpr rfl
    | dir readable searchable entries => exact mem_cons_self
  | cons name names ih =>
    rw [Node.follow] at h
    obtain ⟨next, hnext, hrest⟩ := bind_eq_some_iff.mp h
    cases node with
    | file | link => cases hnext
    | dir readable searchable entries =>
      rw [Node.paths]
      exact mem_cons_of_mem _ (mem_pathsIn (mem_of_lookup hnext) (ih hrest))

lemma below_snoc (p : List Char) (names : List Name) (name : Name) :
    below p (names ++ [name]) = below p names ++ '/' :: name := by
  rw [below, foldl_append]
  rfl

lemma below_cons (p : List Char) (name : Name) (names : List Name) :
    below p (name :: names) = p ++ '/' :: ['/'].intercalate (name :: names) := by
  induction names generalizing p name with
  | nil => simp [below]
  | cons next names ih =>
    have hstep : below p (name :: next :: names) = below (p ++ '/' :: name) (next :: names) := rfl
    rw [hstep, ih, intercalate_cons_cons]
    simp

lemma Mount.walk_snoc (m : Mount) (names : List Name) (name : Name) :
    m.walk (names ++ [name]) = (m.walk names).step name := by
  rw [Mount.walk, foldl_append]
  rfl

/-- The path of a descendant is taken apart into its names. -/
lemma Mount.place_below (m : Mount) (h : ∀ name ∈ names, '/' ∉ name) :
    m.place (below m.path names) = m.walk names := by
  cases names with
  | nil => exact if_pos rfl
  | cons name names =>
    have hne : below m.path (name :: names) ≠ m.path := by
      intro heq
      have hlen := congrArg List.length heq
      rw [below_cons, length_append, length_cons] at hlen
      omega
    have hfront : m.path ++ ['/'] <+: below m.path (name :: names) :=
      ⟨['/'].intercalate (name :: names), by rw [below_cons]; simp⟩
    have hdrop : (below m.path (name :: names)).drop (m.path.length + 1) =
        ['/'].intercalate (name :: names) := by
      rw [below_cons]
      simp
    rw [Mount.place, if_neg hne, if_pos hfront, hdrop,
      splitOn_intercalate '/' h (cons_ne_nil name names)]

lemma Tree.proper_of_follow (tree : Tree) (h : tree.root.follow names = some node) :
    ∀ name ∈ names, Proper name := by
  induction names using List.reverseRecOn generalizing node with
  | nil =>
    intro name hname
    cases hname
  | append_singleton names last ih =>
    rw [Node.follow_append] at h
    obtain ⟨parent, hparent, hlast⟩ := bind_eq_some_iff.mp h
    rw [Node.follow_singleton] at hlast
    intro name hname
    rcases mem_append.mp hname with hname | hname
    · exact ih hparent name hname
    obtain rfl := mem_singleton.mp hname
    cases parent with
    | file | link => cases hlast
    | dir readable searchable entries =>
      exact tree.proper names readable searchable entries hparent (name, node) (mem_of_lookup hlast)

/-- A path in the tree leads to its descendant, unless a directory on the way may not be
searched. -/
lemma Mount.walk_cases (h : m.follow names = some node) :
    (∃ above, m.walk names = .inside node above) ∨
    m.walk names = .missing ∧
      ∃ names' readable entries,
        m.follow names' = some (.dir readable false entries) := by
  induction names using List.reverseRecOn generalizing node with
  | nil => exact .inl ⟨[], by rw [← Option.some.inj h]; rfl⟩
  | append_singleton names last ih =>
    have hlast := m.tree.proper_of_follow h last (by simp)
    rw [Mount.follow, Node.follow_append] at h
    obtain ⟨parent, hparent, hchild⟩ := bind_eq_some_iff.mp h
    rw [Node.follow_singleton] at hchild
    rw [Mount.walk_snoc]
    rcases ih hparent with ⟨above, hinside⟩ | ⟨hmissing, hclosed⟩
    · rw [hinside]
      cases parent with
      | file | link => cases hchild
      | dir readable searchable entries =>
        cases searchable with
        | false => exact .inr ⟨rfl, names, readable, entries, hparent⟩
        | true =>
          left
          refine ⟨.dir readable true entries :: above, ?_⟩
          have hlookup : entries.lookup last = some node := hchild
          simp [Place.step, hlast.ne_dot, hlast.ne_dotdot, hlookup]
    · -- nothing is found below a path that leads nowhere
      rw [hmissing]
      exact .inr ⟨rfl, hclosed⟩

lemma Mount.place_of_follow (h : m.follow names = some node) :
    m.place (below m.path names) = m.walk names :=
  m.place_below fun name hname => (m.tree.proper_of_follow h name hname).no_slash

end

/-- All directories of the tree may be read and searched. -/
def Mount.Readable (m : Mount) : Prop :=
  ∀ names readable searchable entries,
    m.follow names = some (.dir readable searchable entries) →
    readable = true ∧ searchable = true

/-! ## One call -/

/-- One round of the loop over `all`, in the directory `p`. -/
def visit (env : Env) (a t : Bool) (p front : List Char) (name : Name) : List Event :=
  match env.lstat (fit (p ++ '/' :: name)) with
  | none => []
  | some kind =>
    if t ∧ kind = .directory then
      .line (display front name ++ ['/']) :: .call (fit (p ++ '/' :: name)) ::
        revealDirec env a t (fit (p ++ '/' :: name)) (display front name)
    else [.line (display front name)]

section

variable {env : Env} {m : Mount} {a t : Bool} {path front p : List Char} {names listed : List Name}
    {name : Name} {node : Node} {kind : Kind}

lemma fit_eq_self (h : s.length < pathMax) : fit s = s :=
  take_of_length_le (by omega)

/-- A path that is cut off is too long for the system. -/
lemma Env.lstat_fit (env : Env) (s : List Char) : env.lstat (fit s) = env.lstat s := by
  by_cases h : s.length < pathMax
  · rw [fit_eq_self h]
  have hfit : ¬ (fit s).length < pathMax := by
    rw [fit, length_take]
    omega
  rw [Env.lstat, Env.lstat, if_neg h, if_neg hfit]

lemma length_lt_of_lstat (h : env.lstat p = some kind) : p.length < pathMax := by
  by_contra hlong
  rw [Env.lstat, if_neg hlong] at h
  cases h

lemma revealDirec_of_none (h : env.lstat (env.expand path) = none) :
    revealDirec env a t path front = [.error .reading] := by
  rw [revealDirec, h]

lemma revealDirec_of_leaf (hne : kind ≠ .directory)
    (h : env.lstat (env.expand path) = some kind) :
    revealDirec env a t path front = [.line path] := by
  rw [revealDirec, h]
  cases kind with
  | directory => exact absurd rfl hne
  | link | other => rfl

lemma revealDirec_of_closed (h : env.lstat (env.expand path) = some .directory)
    (hread : env.fs.readdir (env.expand path) = none) :
    revealDirec env a t path front = [.error .opening] := by
  rw [revealDirec, h]
  dsimp only
  rw [hread]

lemma revealDirec_of_listed (h : env.lstat (env.expand path) = some .directory)
    (hread : env.fs.readdir (env.expand path) = some listed) :
    revealDirec env a t path front =
      (all a listed).flatMap (visit env a t (env.expand path) front) := by
  rw [revealDirec, h]
  dsimp only
  rw [hread]
  dsimp only
  refine flatMap_congr fun name _ => ?_
  rw [visit, Env.lstat]
  split
  all_goals rfl

lemma visit_of_none (h : env.lstat (p ++ '/' :: name) = none) :
    visit env a t p front name = [] := by
  rw [visit, Env.lstat_fit, h]

lemma visit_of_leaf (h : env.lstat (p ++ '/' :: name) = some kind)
    (hleaf : ¬ (t = true ∧ kind = .directory)) :
    visit env a t p front name = [.line (display front name)] := by
  rw [visit, Env.lstat_fit, h]
  exact if_neg hleaf

lemma visit_of_dir (h : env.lstat (p ++ '/' :: name) = some .directory) :
    visit env a true p front name = .line (display front name ++ ['/']) ::
      .call (p ++ '/' :: name) ::
      revealDirec env a true (p ++ '/' :: name) (display front name) := by
  rw [visit, Env.lstat_fit, h, fit_eq_self (length_lt_of_lstat h)]
  exact if_pos ⟨rfl, rfl⟩

lemma mem_of_mem_all (h : name ∈ all a listed) :
    name ∈ listed ∧ (a = true ∨ name.head? ≠ some '.') := by
  have hmem := mem_of_mem_take ((perm_insertionSort _ _).mem_iff.mp h)
  have hfilter := mem_filter.mp hmem
  exact ⟨hfilter.1, by simpa using hfilter.2⟩

lemma nodup_all (h : listed.Nodup) : (all a listed).Nodup :=
  (perm_insertionSort _ _).nodup_iff.mpr ((h.filter _).sublist (take_sublist 10000 _))

/-- What `lstat` says about a path in the tree. -/
lemma lstat_below (hfs : env.fs = m.fs) (hnode : m.follow names = some node) :
    env.lstat (below m.path names) = none ∨ env.lstat (below m.path names) = some node.kind := by
  rw [Env.lstat]
  split
  · rw [hfs, Mount.fs]
    dsimp only
    rw [Mount.place_of_follow hnode]
    rcases Mount.walk_cases hnode with ⟨above, hinside⟩ | ⟨hmissing, -⟩
    · right
      rw [hinside]
    · left
      rw [hmissing]
  · exact .inl rfl

lemma walk_of_readable (hreadable : m.Readable) (hnode : m.follow names = some node) :
    ∃ above, m.walk names = .inside node above := by
  rcases Mount.walk_cases hnode with hinside | ⟨-, names', readable, entries, hclosed⟩
  · exact hinside
  · cases (hreadable names' readable false entries hclosed).2

lemma lstat_of_readable (hfs : env.fs = m.fs) (hreadable : m.Readable)
    (hnode : m.follow names = some node) (hshort : (below m.path names).length < pathMax)
    : env.lstat (below m.path names) = some node.kind := by
  obtain ⟨above, hinside⟩ := walk_of_readable hreadable hnode
  rw [Env.lstat, if_pos hshort, hfs, Mount.fs]
  dsimp only
  rw [Mount.place_of_follow hnode, hinside]

/-- The names of a directory of the tree that was found. -/
lemma readdir_below {readable searchable : Bool} {entries : List (Name × Node)} {above : List Node}
    (hfs : env.fs = m.fs) (hplace : m.place p = .inside (.dir readable searchable entries) above) :
    env.fs.readdir p = if readable then
      some (m.order p (listing entries)) else none := by
  rw [hfs, Mount.fs]
  dsimp only
  rw [hplace]
  cases readable with
  | true | false => rfl

/-- The names of a directory of the tree, once `lstat` has found it. -/
lemma readdir_of_follow {readable searchable : Bool} {entries : List (Name × Node)}
    (hfs : env.fs = m.fs)
    (hnode : m.follow names = some (.dir readable searchable entries))
    (hlstat : env.lstat (below m.path names) = some kind) :
    env.fs.readdir (below m.path names) = if readable then
      some (m.order (below m.path names) (listing entries))
      else none := by
  have hplace := Mount.place_of_follow hnode
  rcases Mount.walk_cases hnode with ⟨above, hinside⟩ | ⟨hmissing, -⟩
  · exact readdir_below hfs (hplace.trans hinside)
  rw [Env.lstat, if_pos (length_lt_of_lstat hlstat), hfs, Mount.fs] at hlstat
  dsimp only at hlstat
  rw [hplace, hmissing] at hlstat
  cases hlstat

end

/-! ## A small tree -/

def Node.entryNames : Node → List Name
  | .dir _ _ entries => entries.map Prod.fst
  | _ => []

def Node.mayList : Node → Bool
  | .dir readable searchable _ => readable && searchable
  | _ => true

/-- A directory with two files, one of them hidden, a directory and a link. -/
def sampleRoot : Node :=
  .dir true true
    [(['b'], .file), (['a'], .dir true true [(['x'], .file)]), (['.', 'h'], .file), (['u'], .link)]

def sampleTree : Tree where
  root := sampleRoot
  nodup names readable searchable entries h := by
    have hall : ∀ e ∈ sampleRoot.paths, e.2.entryNames.Nodup := by decide
    exact hall _ (Node.mem_paths h)
  proper names readable searchable entries h e he := by
    have hall : ∀ e ∈ sampleRoot.paths, ∀ name ∈ e.2.entryNames,
        name ≠ [] ∧ name ≠ ['.'] ∧ name ≠ ['.', '.'] ∧ '/' ∉ name := by decide
    obtain ⟨hnil, hdot, hdotdot, hslash⟩ :=
      hall _ (Node.mem_paths h) e.1 (List.mem_map_of_mem he)
    exact ⟨hnil, hdot, hdotdot, hslash⟩

/-- The tree is the directory `d`. -/
def sampleMount : Mount where
  path := ['d']
  tree := sampleTree
  order _ names := names
  order_perm _ names := List.Perm.refl names
  outside := ⟨fun _ => none, fun _ => none⟩

def sampleEnv : Env where
  home_shell := ['/']
  home_ne_tilde := by decide
  fs := sampleMount.fs

lemma readable_sampleMount : sampleMount.Readable := by
  intro names readable searchable entries h
  have hall : ∀ e ∈ sampleRoot.paths, e.2.mayList = true := by decide
  exact Bool.and_eq_true_iff.mp (hall _ (Node.mem_paths h))

lemma few_sampleMount {names : List Name} {readable searchable : Bool}
    {entries : List (Name × Node)}
    (h : sampleMount.follow names = some (.dir readable searchable entries)) :
    entries.length ≤ 4 := by
  have hall : ∀ e ∈ sampleRoot.paths, e.2.entryNames.length ≤ 4 := by decide
  rw [← length_map]
  exact hall _ (Node.mem_paths h)

lemma short_sampleMount {names : List Name} {node : Node}
    (h : sampleMount.follow names = some node) :
    (below sampleMount.path names).length < pathMax := by
  have hall : ∀ e ∈ sampleRoot.paths, (below ['d'] e.1).length < pathMax := by decide
  exact hall _ (Node.mem_paths h)

end CshellXv6.Shell.Reveal
