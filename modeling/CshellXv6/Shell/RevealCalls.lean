import CshellXv6.Shell.Reveal

/-! # How often `reveal` calls itself

Without `-a`, or without `-t`, `reveal_direc` is called at most once for each directory
of the tree. With both, the entries `.` and `..` are directories like any other, and are
entered: the calls only come to an end because the path grows until the system refuses it.
The bound then only holds if the root cannot be entered in this way.
-/

namespace CshellXv6.Shell.Reveal

open Lib List

def Event.isCall : Event → Bool
  | .call _ => true
  | _ => false

/-- The number of recursive calls. -/
def calls (events : List Event) : Nat := events.countP Event.isCall

/-- The number of directories below a node. -/
def Node.inner : Node → Nat
  | .dir _ _ entries => dirsIn entries
  | _ => 0

/-- Two entries that are no directories of the tree can be entered: the root can be opened and
searched, and there is room for `/./.` after its path, or at least for `/..`, and that is
found. -/
structure Mount.Entered (m : Mount) : Prop where
  exists_eq : ∃ entries, m.tree.root = .dir true true entries
  room : m.path.length + 4 < pathMax ∨ m.path.length + 4 = pathMax ∧
    m.outside.lstat (m.path ++ ['/', '.', '.']) = some .directory

/-- Trees that `reveal` can list as a whole: all directories can be read, none has more names
than fit the array `all`, and no path is too long. -/
structure Mount.Ordinary (m : Mount) : Prop where
  readable : m.Readable
  few : ∀ names readable searchable entries,
    m.follow names = some (.dir readable searchable entries) →
    entries.length + 2 ≤ 10000
  short : ∀ names node, m.follow names = some node → (below m.path names).length < pathMax

lemma Node.inner_le_dirs (node : Node) : node.inner ≤ node.dirs := by
  cases node with
  | file | link => exact Nat.zero_le _
  | dir readable searchable entries =>
    rw [Node.dirs]
    exact Nat.le_succ _

lemma dirsIn_eq (entries : List (Name × Node)) :
    dirsIn entries = (entries.map fun e => e.2.dirs).sum := by
  induction entries with
  | nil => rw [dirsIn, map_nil, sum_nil]
  | cons e entries ih => rw [dirsIn, map_cons, sum_cons, ih]

lemma calls_flatMap {β : Type} (l : List β) (f : β → List Event) :
    calls (l.flatMap f) = (l.map fun b => calls (f b)).sum :=
  countP_flatMap

lemma calls_cons_line (text : List Char) (events : List Event) :
    calls (.line text :: events) = calls events :=
  countP_cons_of_neg (by simp [Event.isCall])

lemma calls_cons_call (path : List Char) (events : List Event) :
    calls (.call path :: events) = calls events + 1 :=
  countP_cons_of_pos rfl

section

variable {env : Env} {m : Mount} {a t readable searchable : Bool} {path front p : List Char}
  {names listed : List Name} {name : Name} {node : Node} {entries : List (Name × Node)} {k : Nat}

/-! ## At most one call for a directory -/

lemma calls_visit_le
    (hlstat : env.lstat (p ++ '/' :: name) = none ∨ env.lstat (p ++ '/' :: name) = some node.kind)
    (hcalls : ∀ front, calls (revealDirec env a t (p ++ '/' :: name) front) ≤ node.inner) :
    calls (visit env a t p front name) ≤ node.dirs := by
  rcases hlstat with hnone | hsome
  · rw [visit_of_none hnone]
    exact Nat.zero_le _
  by_cases hdir : t = true ∧ node.kind = .directory
  · obtain ⟨rfl, hkind⟩ := hdir
    rw [hkind] at hsome
    rw [visit_of_dir hsome, calls_cons_line, calls_cons_call]
    have hle := hcalls (display front name)
    cases node with
    | file | link => cases hkind
    | dir readable searchable entries =>
      rw [Node.dirs]
      exact Nat.succ_le_succ hle
  · rw [visit_of_leaf hsome hdir]
    exact Nat.zero_le _

lemma calls_visit_eq_zero (h : ¬ (t = true ∧ env.lstat (p ++ '/' :: name) = some .directory)) :
    calls (visit env a t p front name) = 0 := by
  cases hentry : env.lstat (p ++ '/' :: name) with
  | none => rw [visit_of_none hentry]; rfl
  | some kind =>
    rw [visit_of_leaf hentry fun hdir => h ⟨hdir.1, hdir.2 ▸ hentry⟩]
    rfl

/-- All calls are made for what is listed. -/
lemma calls_le {n : Nat} (h : ∀ listed, env.fs.readdir (env.expand path) = some listed →
      ((all a listed).map fun name =>
        calls (visit env a t (env.expand path) front name)).sum ≤ n) :
    calls (revealDirec env a t path front) ≤ n := by
  cases hlstat : env.lstat (env.expand path) with
  | none => rw [revealDirec_of_none hlstat]; exact Nat.zero_le _
  | some kind =>
    by_cases hkind : kind = .directory
    · subst hkind
      cases hread : env.fs.readdir (env.expand path) with
      | none => rw [revealDirec_of_closed hlstat hread]; exact Nat.zero_le _
      | some listed =>
        rw [revealDirec_of_listed hlstat hread, calls_flatMap]
        exact h listed hread
    · rw [revealDirec_of_leaf hkind hlstat]
      exact Nat.zero_le _

/-- No call is made without `-t`, or from a directory whose entries are not found. -/
lemma calls_eq_zero (h : ∀ listed, env.fs.readdir (env.expand path) = some listed →
      ∀ name ∈ listed,
        ¬ (t = true ∧ env.lstat (env.expand path ++ '/' :: name) = some .directory)) :
    calls (revealDirec env a t path front) = 0 := by
  refine Nat.le_zero.mp (calls_le fun listed hread => (sum_eq_zero fun n hn => ?_).le)
  obtain ⟨name, hname, rfl⟩ := mem_map.mp hn
  exact calls_visit_eq_zero (h listed hread name (mem_of_mem_all hname).1)

/-- The visible names of a directory are those of its entries. -/
lemma mem_entries_of_mem_all
    (h : name ∈ all false (m.order p (listing entries))) :
    name ∈ entries.map Prod.fst := by
  obtain ⟨hmem, hdot⟩ := mem_of_mem_all h
  have hvisible : name.head? ≠ some '.' := by simpa using hdot
  rcases mem_cons.mp ((m.order_perm p _).mem_iff.mp hmem) with rfl | hmem
  · exact absurd rfl hvisible
  rcases mem_cons.mp hmem with rfl | hmem
  · exact absurd rfl hvisible
  · exact hmem

lemma proper_of_mem (hnode : m.follow names = some (.dir readable searchable entries))
    (h : name ∈ entries.map Prod.fst) : Proper name := by
  obtain ⟨e, he, rfl⟩ := mem_map.mp h
  exact m.tree.proper names readable searchable entries hnode e he

/-- The names that `readdir` gives are different. -/
lemma nodup_listed (hnode : m.follow names = some (.dir readable searchable entries)) :
    (m.order p (listing entries)).Nodup := by
  have hproper : ∀ name ∈ entries.map Prod.fst, Proper name := fun _ => proper_of_mem hnode
  refine (m.order_perm p _).nodup_iff.mpr ?_
  rw [nodup_cons, nodup_cons]
  refine ⟨?_, ?_, m.tree.nodup names readable searchable entries hnode⟩
  · intro hmem
    rcases mem_cons.mp hmem with heq | hmem
    · cases heq
    · exact (hproper _ hmem).ne_dot rfl
  · exact fun hmem => (hproper _ hmem).ne_dotdot rfl

/-- Without `-a`. The induction is on how much longer the path may become. -/
lemma calls_le_inner (hfs : env.fs = m.fs) (n : Nat) (names : List Name) (path front : List Char)
    (node : Node) (hn : pathMax ≤ (env.expand path).length + n)
    (hpath : env.expand path = below m.path names)
    (hnode : m.follow names = some node) :
    calls (revealDirec env false true path front) ≤ node.inner := by
  induction n generalizing names path front node with
  | zero =>
    -- the path is too long
    have hnone : env.lstat (env.expand path) = none := if_neg (by omega)
    rw [revealDirec_of_none hnone]
    exact Nat.zero_le _
  | succ n ih =>
    rcases lstat_below hfs hnode with hnone | hsome
    · rw [← hpath] at hnone
      rw [revealDirec_of_none hnone]
      exact Nat.zero_le _
    rw [← hpath] at hsome
    cases node with
    | file | link => rw [revealDirec_of_leaf (by decide) hsome]; exact Nat.zero_le _
    | dir readable searchable entries =>
      have hread := readdir_of_follow hfs hnode (hpath ▸ hsome)
      rw [← hpath] at hread
      cases readable with
      | false => rw [revealDirec_of_closed hsome hread]; exact Nat.zero_le _
      | true =>
        rw [revealDirec_of_listed hsome hread, calls_flatMap, Node.inner, dirsIn_eq]
        refine sum_map_le_of_lookup (m.tree.nodup names true searchable entries hnode)
          (nodup_all (nodup_listed hnode)) (fun name hname => mem_entries_of_mem_all hname)
          fun name hname child hchild => ?_
        -- one level further down
        have hfollow : m.follow (names ++ [name]) = some child :=
          (Node.follow_snoc hnode name).trans hchild
        have hbelow : env.expand path ++ '/' :: name =
            below m.path (names ++ [name]) := by rw [below_snoc, hpath]
        refine calls_visit_le (hbelow ▸ lstat_below hfs hfollow) fun front => ?_
        have hexpand := env.expand_join path name
        refine ih (names ++ [name]) _ front child ?_ (hexpand.trans hbelow) hfollow
        rw [hexpand, length_append, length_cons]
        omega

/-! ## A root that is not entered -/

/-- The names that `readdir` gives of a node of the tree. -/
lemma listed_of_inside {above : List Node} (hfs : env.fs = m.fs)
    (hplace : m.place p = .inside node above) (h : env.fs.readdir p = some listed) :
    ∃ searchable entries, node = .dir true searchable entries ∧
      listed = m.order p (listing entries) := by
  rw [hfs, Mount.fs] at h
  dsimp only at h
  rw [hplace] at h
  cases node with
  | file | link => cases h
  | dir readable searchable entries =>
    cases readable with
    | false => cases h
    | true => exact ⟨searchable, entries, rfl, (Option.some.inj h).symm⟩

/-- Such a name is a component of a path. -/
lemma component_of_mem_listed
    (hnode : m.follow names = some (.dir readable searchable entries))
    (h : name ∈ m.order p (listing entries)) :
    name ≠ [] ∧ '/' ∉ name := by
  rcases mem_cons.mp ((m.order_perm p _).mem_iff.mp h) with rfl | hmem
  · decide
  rcases mem_cons.mp hmem with rfl | hmem
  · decide
  · have hproper := proper_of_mem hnode hmem
    exact ⟨hproper.ne_nil, hproper.no_slash⟩

/-- No call is made where there is no room for a name after the path. -/
lemma calls_eq_zero_of_long {above : List Node} (hfs : env.fs = m.fs)
    (hpath : env.expand path = p) (hplace : m.place p = .inside node above)
    (hnode : m.follow names = some node) (hlong : pathMax ≤ p.length + 2) :
    calls (revealDirec env a t path front) = 0 := by
  subst hpath
  refine calls_eq_zero ?_
  rintro listed hread name hname ⟨-, hdir⟩
  obtain ⟨searchable, entries, rfl, rfl⟩ := listed_of_inside hfs hplace hread
  have hne : 0 < name.length := length_pos_iff.mpr (component_of_mem_listed hnode hname).1
  have hshort := length_lt_of_lstat hdir
  rw [length_append, length_cons] at hshort
  omega

lemma calls_visit_le_one
    (hcalls : ∀ front, calls (revealDirec env a t (p ++ '/' :: name) front) = 0) :
    calls (visit env a t p front name) ≤ 1 := by
  by_cases hdir : t = true ∧ env.lstat (p ++ '/' :: name) = some .directory
  · obtain ⟨rfl, hdir⟩ := hdir
    rw [visit_of_dir hdir, calls_cons_line, calls_cons_call, hcalls]
  · rw [calls_visit_eq_zero hdir]
    exact Nat.zero_le _

/-- What is left out of `all` can only add to the calls. -/
lemma sum_all_le (f : Name → Nat) : ((all a listed).map f).sum ≤ (listed.map f).sum := by
  rw [all, ((perm_insertionSort _ _).map f).sum_eq]
  exact (((take_sublist _ _).trans filter_sublist).map f).sum_le_sum fun _ _ => Nat.zero_le _

/-- `/.` after the path of the root leads to the root. -/
lemma place_dots (hroot : m.tree.root = .dir readable true entries) (k : Nat) :
    m.place (below m.path (List.replicate k ['.'])) = .inside m.tree.root [] := by
  have hwalk : m.walk (List.replicate k ['.']) = .inside m.tree.root [] := by
    induction k with
    | zero => rfl
    | succ k ih =>
      rw [replicate_succ', Mount.walk_snoc, ih, hroot]
      simp [Place.step]
  rw [m.place_below, hwalk]
  intro name hname
  rw [eq_of_mem_replicate hname]
  decide

/-- `/..` after the path of the root leads out of the tree. -/
lemma lstat_dotdot (hfs : env.fs = m.fs) (hroot : m.tree.root = .dir readable true entries)
    (hshort : m.path.length + 3 < pathMax) :
    env.lstat (m.path ++ ['/', '.', '.']) = m.outside.lstat (m.path ++ ['/', '.', '.']) := by
  have hplace : m.place (below m.path [['.', '.']]) = .outside := by
    rw [m.place_below (by decide), Mount.walk, foldl_cons, foldl_nil, hroot]
    simp [Place.step]
  rw [Env.lstat, if_pos (by rw [length_append]; exact hshort), hfs, Mount.fs]
  dsimp only
  rw [show m.place (m.path ++ ['/', '.', '.']) = .outside from hplace]

/-- A root that can be listed, but has no room after its path: apart from its entries, only
its `.` can be entered. -/
lemma calls_le_of_no_room (hfs : env.fs = m.fs) (hpath : env.expand path = m.path)
    (hroot : m.tree.root = .dir true true entries) (hlong : pathMax ≤ m.path.length + 4)
    (hdotdot : m.path.length + 4 = pathMax →
      m.outside.lstat (m.path ++ ['/', '.', '.']) ≠ some .directory) :
    calls (revealDirec env a t path front) ≤ m.tree.root.dirs := by
  have hexpand : ∀ name : Name,
      env.expand (m.path ++ '/' :: name) = m.path ++ '/' :: name := by
    rw [← hpath]
    exact fun name => env.expand_join _ name
  have hnode : m.follow [] = some (.dir true true entries) := congrArg some hroot
  have hdot : calls (visit env a t m.path front ['.']) ≤ 1 :=
    calls_visit_le_one fun front => calls_eq_zero_of_long hfs (hexpand ['.'])
      ((place_dots hroot 1).trans (by rw [hroot])) hnode (by simp; omega)
  have hup : calls (visit env a t m.path front ['.', '.']) = 0 := by
    refine calls_visit_eq_zero ?_
    rintro ⟨-, hdir⟩
    have hshort := length_lt_of_lstat hdir
    rw [length_append] at hshort
    simp only [length_cons, length_nil] at hshort
    rw [lstat_dotdot hfs hroot (by omega)] at hdir
    exact hdotdot (by omega) hdir
  have hentries : ((entries.map Prod.fst).map fun name =>
      calls (visit env a t m.path front name)).sum ≤ dirsIn entries := by
    rw [dirsIn_eq]
    have hnodup := m.tree.nodup [] true true entries hnode
    refine sum_map_le_of_lookup hnodup hnodup (fun _ => id) fun name hname child hchild => ?_
    have hfollow : m.follow [name] = some child :=
      (Node.follow_snoc hnode name).trans hchild
    refine calls_visit_le (lstat_below hfs hfollow) fun front => ?_
    rcases Mount.walk_cases hfollow with ⟨above, hinside⟩ | ⟨hmissing, -⟩
    · have hne := length_pos_iff.mpr (proper_of_mem hnode hname).ne_nil
      rw [calls_eq_zero_of_long hfs (hexpand name)
        ((Mount.place_of_follow hfollow).trans hinside) hfollow (by simp; omega)]
      exact Nat.zero_le _
    · rw [Mount.walk, foldl_cons, foldl_nil, hroot] at hmissing
      have hproper := proper_of_mem hnode hname
      simp [Place.step, hproper.ne_dot, hproper.ne_dotdot, hchild] at hmissing
  refine calls_le fun listed hread => (sum_all_le _).trans ?_
  have hplace : m.place m.path = .inside (.dir true true entries) [] :=
    (place_dots hroot 0).trans (by rw [hroot])
  rw [hpath, readdir_below hfs hplace, if_pos rfl] at hread
  cases hread
  rw [hpath, ((m.order_perm m.path _).map _).sum_eq, map_cons, map_cons, sum_cons, sum_cons, hup,
    hroot, Node.dirs]
  omega

/-- The bound holds if the root is not entered, whatever the flags. -/
lemma calls_le_of_not_entered (hfs : env.fs = m.fs)
    (hpath : env.expand path = m.path) (h : ¬ m.Entered) :
    calls (revealDirec env a t path front) ≤ m.tree.root.dirs := by
  by_cases hopen : ∃ entries, m.tree.root = .dir true true entries
  · obtain ⟨entries, hroot⟩ := hopen
    refine calls_le_of_no_room hfs hpath hroot ?_ fun hroom hdir => h ⟨⟨entries, hroot⟩, ?_⟩
    · by_contra hroom
      exact h ⟨⟨entries, hroot⟩, .inl (by omega)⟩
    · exact .inr ⟨hroom, hdir⟩
  -- nothing is found below the root
  refine (calls_eq_zero ?_).le.trans (Nat.zero_le _)
  rw [hpath]
  rintro listed hread name hname ⟨-, hdir⟩
  have hplace : m.place m.path = .inside m.tree.root [] := if_pos rfl
  obtain ⟨searchable, entries, hroot, rfl⟩ := listed_of_inside hfs hplace hread
  cases searchable with
  | true => exact hopen ⟨entries, hroot⟩
  | false =>
    have hnode : m.follow [] = some (.dir true false entries) := congrArg some hroot
    have hslash := (component_of_mem_listed hnode hname).2
    have hmissing : m.place (below m.path [name]) = .missing := by
      rw [m.place_below (by simpa using hslash), Mount.walk, foldl_cons, foldl_nil, hroot]
      rfl
    rw [Env.lstat, if_pos (length_lt_of_lstat hdir), hfs, Mount.fs] at hdir
    dsimp only at hdir
    rw [show m.place (m.path ++ '/' :: name) = .missing from hmissing] at hdir
    cases hdir

/-! ## With both flags -/

lemma all_perm (h : listed.length ≤ 10000) : (all true listed).Perm listed := by
  have hfilter : (listed.filter fun name => true || name.head? ≠ some '.') = listed :=
    filter_eq_self.mpr fun _ _ => rfl
  rw [all, hfilter, take_of_length_le h]
  exact perm_insertionSort _ _

/-- The calls for `.`, for `..` and for the entries. -/
lemma calls_listed {above : List Node} (hfs : env.fs = m.fs)
    (hpath : env.expand path = p) (hshort : p.length < pathMax)
    (hplace : m.place p = .inside (.dir true searchable entries) above)
    (hfew : entries.length + 2 ≤ 10000) :
    calls (revealDirec env true true path front) =
      calls (visit env true true p front ['.']) + (calls (visit env true true p front ['.', '.']) +
      ((entries.map Prod.fst).map fun name => calls (visit env true true p front name)).sum) := by
  subst hpath
  have hlstat : env.lstat (env.expand path) = some .directory := by
    rw [Env.lstat, if_pos hshort, hfs, Mount.fs]
    dsimp only
    rw [hplace]
    rfl
  have hperm := m.order_perm (env.expand path)
    (listing entries)
  have hlength : (m.order (env.expand path)
      (listing entries)).length ≤ 10000 := by
    rw [hperm.length_eq, length_cons, length_cons, length_map]
    omega
  rw [revealDirec_of_listed hlstat ((readdir_below hfs hplace).trans (if_pos rfl)), calls_flatMap,
    (((all_perm hlength).trans hperm).map _).sum_eq, map_cons, map_cons,
    sum_cons, sum_cons]

lemma dirs_le_calls_visit (hlstat : env.lstat (p ++ '/' :: name) = some node.kind)
    (hcalls : ∀ front, node.inner ≤ calls (revealDirec env a true (p ++ '/' :: name) front)) :
    node.dirs ≤ calls (visit env a true p front name) := by
  cases node with
  | file | link => rw [Node.dirs]; exact Nat.zero_le _
  | dir readable searchable entries =>
    rw [visit_of_dir hlstat, calls_cons_line, calls_cons_call, Node.dirs]
    exact Nat.succ_le_succ (hcalls (display front name))

/-- The entries of a directory, when all directories below them are entered. -/
lemma dirsIn_le_sum_visit (hfs : env.fs = m.fs) (hm : m.Ordinary)
    (hnode : m.follow names = some (.dir readable searchable entries))
    (hcalls : ∀ name child front, m.follow (names ++ [name]) = some child →
      child.inner ≤ calls (revealDirec env a true (below m.path names ++ '/' :: name) front)) :
    dirsIn entries ≤ ((entries.map Prod.fst).map fun name =>
      calls (visit env a true (below m.path names) front name)).sum := by
  rw [dirsIn_eq]
  refine le_sum_map_of_lookup (m.tree.nodup names readable searchable entries hnode)
    fun name child hchild => ?_
  have hfollow : m.follow (names ++ [name]) = some child :=
    (Node.follow_snoc hnode name).trans hchild
  have hlstat := lstat_of_readable hfs hm.readable hfollow (hm.short _ child hfollow)
  rw [below_snoc] at hlstat
  exact dirs_le_calls_visit hlstat fun front => hcalls name child front hfollow

/-- All directories below one are entered. -/
lemma inner_le_calls (hfs : env.fs = m.fs) (hm : m.Ordinary) (n : Nat) (names : List Name)
    (path front : List Char) (node : Node) (hn : pathMax ≤ (env.expand path).length + n)
    (hpath : env.expand path = below m.path names)
    (hnode : m.follow names = some node) :
    node.inner ≤ calls (revealDirec env true true path front) := by
  induction n generalizing names path front node with
  | zero =>
    have hshort := hm.short names node hnode
    rw [hpath] at hn
    omega
  | succ n ih =>
    cases node with
    | file | link => exact Nat.zero_le _
    | dir readable searchable entries =>
      obtain ⟨rfl, rfl⟩ := hm.readable names readable searchable entries hnode
      obtain ⟨above, hinside⟩ := walk_of_readable hm.readable hnode
      rw [calls_listed hfs hpath (hm.short names _ hnode)
        ((Mount.place_of_follow hnode).trans hinside) (hm.few names true true entries hnode)]
      refine le_trans ?_ (Nat.le_trans (Nat.le_add_left _ _) (Nat.le_add_left _ _))
      refine dirsIn_le_sum_visit hfs hm hnode fun name child front hchild => ?_
      have hexpand := env.expand_join path name
      rw [hpath] at hexpand
      refine ih (names ++ [name]) _ front child ?_ ?_ hchild
      · rw [hexpand, length_append, length_cons, ← hpath]
        omega
      · rw [hexpand, below_snoc]

/-- The call for the `.` of a directory that is found again there. -/
lemma lt_calls_visit_dot (hfs : env.fs = m.fs) (hroot : m.tree.root = .dir readable true entries)
    (hshort : (below m.path (List.replicate (k + 1) ['.'])).length < pathMax) :
    calls (revealDirec env true true (below m.path (List.replicate (k + 1) ['.']))
        (display front ['.'])) <
      calls (visit env true true (below m.path (List.replicate k ['.'])) front ['.']) := by
  have hlstat : env.lstat (below m.path (List.replicate (k + 1) ['.'])) = some .directory := by
    rw [Env.lstat, if_pos hshort, hfs, Mount.fs]
    dsimp only
    rw [place_dots hroot, hroot]
    rfl
  rw [replicate_succ', below_snoc] at hlstat ⊢
  rw [visit_of_dir hlstat, calls_cons_line, calls_cons_call]
  exact Nat.lt_succ_self _

/-- The `.` of the root is entered, and there the `.` again. -/
lemma two_le_calls_visit_dot (hfs : env.fs = m.fs) (hroot : m.tree.root = .dir true true entries)
    (hfew : entries.length + 2 ≤ 10000) (hpath : env.expand path = m.path)
    (hroom : m.path.length + 4 < pathMax) : 2 ≤ calls (visit env true true m.path front ['.']) := by
  have hone : (below m.path (List.replicate 1 ['.'])).length < pathMax := by
    rw [replicate_one, below_cons, length_append]
    simp
    omega
  have htwo : (below m.path (List.replicate 2 ['.'])).length < pathMax := by
    rw [replicate_succ, replicate_one, below_cons, length_append]
    simp
    omega
  have hexpand : env.expand (below m.path (List.replicate 1 ['.'])) =
      below m.path (List.replicate 1 ['.']) := by
    rw [replicate_one, below_cons, ← hpath]
    exact env.expand_join _ ['.']
  have hlisted : calls (revealDirec env true true _ (display front ['.'])) = _ :=
    calls_listed hfs hexpand hone ((place_dots hroot 1).trans (by rw [hroot])) hfew
  have hentered : calls (revealDirec env true true (below m.path (List.replicate 1 ['.']))
      (display front ['.'])) < calls (visit env true true m.path front ['.']) :=
    lt_calls_visit_dot hfs hroot hone
  have hagain : calls (revealDirec env true true _ (display (display front ['.']) ['.'])) <
      calls (visit env true true (below m.path (List.replicate 1 ['.'])) (display front ['.'])
        ['.']) := lt_calls_visit_dot hfs hroot htwo
  omega

/-- With both flags, more calls than there are directories. -/
lemma dirs_lt_calls (hfs : env.fs = m.fs) (hentered : m.Entered) (hm : m.Ordinary)
    (hpath : env.expand path = m.path) :
    m.tree.root.dirs < calls (revealDirec env true true path front) := by
  obtain ⟨⟨entries, hdir⟩, hroom⟩ := hentered
  have hroot : m.follow [] = some (.dir true true entries) := congrArg some hdir
  have hfew := hm.few [] true true entries hroot
  have hdots : 2 ≤ calls (visit env true true m.path front ['.']) +
      calls (visit env true true m.path front ['.', '.']) := by
    rcases hroom with hroom | ⟨hroom, hup⟩
    · exact (two_le_calls_visit_dot hfs hdir hfew hpath hroom).trans (Nat.le_add_right _ _)
    -- no further than `/.`, but to `/..` too
    have hone : (below m.path (List.replicate 1 ['.'])).length < pathMax := by
      simp [below]
      omega
    have hdot : 0 < calls (visit env true true m.path front ['.']) :=
      (Nat.zero_le _).trans_lt (lt_calls_visit_dot hfs hdir hone)
    have hup' : env.lstat (m.path ++ '/' :: ['.', '.']) = some .directory :=
      (lstat_dotdot hfs hdir (by omega)).trans hup
    rw [visit_of_dir hup', calls_cons_line, calls_cons_call]
    omega
  have hentries : dirsIn entries ≤ ((entries.map Prod.fst).map fun name =>
      calls (visit env true true m.path front name)).sum := by
    have hbelow : below m.path [] = m.path := rfl
    rw [← hbelow]
    refine dirsIn_le_sum_visit hfs hm hroot fun name child front hchild => ?_
    have hjoin : env.expand (m.path ++ '/' :: name) = m.path ++ '/' :: name := by
      rw [← hpath]
      exact env.expand_join _ name
    exact inner_le_calls hfs hm pathMax _ _ front child (Nat.le_add_left _ _)
      (hjoin.trans (below_snoc m.path [] name).symm) hchild
  rw [calls_listed hfs hpath (hm.short [] _ hroot) ((place_dots hdir 0).trans (by rw [hdir])) hfew,
    hdir, Node.dirs]
  omega

end

/-- **When the number of calls is bounded.** However the tree is made, `reveal_direc` calls
itself at most once for each directory unless both flags are given and the root is entered. Then
it calls itself more often, in every tree that can be listed as a whole. -/
theorem reveal_calls_iff (env : Env) (m : Mount) (a t : Bool) (path front : List Char)
    (hfs : env.fs = m.fs) (hpath : env.expand path = m.path) :
    (¬ (a = true ∧ t = true ∧ m.Entered) →
      calls (revealDirec env a t path front) ≤ m.tree.root.dirs) ∧
    ((m.Entered → m.Ordinary) →
      (calls (revealDirec env a t path front) ≤ m.tree.root.dirs ↔
        ¬ (a = true ∧ t = true ∧ m.Entered))) := by
  have hbound : ¬ (a = true ∧ t = true ∧ m.Entered) →
      calls (revealDirec env a t path front) ≤ m.tree.root.dirs := by
    intro hnot
    by_cases hentered : m.Entered
    swap
    · exact calls_le_of_not_entered hfs hpath hentered
    cases t with
    | false => exact (calls_eq_zero (by simp)).le.trans (Nat.zero_le _)
    | true =>
      cases a with
      | true => exact absurd ⟨rfl, rfl, hentered⟩ hnot
      | false =>
        refine Nat.le_trans (calls_le_inner hfs pathMax [] path front m.tree.root
          (Nat.le_add_left _ _) hpath rfl) ?_
        exact m.tree.root.inner_le_dirs
  refine ⟨hbound, fun hm => ⟨?_, hbound⟩⟩
  rintro hle ⟨rfl, rfl, hentered⟩
  exact absurd hle (Nat.not_le_of_lt (dirs_lt_calls hfs hentered (hm hentered) hpath))

lemma entered_sampleMount : sampleMount.Entered := ⟨⟨_, rfl⟩, .inl (by decide)⟩

lemma ordinary_sampleMount : sampleMount.Ordinary where
  readable := readable_sampleMount
  few _ _ _ _ h := Nat.le_trans (Nat.add_le_add_right (few_sampleMount h) 2) (by decide)
  short _ _ h := short_sampleMount h

/-- In the directory `d`, which has one directory in it: `-t` makes at most two calls,
`-a` and `-t` make more. -/
theorem reveal_calls_sample :
    calls (revealDirec sampleEnv false true ['d'] []) ≤ sampleMount.tree.root.dirs ∧
    ¬ calls (revealDirec sampleEnv true true ['d'] []) ≤ sampleMount.tree.root.dirs := by
  constructor
  · exact (reveal_calls_iff sampleEnv sampleMount false true ['d'] [] rfl rfl).1 (by simp)
  intro hle
  exact ((reveal_calls_iff sampleEnv sampleMount true true ['d'] [] rfl rfl).2
    fun _ => ordinary_sampleMount).mp hle ⟨rfl, rfl, entered_sampleMount⟩

/-- `reveal -at d` calls `reveal_direc` more often than there are directories: it enters
`d/.`, and there `.` again. -/
theorem reveal_enters_dot : sampleMount.tree.root.dirs = 2 ∧
    ∃ events, reveal sampleEnv [['-', 'a', 't'], ['d']] = some events ∧ 2 < calls events := by
  have hdirs : sampleMount.tree.root.dirs = 2 := by decide
  refine ⟨hdirs, revealDirec sampleEnv true true ['d'] [], rfl, ?_⟩
  rw [← hdirs]
  exact dirs_lt_calls rfl entered_sampleMount ordinary_sampleMount rfl

end CshellXv6.Shell.Reveal
