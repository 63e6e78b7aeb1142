import CshellXv6.Shell.RevealCalls

/-! # What `reveal -t` prints

The lines of `reveal -t` are the visible descendants of the root, each once. They stand in the
order of their paths, name by name in the order of `strcmp`: a directory comes before its
contents, and the contents before the next sibling.
-/

namespace CshellXv6.Shell.Reveal

open Lib List Option

/-- A name that is listed without `-a`. -/
def Visible (name : Name) : Prop := name.head? ≠ some '.'

def Event.text : Event → Option (List Char)
  | .line text => some text
  | _ => none

def lines (events : List Event) : List (List Char) := events.filterMap Event.text

/-- The path of a descendant, after `front`. -/
def shown (front : List Char) (names : List Name) : List Char :=
  ['/'].intercalate (if front = [] then names else front :: names)

/-- The line of a descendant: a directory has a slash at its end. -/
def lineOf (front : List Char) (e : List Name × Node) : List Char :=
  if e.2.kind = .directory then shown front e.1 ++ ['/'] else shown front e.1

/-- The events list these descendants of `node`: those below the entries `heads` all of whose
names are visible. -/
structure Lists (m : Mount) (node : Node) (front : List Char) (heads : List Name)
    (events : List Event) (printed : List (List Name × Node)) : Prop where
  lines_eq : lines events = printed.map (lineOf front)
  sorted : (printed.map Prod.fst).Pairwise (· < ·)
  mem_iff : ∀ names nd, (names, nd) ∈ printed ↔ ∃ name rest, names = name :: rest ∧
    name ∈ heads ∧ node.follow names = some nd ∧ ∀ c ∈ rest, Visible c
  calls : ∀ q, .call q ∈ events → ∃ names readable searchable entries, q = below m.path names ∧
    m.follow names = some (.dir readable searchable entries)
  no_error : ∀ message, .error message ∉ events

lemma lines_append (xs ys : List Event) : lines (xs ++ ys) = lines xs ++ lines ys :=
  filterMap_append

variable {front : List Char}

lemma shown_singleton {name : Name} (hne : name ≠ []) : shown front [name] ≠ [] ∧
    ∀ names, shown (shown front [name]) names = shown front (name :: names) := by
  by_cases hfront : front = []
  · have hname : shown front [name] = name := by simp [shown, hfront]
    rw [hname]
    refine ⟨hne, fun names => ?_⟩
    rw [shown, shown, if_neg hne, if_pos hfront]
  have hname : shown front [name] = front ++ '/' :: name := by
    simp [shown, hfront, intercalate_cons_cons]
  have hnil : front ++ '/' :: name ≠ [] := by simp
  rw [hname]
  refine ⟨hnil, fun names => ?_⟩
  rw [shown, shown, if_neg hnil, if_neg hfront, intercalate_cons_cons]
  cases names with
  | nil => simp
  | cons next names =>
    rw [intercalate_cons_cons, intercalate_cons_cons]
    simp

section

variable {env : Env} {m : Mount} {path front p q : List Char} {names listed heads : List Name}
  {name : Name} {node child : Node} {events events' : List Event}
  {printed printed' : List (List Name × Node)} {f : Name → List Event}

lemma Lists.nil : Lists m node front [] [] [] where
  lines_eq := rfl
  sorted := List.Pairwise.nil
  mem_iff names nd := by simp
  calls q h := by cases h
  no_error message h := by cases h

/-- One entry after the other, in their order. -/
lemma Lists.append (hhead : Lists m node front [name] events printed)
    (hrest : Lists m node front heads events' printed') (hlt : ∀ c ∈ heads, name < c) :
    Lists m node front (name :: heads) (events ++ events') (printed ++ printed') where
  lines_eq := by rw [lines_append, hhead.lines_eq, hrest.lines_eq, map_append]
  sorted := by
    rw [map_append]
    refine pairwise_append.mpr ⟨hhead.sorted, hrest.sorted, ?_⟩
    intro x hx y hy
    obtain ⟨e, he, rfl⟩ := List.mem_map.mp hx
    obtain ⟨e', he', rfl⟩ := List.mem_map.mp hy
    obtain ⟨c, rest, hnames, hc, -⟩ := (hhead.mem_iff e.1 e.2).mp he
    obtain ⟨d, rest', hnames', hd, -⟩ := (hrest.mem_iff e'.1 e'.2).mp he'
    rw [hnames, hnames']
    obtain rfl := mem_singleton.mp hc
    exact cons_lt_cons_iff.mpr (.inl (hlt d hd))
  mem_iff names nd := by
    rw [mem_append, hhead.mem_iff, hrest.mem_iff]
    constructor
    · rintro (⟨c, rest, hnames, hc, h⟩ | ⟨c, rest, hnames, hc, h⟩)
      · exact ⟨c, rest, hnames, mem_cons.mpr (.inl (mem_singleton.mp hc)), h⟩
      · exact ⟨c, rest, hnames, mem_cons_of_mem name hc, h⟩
    rintro ⟨c, rest, hnames, hc, h⟩
    rcases mem_cons.mp hc with rfl | hc
    · exact .inl ⟨c, rest, hnames, mem_singleton_self c, h⟩
    · exact .inr ⟨c, rest, hnames, hc, h⟩
  calls q h := by
    rcases mem_append.mp h with h | h
    · exact hhead.calls q h
    · exact hrest.calls q h
  no_error message h := by
    rcases mem_append.mp h with h | h
    · exact hhead.no_error message h
    · exact hrest.no_error message h

/-- An entry that is not a directory. -/
lemma Lists.leaf (hchild : node.child name = some child) (hkind : child.kind ≠ .directory) :
    Lists m node front [name] [.line (shown front [name])] [([name], child)] where
  lines_eq := by simp [lines, Event.text, lineOf, hkind]
  sorted := pairwise_singleton _ _
  mem_iff names nd := by
    rw [mem_singleton, Prod.mk.injEq]
    constructor
    · rintro ⟨rfl, rfl⟩
      refine ⟨name, [], rfl, mem_singleton_self name, ?_, by simp⟩
      rw [Node.follow_singleton, hchild]
    rintro ⟨c, rest, rfl, hc, hfollow, -⟩
    obtain rfl := mem_singleton.mp hc
    rw [Node.follow, hchild, bind_some] at hfollow
    -- a leaf has no descendants
    cases rest with
    | nil => exact ⟨rfl, (Option.some.inj hfollow).symm⟩
    | cons d rest =>
      cases child with
      | file | link => cases hfollow
      | dir readable searchable entries => exact absurd rfl hkind
  calls q h := by cases mem_singleton.mp h
  no_error message h := by cases mem_singleton.mp h

/-- A directory, and what it lists. -/
lemma Lists.dir (hname : name ≠ []) (hchild : node.child name = some child)
    (hkind : child.kind = .directory)
    (hcall : q = below m.path names ∧ m.follow names = some child)
    (hsub : Lists m child (shown front [name]) heads events printed)
    (hheads : ∀ c rest nd, child.follow (c :: rest) = some nd → (c ∈ heads ↔ Visible c)) :
    Lists m node front [name] (.line (shown front [name] ++ ['/']) :: .call q :: events)
      (([name], child) :: printed.map fun e => (name :: e.1, e.2)) where
  lines_eq := by
    have hlines : lines (.line (shown front [name] ++ ['/']) :: .call q :: events) =
        (shown front [name] ++ ['/']) :: lines events := rfl
    have hline : ∀ e : List Name × Node, lineOf (shown front [name]) e =
        lineOf front (name :: e.1, e.2) := by
      intro e
      rw [lineOf, lineOf, (shown_singleton hname).2]
    rw [hlines, hsub.lines_eq, map_cons, List.map_map]
    refine congrArg₂ List.cons ?_ (map_congr_left fun e _ => hline e)
    rw [lineOf, if_pos hkind]
  sorted := by
    rw [map_cons, List.map_map]
    refine pairwise_cons.mpr ⟨?_, ?_⟩
    · intro x hx
      obtain ⟨e, he, rfl⟩ := List.mem_map.mp hx
      obtain ⟨c, rest, hnames, -⟩ := (hsub.mem_iff e.1 e.2).mp he
      refine cons_lt_cons_iff.mpr (.inr ⟨rfl, ?_⟩)
      rw [hnames]
      exact nil_lt_cons c rest
    · have hcons : ((Prod.fst ∘ fun e : List Name × Node => (name :: e.1, e.2)) :
          List Name × Node → List Name) = (fun names => name :: names) ∘ Prod.fst := rfl
      rw [hcons, ← List.map_map]
      exact hsub.sorted.map _ fun x y hxy => cons_lt_cons_iff.mpr (.inr ⟨rfl, hxy⟩)
  mem_iff names nd := by
    rw [mem_cons, List.mem_map, Prod.mk.injEq]
    constructor
    · rintro (⟨rfl, rfl⟩ | ⟨e, he, heq⟩)
      · refine ⟨name, [], rfl, mem_singleton_self name, ?_, by simp⟩
        rw [Node.follow_singleton, hchild]
      obtain ⟨c, rest, hnames, hc, hfollow, hrest⟩ := (hsub.mem_iff e.1 e.2).mp he
      obtain ⟨rfl, rfl⟩ := Prod.mk.inj heq
      refine ⟨name, e.1, rfl, mem_singleton_self name, ?_, ?_⟩
      · rw [Node.follow, hchild, bind_some, hfollow]
      · rw [hnames] at hfollow ⊢
        exact forall_mem_cons.mpr ⟨(hheads c rest e.2 hfollow).mp hc, hrest⟩
    rintro ⟨c, rest, rfl, hc, hfollow, hrest⟩
    obtain rfl := mem_singleton.mp hc
    rw [Node.follow, hchild, bind_some] at hfollow
    cases rest with
    | nil => exact .inl ⟨rfl, (Option.some.inj hfollow).symm⟩
    | cons d rest =>
      obtain ⟨hd, hrest⟩ := forall_mem_cons.mp hrest
      refine .inr ⟨(d :: rest, nd), (hsub.mem_iff _ nd).mpr ?_, rfl⟩
      exact ⟨d, rest, rfl, (hheads d rest nd hfollow).mpr hd, hfollow, hrest⟩
  calls q' h := by
    rcases mem_cons.mp h with heq | h
    · cases heq
    rcases mem_cons.mp h with heq | h
    · obtain rfl := Event.call.inj heq
      cases child with
      | file | link => cases hkind
      | dir readable searchable entries =>
        exact ⟨names, readable, searchable, entries, hcall⟩
    · exact hsub.calls q' h
  no_error message h := by
    rcases mem_cons.mp h with heq | h
    · cases heq
    rcases mem_cons.mp h with heq | h
    · cases heq
    · exact hsub.no_error message h

/-- The loop over the entries. -/
lemma exists_lists_flatMap (hsorted : heads.Pairwise (· < ·))
    (h : ∀ name ∈ heads, ∃ printed, Lists m node front [name] (f name) printed) :
    ∃ printed, Lists m node front heads (heads.flatMap f) printed := by
  induction heads with
  | nil => exact ⟨[], Lists.nil⟩
  | cons name heads ih =>
    obtain ⟨hlt, hsorted⟩ := pairwise_cons.mp hsorted
    obtain ⟨printed, hhead⟩ := h name mem_cons_self
    obtain ⟨printed', hrest⟩ := ih hsorted fun c hc => h c (mem_cons_of_mem name hc)
    exact ⟨printed ++ printed', hhead.append hrest hlt⟩

/-! ## The names of a directory -/

lemma sorted_all (h : listed.Nodup) (a : Bool) : (all a listed).Pairwise (· < ·) := by
  have hle : (all a listed).Pairwise (· ≤ ·) := pairwise_insertionSort _ _
  exact (hle.and (nodup_all h)).imp fun h => lt_of_le_of_ne h.1 h.2

/-- Nothing is cut off: all visible names are listed. -/
lemma mem_all_iff {entries : List (Name × Node)} (hfew : entries.length ≤ 10000) :
    name ∈ all false (m.order p (listing entries)) ↔
      name ∈ entries.map Prod.fst ∧ Visible name := by
  have hperm := (m.order_perm p (listing entries)).filter
    fun name => false || name.head? ≠ some '.'
  have hdots : (listing entries).filter
      (fun name => false || name.head? ≠ some '.') =
      (entries.map Prod.fst).filter fun name => false || name.head? ≠ some '.' := rfl
  rw [hdots] at hperm
  have hlength : ((m.order p (listing entries)).filter
      fun name => false || name.head? ≠ some '.').length ≤ 10000 := by
    rw [hperm.length_eq]
    refine Nat.le_trans (length_filter_le _ _) ?_
    rwa [length_map]
  rw [all, (perm_insertionSort _ _).mem_iff, take_of_length_le hlength, hperm.mem_iff, mem_filter]
  simp [Visible]

lemma display_eq (h : (front ++ '/' :: name).length < pathMax) :
    display front name = shown front [name] := by
  rw [length_append, length_cons] at h
  by_cases hfront : front = []
  · rw [display, if_pos hfront, fit_eq_self (by omega)]
    simp [shown, hfront]
  · rw [display, if_neg hfront, fit_eq_self (by rw [length_append, length_cons]; omega)]
    simp [shown, hfront, intercalate_cons_cons]

/-! ## The whole tree -/

/-- One entry: a line for it and, if it is a directory, what the call for it lists. -/
lemma exists_lists_visit (hfollow : m.follow (names ++ [name]) = some child)
    (hchild : node.child name = some child)
    (hlstat : env.lstat (below m.path (names ++ [name])) = some child.kind)
    (hfront : front.length ≤ (below m.path names).length)
    (hsub : child.kind = .directory → ∀ front,
      front.length ≤ (below m.path (names ++ [name])).length → ∃ heads printed,
        Lists m child front heads
          (revealDirec env false true (below m.path (names ++ [name])) front) printed ∧
        ∀ c rest nd, child.follow (c :: rest) = some nd → (c ∈ heads ↔ Visible c)) :
    ∃ printed, Lists m node front [name]
      (visit env false true (below m.path names) front name) printed := by
  have hname := (m.tree.proper_of_follow hfollow name (by simp)).ne_nil
  have hlength := length_lt_of_lstat hlstat
  rw [below_snoc] at hlstat hlength hsub
  rw [length_append, length_cons] at hlength
  have hdisplay : display front name = shown front [name] := by
    refine display_eq ?_
    rw [length_append, length_cons]
    omega
  by_cases hkind : child.kind = .directory
  · rw [hkind] at hlstat
    have hshown : (shown front [name]).length ≤ (below m.path names ++ '/' :: name).length := by
      rw [← hdisplay, display, fit, length_take, length_append, length_cons]
      split
      · omega
      · rw [length_append, length_cons]
        omega
    obtain ⟨heads, printed, hlists, hheads⟩ := hsub hkind (shown front [name]) hshown
    rw [visit_of_dir hlstat, hdisplay]
    exact ⟨_, Lists.dir hname hchild hkind ⟨(below_snoc m.path names name).symm, hfollow⟩
      hlists hheads⟩
  · rw [visit_of_leaf hlstat (fun h => hkind h.2), hdisplay]
    exact ⟨_, Lists.leaf hchild hkind⟩

/-- A directory of the tree lists its visible descendants. The induction is on how much longer
the path may become. -/
lemma exists_lists (hfs : env.fs = m.fs) (hreadable : m.Readable)
    (hfew : ∀ names readable searchable entries,
      m.follow names = some (.dir readable searchable entries) → entries.length < 10000)
    (hshort : ∀ names node, m.follow names = some node →
      (below m.path names).length < pathMax)
    (n : Nat) (names : List Name) (path front : List Char) (node : Node)
    (hn : pathMax ≤ (env.expand path).length + n)
    (hpath : env.expand path = below m.path names)
    (hnode : m.follow names = some node) (hkind : node.kind = .directory)
    (hfront : front.length ≤ (below m.path names).length) :
    ∃ heads printed, Lists m node front heads (revealDirec env false true path front) printed ∧
      ∀ c rest nd, node.follow (c :: rest) = some nd → (c ∈ heads ↔ Visible c) := by
  induction n generalizing names path front node with
  | zero =>
    have hlt := hshort names node hnode
    rw [hpath] at hn
    omega
  | succ n ih =>
    have hlstat := lstat_of_readable hfs hreadable hnode (hshort names node hnode)
    cases node with
    | file | link => cases hkind
    | dir readable searchable entries =>
      obtain ⟨rfl, rfl⟩ := hreadable names readable searchable entries hnode
      have hread := readdir_of_follow hfs hnode hlstat
      have hmem : ∀ name, name ∈ all false (m.order (below m.path names)
          (listing entries)) ↔
          name ∈ entries.map Prod.fst ∧ Visible name := fun name =>
        mem_all_iff (Nat.le_of_lt (hfew names true true entries hnode))
      have hone : ∀ name ∈ all false (m.order (below m.path names)
          (listing entries)), ∃ printed,
          Lists m (.dir true true entries) front [name]
            (visit env false true (below m.path names) front name) printed := by
        intro name hname
        obtain ⟨child, hchild⟩ := exists_lookup_of_mem
          (m.tree.nodup names true true entries hnode) ((hmem name).mp hname).1
        have hfollow : m.follow (names ++ [name]) = some child :=
          (Node.follow_snoc hnode name).trans hchild
        have hchildShort := hshort _ child hfollow
        refine exists_lists_visit hfollow hchild
          (lstat_of_readable hfs hreadable hfollow hchildShort) hfront fun hdir front hle => ?_
        -- the path of the call is not expanded again, and is longer by a name
        have hexpand : env.expand (below m.path (names ++ [name])) =
            below m.path (names ++ [name]) := by
          rw [below_snoc, ← hpath]
          exact env.expand_join _ name
        refine ih (names ++ [name]) _ front child ?_ hexpand hfollow hdir hle
        rw [hexpand, below_snoc, length_append, length_cons, ← hpath]
        omega
      obtain ⟨printed, hlists⟩ :=
        exists_lists_flatMap (sorted_all (nodup_listed hnode) false) hone
      rw [revealDirec_of_listed (hpath ▸ hlstat) ((congrArg _ hpath).trans hread), hpath]
      refine ⟨_, printed, hlists, fun c rest nd hfollow => ?_⟩
      rw [hmem]
      rw [Node.follow] at hfollow
      obtain ⟨child, hchild, -⟩ := bind_eq_some_iff.mp hfollow
      exact and_iff_right (List.mem_map.mpr ⟨(c, child), mem_of_lookup hchild, rfl⟩)

/-- **`reveal -t` lists the whole tree.** For every tree of directories that can be read, each
with fewer than 10000 entries, and whose paths are shorter than `PATH_MAX`: what is printed are
the descendants none of whose names begins with a dot, by their paths from the root and with a
slash after a directory. They are in the order of their paths, so each is printed once,
directories before their contents and siblings in the order of `strcmp`. There are no errors,
and `reveal_direc` is called for directories of the tree only, never for a link. -/
theorem reveal_lists_tree (env : Env) (m : Mount) (path : List Char) (hfs : env.fs = m.fs)
    (hpath : env.expand path = m.path)
    (hroot : m.tree.root.kind = .directory) (hreadable : m.Readable)
    (hfew : ∀ names readable searchable entries,
      m.follow names = some (.dir readable searchable entries) → entries.length < 10000)
    (hshort : ∀ names node, m.follow names = some node →
      (below m.path names).length < pathMax) :
    ∃ printed : List (List Name × Node),
      lines (revealDirec env false true path []) = printed.map (fun e =>
        ['/'].intercalate e.1 ++ if e.2.kind = .directory then ['/'] else []) ∧
      (printed.map Prod.fst).Pairwise (· < ·) ∧
      (∀ names node, (names, node) ∈ printed ↔ names ≠ [] ∧
        m.follow names = some node ∧ ∀ name ∈ names, name.head? ≠ some '.') ∧
      (∀ message, .error message ∉ revealDirec env false true path []) ∧
      ∀ q, .call q ∈ revealDirec env false true path [] →
        ∃ names readable searchable entries, q = below m.path names ∧
          m.follow names = some (.dir readable searchable entries) := by
  obtain ⟨heads, printed, hlists, hheads⟩ := exists_lists hfs hreadable hfew hshort pathMax []
    path [] m.tree.root (Nat.le_add_left _ _) hpath rfl hroot (Nat.zero_le _)
  refine ⟨printed, ?_, hlists.sorted, ?_, hlists.no_error, hlists.calls⟩
  · rw [hlists.lines_eq]
    refine map_congr_left fun e _ => ?_
    rw [lineOf, shown, if_pos rfl]
    split
    · rfl
    · exact (append_nil _).symm
  intro names node
  rw [hlists.mem_iff]
  constructor
  · rintro ⟨name, rest, rfl, hname, hfollow, hrest⟩
    refine ⟨cons_ne_nil name rest, hfollow, ?_⟩
    exact forall_mem_cons.mpr ⟨(hheads name rest node hfollow).mp hname, hrest⟩
  rintro ⟨hne, hfollow, hvisible⟩
  cases names with
  | nil => exact absurd rfl hne
  | cons name rest =>
    obtain ⟨hname, hrest⟩ := forall_mem_cons.mp hvisible
    exact ⟨name, rest, rfl, (hheads name rest node hfollow).mpr hname, hfollow, hrest⟩

end

/-- The file `x` in the directory `a` of the small tree, and not the hidden file. -/
theorem reveal_lists_sample :
    ∃ printed : List (List Name × Node),
      lines (revealDirec sampleEnv false true ['d'] []) = printed.map (fun e =>
        ['/'].intercalate e.1 ++ if e.2.kind = .directory then ['/'] else []) ∧
      (printed.map Prod.fst).Pairwise (· < ·) ∧
      ([['a'], ['x']], .file) ∈ printed ∧ ∀ node, ([['.', 'h']], node) ∉ printed := by
  obtain ⟨printed, hlines, hsorted, hmem, -, -⟩ := reveal_lists_tree sampleEnv
    sampleMount ['d'] rfl rfl rfl readable_sampleMount
    (fun _ _ _ _ h => Nat.lt_of_le_of_lt (few_sampleMount h) (by decide))
    (fun _ _ h => short_sampleMount h)
  refine ⟨printed, hlines, hsorted, ?_, ?_⟩
  · exact (hmem _ _).mpr ⟨by decide, rfl, by decide⟩
  · intro node hnode
    exact ((hmem _ _).mp hnode).2.2 ['.', 'h'] (by decide) rfl

end CshellXv6.Shell.Reveal
