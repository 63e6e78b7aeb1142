import CshellXv6.Fs.Creation
import CshellXv6.Fs.Files
import CshellXv6.Fs.Removal
import CshellXv6.Lib.Rules

/-! # Sequences of calls on the directory tree

Any sequence of `link`, `unlink`, `mkdir`, `mknod` and creating `open` calls, of any
processes, keeps the directories and the link counts consistent, whether the calls
succeed or fail.

A directory that has been removed stays on the disk while it is the working directory
of a process, or open. It has the link count 0 and is in no directory.
-/

namespace CshellXv6.Fs.Tree

open Lib List Option

/-- A call of process `p`. -/
inductive Call where
  | link (p : Nat) (old new : Option (List UInt8))
  | unlink (p : Nat) (path : Option (List UInt8))
  | mkdir (p : Nat) (path : Option (List UInt8))
  | mknod (p : Nat) (path : Option (List UInt8)) (major minor : Int)
  | open (p : Nat) (path : Option (List UInt8)) (omode : UInt32)

def call (sb : Superblock) : Call → KernelM Int
  | .link p old new => sysLink sb p old new
  | .unlink p path => sysUnlink sb p path
  | .mkdir p path => sysMkdir sb p path
  | .mknod p path major minor => sysMknod sb p path major minor
  | .open p path omode => sysOpen sb p path omode

def step (sb : Superblock) (c : Call) (s : State) : Option State :=
  match (call sb c).run s with
  | .ok (_, s') => some s'
  | .error _ => none

/-- The `open` calls are those with `O_CREATE`. -/
def Call.Ok : Call → Prop
  | .open _ _ omode => omode &&& oCreate ≠ 0
  | _ => True

/-- The call is an `open` for which there is no slot in the file table, or no
descriptor. -/
def Call.Short (s : State) : Call → Prop
  | .open p _ _ => filealloc s = none ∨ fdalloc s p = none
  | _ => False

/-- The file system between two calls: the counts are right, and an inode without links
is held by somebody. -/
structure Tidy (sb : Superblock) (s : State) : Prop where
  good : Good sb s
  links : Links sb.ninodes (image sb s.disk)
  orphans : ∀ i n, image sb s.disk i = some n → n.nlink = 0 → i ∈ s.refs
  cwd : ∀ p, (s.procs p).cwd ∈ s.refs

/-! ## Counting -/

/-- The number of entries of a directory that name directories, other than `.` and
`..`. -/
def subdirectories (img : Image) (n : Node) : Nat :=
  n.entries.countP fun e => e.name ≠ dot ∧ e.name ≠ dotdot ∧ isDir img e.inum = true

section

variable {N i d : Nat} {img : Image} {n : Node} {e : Dirent}

/-- `.` and `..` name directories that have not been removed. -/
lemma entriesNaming_eq (h : Links N img) (hi : ∀ n, img i = some n → ¬ n.Live) :
    entriesNaming Node.entries N img i = Fs.links N img i := by
  refine totalOn_congr fun d _ => ?_
  cases hd : img d with
  | none => rfl
  | some n =>
    rw [naming, naming]
    split
    next hlive =>
      obtain ⟨p, rest, hentries⟩ := h.dots d n hd hlive.1
      obtain ⟨m, hm, hmlive, -⟩ := h.parent d n p rest hd hlive hentries
      have hdot : d ≠ i := by
        rintro rfl
        exact hi n hd hlive
      have hdotdot : p ≠ i := by
        rintro rfl
        exact hi m hm hmlive
      rw [Node.proper, hentries]
      simp [hdot, hdotdot]
    · rfl

/-- The names of the proper entries are not `.` or `..`. -/
lemma name_of_mem_proper (h : Links N img) (hd : img d = some n) (hlive : n.Live)
    (he : e ∈ n.proper) (hne : e.inum ≠ 0) : e.name ≠ dot ∧ e.name ≠ dotdot := by
  obtain ⟨p, rest, hentries⟩ := h.dots d n hd hlive.1
  obtain ⟨m, hm, -, -⟩ := h.parent d n p rest hd hlive hentries
  have hnodup := h.names d n hd hlive.1
  have hmem : e.name ∈ (rest.filter (·.inum ≠ 0)).map (·.name) := by
    rw [Node.proper, hentries] at he
    exact List.mem_map_of_mem (mem_filter.mpr ⟨he, by simpa using hne⟩)
  rw [Node.names, hentries, filter_cons_of_pos (by simpa using h.ne_zero hd),
    filter_cons_of_pos (by simpa using h.ne_zero hm), map_cons, map_cons,
    nodup_cons, nodup_cons] at hnodup
  constructor
  · intro hname
    exact hnodup.1 (mem_cons_of_mem _ (hname ▸ hmem))
  · intro hname
    exact hnodup.2.1 (hname ▸ hmem)

lemma subdirectories_eq (h : Links N img) (hd : img d = some n) (hlive : n.Live) :
    subdirectories img n = subdirs img n := by
  obtain ⟨p, rest, hentries⟩ := h.dots d n hd hlive.1
  have hproper : n.proper = rest := by
    rw [Node.proper, hentries]
    rfl
  have hrest : rest.countP (fun e => e.name ≠ dot ∧ e.name ≠ dotdot ∧ isDir img e.inum = true) =
      rest.countP fun e => isDir img e.inum := by
    refine countP_congr fun e he => ?_
    by_cases hzero : e.inum = 0
    · simp [hzero, h.isDir_zero]
    · have hnames := name_of_mem_proper h hd hlive (hproper ▸ he) hzero
      simp [hnames]
  rw [subdirectories, subdirs, hproper, ← hrest, hentries]
  simp

end

/-! ## One call -/

section

variable {sb : Superblock} {s s' s0 : State} {c : Call} {cs : List Call} {res : Int} {short : Prop}
  {n : Node} {d : Nat}

lemma Tidy.calling (hv : sb.Valid) (hN : sb.ninodes ≤ 2 ^ 16) (h : Tidy sb s) :
    Calling sb s.refs (image sb s.disk) (s.refs.toFinset.card + 2) := by
  refine ⟨hv, hN, h.links, h.orphans, ?_, le_refl _⟩
  intro i hi
  rw [image_of_mem (h.good.used i hi)]
  exact some_ne_none _

lemma toShort_bounds (x : Int) : -2 ^ 15 ≤ toShort x ∧ toShort x < 2 ^ 15 := by
  refine asShort_bounds ?_
  unfold ofShort
  omega

lemma call_spec (hv : sb.Valid) (hN : sb.ninodes ≤ 2 ^ 16) (h : Tidy sb s) (hok : c.Ok) :
    Meets (TableFull (s.refs.toFinset.card + 2)) (call sb c) s (Called sb (c.Short s) s) := by
  have hc := h.calling hv hN
  cases c with
  | link p old new =>
    exact (sysLink_spec hc h.good (h.cwd p)).mono fun _ _ hf => hf.called hc
  | unlink p path =>
    exact (sysUnlink_spec hc h.good (h.cwd p)).mono fun _ _ hf => hf.called hc
  | mkdir p path =>
    exact (makeInode_spec hc h.good (h.cwd p) (by decide) (by decide) (by decide)).mono
      fun _ _ hf => hf.called hc
  | mknod p path major minor =>
    exact (makeInode_spec hc h.good (h.cwd p) (by decide) (toShort_bounds major)
      (toShort_bounds minor)).mono fun _ _ hf => hf.called hc
  | «open» p path omode => exact sysOpen_spec hok hc h.good (h.cwd p)

/-- What a step of the sequence does. -/
lemma called_of_step (hv : sb.Valid) (hN : sb.ninodes ≤ 2 ^ 16) (h : Tidy sb s) (hok : c.Ok)
    (hstep : step sb c s = some s') : ∃ res, Called sb (c.Short s) s res s' := by
  have hmeets := call_spec hv hN h hok
  unfold step at hstep
  split at hstep
  next res s'' hrun =>
    cases hstep
    exact ⟨res, hmeets.of_run hrun⟩
  · cases hstep

lemma Tidy.next (h : Tidy sb s) (hc : Called sb short s res s') : Tidy sb s' where
  good := hc.good
  links := hc.relinked.links
  orphans := fun i n hi hzero => hc.refs i (hc.relinked.orphans i n hi hzero)
  cwd := fun p => hc.refs _ (hc.cwd p ▸ h.cwd p)

/-- The directories that are held were held at the beginning. -/
def HeldSince (sb : Superblock) (s0 s : State) : Prop :=
  ∀ i ∈ s.refs, isDir (image sb s.disk) i = true → i ∈ s0.refs ∧ isDir (image sb s0.disk) i = true

lemma HeldSince.next (h : HeldSince sb s0 s)
    (hc : Called sb short s res s') : HeldSince sb s0 s' := by
  intro i hi hdir
  rcases hc.opened i hi with hold | hfile
  · rw [hc.relinked.dirs i hold] at hdir
    exact h i hold hdir
  · rw [hfile] at hdir
    cases hdir

lemma run_tidy (hv : sb.Valid) (hN : sb.ninodes ≤ 2 ^ 16) (h0 : Tidy sb s0)
    (hrun : Run (step sb) (fun c _ => c.Ok) s0 cs s) : Tidy sb s ∧ HeldSince sb s0 s := by
  refine Run.invariant (fun s => Tidy sb s ∧ HeldSince sb s0 s) ⟨h0, fun _ hi hdir => ⟨hi, hdir⟩⟩
    ?_ hrun
  rintro c s s' hok hstep ⟨htidy, hheld⟩
  obtain ⟨res, hcalled⟩ := called_of_step hv hN htidy hok hstep
  exact ⟨htidy.next hcalled, hheld.next hcalled⟩

/-- The link count of a directory. -/
lemma Tidy.nlink_dir (h : Tidy sb s) (hheld : HeldSince sb s0 s)
    (hd : image sb s.disk d = some n) (hdir : n.type = tDir) :
    n.nlink = 1 + subdirectories (image sb s.disk) n ∨
      (n.nlink = 0 ∧ d ≠ rootIno ∧ entriesNaming Node.entries sb.ninodes (image sb s.disk) d = 0 ∧
        d ∈ s0.refs ∧ isDir (image sb s0.disk) d = true) := by
  by_cases hzero : n.nlink = 0
  · right
    have hdead : ∀ m, image sb s.disk d = some m → ¬ m.Live := by
      intro m hm hlive
      rw [hd] at hm
      cases hm
      exact hlive.2 hzero
    refine ⟨hzero, ?_, ?_, hheld d (h.orphans d n hd hzero) (isDir_eq_true.mpr ⟨n, hd, hdir⟩)⟩
    · rintro rfl
      obtain ⟨m, hm, hlive⟩ := h.links.root
      exact hdead m hm hlive
    · rw [entriesNaming_eq h.links hdead, h.links.dirs d n hd hdir, if_pos (.inr hzero)]
  · left
    rw [subdirectories_eq h.links hd ⟨hdir, hzero⟩]
    exact h.links.counts d n hd ⟨hdir, hzero⟩

/-- After any sequence of the calls: the names in a directory are different, the link
count of a file is the number of its entries, that of a directory is one more than the
number of its subdirectories, and a call that fails changes nothing of that, unless it is
an `open` that has made its file and then runs out of slots or descriptors. A directory
that somebody has been holding from the beginning may have been removed since. The one
panic is that of `iget`, when there are too many inodes in use. -/
theorem link_counts (hv : sb.Valid) (hN : sb.ninodes ≤ 2 ^ 16) (h0 : Tidy sb s0)
    (hrun : Run (step sb) (fun c _ => c.Ok) s0 cs s) :
    (∀ d n, image sb s.disk d = some n → n.type = tDir → n.names.Nodup) ∧
    (∀ i n, image sb s.disk i = some n → n.type ≠ tDir →
      n.nlink = entriesNaming Node.entries sb.ninodes (image sb s.disk) i) ∧
    (∀ d n, image sb s.disk d = some n → n.type = tDir →
      n.nlink = 1 + subdirectories (image sb s.disk) n ∨
        (n.nlink = 0 ∧ d ≠ rootIno ∧ entriesNaming Node.entries sb.ninodes (image sb s.disk) d = 0 ∧
          d ∈ s0.refs ∧ isDir (image sb s0.disk) d = true)) ∧
    ((∀ d ∈ s0.refs, isDir (image sb s0.disk) d = true → d = rootIno) →
      ∀ d n, image sb s.disk d = some n → n.type = tDir →
        n.nlink = 1 + subdirectories (image sb s.disk) n) ∧
    ∀ c : Call, c.Ok →
      (∃ res s', (call sb c).run s = .ok (res, s') ∧
        (res < 0 → image sb s'.disk = image sb s.disk ∨ (c.Short s ∧ NewFile sb s s'))) ∨
      ((call sb c).run s = .error .igetNoInodes ∧ 48 ≤ s.refs.toFinset.card) := by
  obtain ⟨htidy, hheld⟩ := run_tidy hv hN h0 hrun
  have hdirs := fun d n hd hdir => htidy.nlink_dir (d := d) (n := n) hheld hd hdir
  refine ⟨htidy.links.names, ?_, hdirs, ?_, ?_⟩
  · intro i n hi hfile
    rw [entriesNaming_eq htidy.links, htidy.links.files i n hi hfile]
    intro m hm hlive
    rw [hi] at hm
    cases hm
    exact hfile hlive.1
  · intro honly d n hd hdir
    rcases hdirs d n hd hdir with hcount | ⟨-, hroot, -, hmem, hwas⟩
    · exact hcount
    · exact absurd (honly d hmem hwas) hroot
  intro c hok
  have hmeets := call_spec hv hN htidy hok
  unfold Meets at hmeets
  split at hmeets
  next res s' hrun' => exact .inl ⟨res, s', hrun', hmeets.failed⟩
  next e hrun' =>
    obtain ⟨rfl, hcap⟩ := hmeets
    exact .inr ⟨hrun', by omega⟩

end

/-! ## A disk with an empty root directory -/

/-- Ten blocks, four inodes. -/
def emptyDisk : Superblock := ⟨10, 4, 2, 4⟩

/-- The root directory, in block 6. -/
def rootInode : Inode where
  type := tDir
  major := 0
  minor := 0
  nlink := 1
  size := 32
  addrs := fun k => if k = 0 then 6 else 0

def rootBytes : List UInt8 :=
  Dirent.toBytes ⟨1, strncpy 14 dot⟩ ++ Dirent.toBytes ⟨1, strncpy 14 dotdot⟩

/-- The root directory is everybody's working directory. -/
def emptyState : State where
  disk := iupdate emptyDisk 1 rootInode fun x =>
    if x = 4 then Bytes.zero.put 0 (fun _ => 127) 1
    else if x = 6 then Bytes.zero.put 0 (fun k => rootBytes.getD k 0) 32
    else Bytes.zero
  mem := fun _ => rootInode
  valid := fun _ => false
  refs := {1}
  ftable := fun _ => none
  procs := fun _ => ⟨1, fun _ => none⟩

lemma emptyDisk_valid : emptyDisk.Valid := by
  constructor <;> decide

lemma dinode_root : dinode emptyDisk emptyState.disk 1 = rootInode :=
  dinode_iupdate_self (by constructor <;> decide)

variable {i b : Nat}

lemma type_of_ne_root (hi : i < 4) (hne : i ≠ 1) :
    (dinode emptyDisk emptyState.disk i).type = 0 := by
  have hother : dinode emptyDisk emptyState.disk i = dinode emptyDisk _ i :=
    dinode_iupdate_of_ne hne
  have hblock : iblock emptyDisk i = 2 := by
    simp [iblock, emptyDisk]
    omega
  rw [hother, dinode, hblock]
  simp [getInode, Bytes.load_zero, asShort]

lemma files_emptyState : files emptyDisk emptyState.disk = {1} := by
  ext i
  rw [mem_files, Finset.mem_singleton]
  constructor
  · rintro ⟨hi, htype⟩
    by_contra hne
    exact htype (type_of_ne_root hi hne)
  rintro rfl
  rw [dinode_root]
  decide

lemma image_emptyState : image emptyDisk emptyState.disk = fun i =>
    if i = 1 then some ⟨tDir, 1, [⟨1, dot⟩, ⟨1, dotdot⟩]⟩ else none := by
  funext i
  by_cases hi : i = 1
  · have hblock : emptyState.disk 6 = Bytes.zero.put 0 (fun k => rootBytes.getD k 0) 32 := rfl
    have hcontents : (view emptyDisk emptyState.disk).contents 1 = rootBytes := by
      have hinode : (view emptyDisk emptyState.disk).mem 1 = rootInode := dinode_root
      have hbyte : ∀ o, o < 32 →
          (view emptyDisk emptyState.disk).byte 1 o = rootBytes.getD o 0 := by
        intro o ho
        have hdisk : (view emptyDisk emptyState.disk).disk 6 = _ := hblock
        have hfirst : rootInode.block (view emptyDisk emptyState.disk).disk 0 = 6 := rfl
        rw [FsState.byte, hinode, Nat.div_eq_of_lt (by omega), Nat.mod_eq_of_lt (by omega), hfirst,
          hdisk, Bytes.get_put_of_mem _ _ _ _ _ (by omega) (Nat.zero_le o) (by omega), Nat.sub_zero]
      rw [FsState.contents, hinode]
      refine Eq.trans (map_congr_left fun o ho => hbyte o (mem_range.mp ho)) ?_
      exact map_range_getD rootBytes
    rw [if_pos hi, hi, image_of_mem (by rw [files_emptyState]; decide), node, dinode_root,
      hcontents]
    decide
  · rw [if_neg hi, image_of_notMem]
    rw [files_emptyState, Finset.mem_singleton]
    exact hi

lemma bit_emptyState (hb : b < 7) : bit emptyDisk emptyState.disk b = true := by
  have hmap : bblock emptyDisk b = 4 := by
    simp [bblock, emptyDisk]
    omega
  have hblock : emptyState.disk 4 = Bytes.zero.put 0 (fun _ => 127) 1 := rfl
  rw [bit, hmap, hblock]
  decide +revert

lemma emptyState_good : Good emptyDisk emptyState := by
  have hinode : (view emptyDisk emptyState.disk).mem 1 = rootInode := dinode_root
  refine ⟨⟨?_, ?_⟩, ?_, fun _ _ h => absurd h Bool.false_ne_true⟩
  · rw [files_emptyState]
    refine Files.consistent_oneBlock ?_ ?_ (by decide) (by decide) fun _ => bit_emptyState
    · rw [hinode]
      rfl
    · rw [hinode]
      decide
  · rw [files_emptyState]
    intro i hi _
    rw [Finset.mem_singleton.mp hi, dinode_root]
    decide
  · rw [files_emptyState]
    intro i hi
    exact Finset.mem_singleton.mpr (Multiset.mem_singleton.mp hi)

lemma emptyState_links : Links emptyDisk.ninodes (image emptyDisk emptyState.disk) := by
  have honly : ∀ i n, image emptyDisk emptyState.disk i = some n →
      i = 1 ∧ n = ⟨tDir, 1, [⟨1, dot⟩, ⟨1, dotdot⟩]⟩ := by
    intro i n h
    rw [image_emptyState] at h
    obtain ⟨hi, hn⟩ := ite_none_right_eq_some.mp h
    exact ⟨hi, (Option.some.inj hn).symm⟩
  have hroot : image emptyDisk emptyState.disk 1 = some ⟨tDir, 1, [⟨1, dot⟩, ⟨1, dotdot⟩]⟩ := by
    rw [image_emptyState]
    rfl
  constructor
  case zero =>
    rw [image_emptyState]
    rfl
  case bound =>
    intro i n h
    rw [(honly i n h).1]
    decide
  case root => exact ⟨_, hroot, by decide⟩
  case dots =>
    intro d n h _
    obtain ⟨rfl, rfl⟩ := honly d n h
    exact ⟨1, [], rfl⟩
  case names =>
    intro d n h _
    obtain ⟨rfl, rfl⟩ := honly d n h
    decide
  case parent =>
    intro d n p rest h _ hentries
    obtain ⟨rfl, rfl⟩ := honly d n h
    simp only [List.cons.injEq, Dirent.mk.injEq, and_true, true_and] at hentries
    rw [← hentries.1]
    exact ⟨_, hroot, by decide, .inl ⟨rfl, rfl⟩⟩
  case targets =>
    intro d n h _ e he
    obtain ⟨rfl, rfl⟩ := honly d n h
    cases he
  case files =>
    intro i n h hfile
    obtain ⟨rfl, rfl⟩ := honly i n h
    exact absurd rfl hfile
  case dirs =>
    intro i n h _
    obtain ⟨rfl, rfl⟩ := honly i n h
    have hself : 1 = rootIno := rfl
    rw [if_pos (.inl hself), links_eq_zero]
    intro d _
    cases hd : image emptyDisk emptyState.disk d with
    | none => rfl
    | some n =>
      obtain ⟨-, rfl⟩ := honly d n hd
      decide
  case counts =>
    intro i n h _
    obtain ⟨rfl, rfl⟩ := honly i n h
    rfl
  case removed =>
    intro i n h _ hzero
    obtain ⟨rfl, rfl⟩ := honly i n h
    cases hzero

lemma emptyState_tidy : Tidy emptyDisk emptyState where
  good := emptyState_good
  links := emptyState_links
  orphans := by
    intro i n h _
    rw [image_emptyState] at h
    rw [(ite_none_right_eq_some.mp h).1]
    exact Multiset.mem_singleton_self 1
  cwd := fun _ => Multiset.mem_singleton_self 1

/-- A directory is made, or not, and the counts are right after that. -/
theorem link_counts_mkdir : ∃ s, Run (step emptyDisk) (fun c _ => c.Ok) emptyState
    [.mkdir 0 (some [97])] s ∧
    ∀ d n, image emptyDisk s.disk d = some n → n.type = tDir →
      n.nlink = 1 + subdirectories (image emptyDisk s.disk) n := by
  have honly : ∀ d ∈ emptyState.refs, isDir (image emptyDisk emptyState.disk) d = true →
      d = rootIno := fun d hd _ => Multiset.mem_singleton.mp hd
  have hcalls := (link_counts emptyDisk_valid (by decide) emptyState_tidy .nil).2.2.2.2
  rcases hcalls (.mkdir 0 (some [97])) trivial with ⟨res, s, hcall, -⟩ | ⟨-, hfull⟩
  · have hstep : step emptyDisk (.mkdir 0 (some [97])) emptyState = some s := by
      rw [step, hcall]
    have hrun : Run (step emptyDisk) (fun c _ => c.Ok) emptyState [.mkdir 0 (some [97])] s :=
      .snoc .nil trivial hstep
    exact ⟨s, hrun, (link_counts emptyDisk_valid (by decide) emptyState_tidy hrun).2.2.2.1 honly⟩
  · exact absurd hfull (by decide)

end CshellXv6.Fs.Tree
