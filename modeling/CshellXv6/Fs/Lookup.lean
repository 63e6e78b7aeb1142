import CshellXv6.Fs.Links
import CshellXv6.Fs.Sysfile

/-! # Looking things up

What the functions of the inode table and of directories do, in terms of the image
of the disk. Looking up a name or a path leaves the disk as it is; it costs one
reference to the inode that was found.
-/

namespace CshellXv6.Fs

open Lib Function List

/-- The disk is sane, the references are to inodes in use, and the copies in memory
are those of the disk. -/
structure Good (sb : Superblock) (s : State) : Prop where
  sane : Sane sb s.disk
  used : ∀ i ∈ s.refs, i ∈ files sb s.disk
  coherent : ∀ i ∈ s.refs, s.valid i = true → s.mem i = dinode sb s.disk i

/-- The only panic there is: the inode table is full, with `cap` inodes in it. -/
def TableFull (cap : Nat) (e : Panic) : Prop := e = .igetNoInodes ∧ 50 ≤ cap

/-- What has been read into memory stays there for the references `r`, and open files
and processes are the same. -/
structure Keeps (r : Multiset Nat) (s s' : State) : Prop where
  valid : ∀ i ∈ r, s.valid i = true → s'.valid i = true
  ftable : s'.ftable = s.ftable
  procs : s'.procs = s.procs

section

variable {sb : Superblock} {s s' s'' : State} {r : Multiset Nat} {i j cap : Nat}
variable {allowed : Panic → Prop} {n : Option Node} {f : Inode → Inode} {d : Disk}

lemma Keeps.refl : Keeps r s s := ⟨fun _ _ h => h, rfl, rfl⟩

lemma Keeps.trans (h : Keeps r s s') (h' : Keeps r s' s'') : Keeps r s s'' where
  valid := fun i hi hv => h'.valid i hi (h.valid i hi hv)
  ftable := h'.ftable.trans h.ftable
  procs := h'.procs.trans h.procs

lemma Keeps.tail (h : Keeps (i ::ₘ r) s s') : Keeps r s s' where
  valid := fun j hj => h.valid j (Multiset.mem_cons_of_mem hj)
  ftable := h.ftable
  procs := h.procs

lemma mem_refs_of_eq (hrefs : s.refs = i ::ₘ r) : i ∈ s.refs := by
  rw [hrefs]
  exact Multiset.mem_cons_self i r

/-- A disk with the same image is as good, if the copies are right. -/
lemma Good.of_changed (hg : Good sb s) (hc : Changed sb i n s.disk s'.disk)
    (hrefs : ∀ j ∈ s'.refs, j ∈ s.refs) (hsome : i ∈ s'.refs → n ≠ none)
    (hself : i ∈ s'.refs → s'.valid i = true → s'.mem i = dinode sb s'.disk i)
    (hothers : ∀ j ∈ s'.refs, j ≠ i → s'.valid j = true → s.valid j = true ∧ s'.mem j = s.mem j) :
    Good sb s' := by
  constructor
  · exact hc.sane
  · intro j hj
    by_contra hnot
    have hnone := image_of_notMem hnot
    rw [hc.image] at hnone
    by_cases hji : j = i
    · subst hji
      rw [update_self] at hnone
      exact hsome hj hnone
    · rw [update_of_ne hji, image_of_mem (hg.used j (hrefs j hj))] at hnone
      cases hnone
  · intro j hj hv
    by_cases hji : j = i
    · subst hji
      exact hself hj hv
    obtain ⟨hv', hmem⟩ := hothers j hj hji hv
    have hused := hg.used j (hrefs j hj)
    rw [hmem, hg.coherent j (hrefs j hj) hv', hc.inodes j (mem_files.mp hused).1 hji]

/-! ## The inode table -/

lemma iget_spec (hg : Good sb s) (hi : i ∈ files sb s.disk) (hcap : s.refs.toFinset.card ≤ cap) :
    Meets (TableFull cap) (iget i) s fun _ s' =>
      Good sb s' ∧ s'.disk = s.disk ∧ s'.refs = i ::ₘ s.refs ∧ Keeps s.refs s s' := by
  unfold iget
  refine meets_get ?_
  have hused : ∀ j ∈ i ::ₘ s.refs, j ∈ files sb s.disk := by
    intro j hj
    rcases Multiset.mem_cons.mp hj with rfl | hj
    · exact hi
    · exact hg.used j hj
  split
  next hmem =>
    refine ⟨⟨hg.sane, hused, ?_⟩, rfl, rfl, ⟨fun _ _ h => h, rfl, rfl⟩⟩
    intro j hj hv
    refine hg.coherent j ?_ hv
    rcases Multiset.mem_cons.mp hj with rfl | hj
    · exact hmem
    · exact hj
  next hnot =>
    split
    · refine ⟨⟨hg.sane, hused, ?_⟩, rfl, rfl, ⟨?_, rfl, rfl⟩⟩
      · intro j hj hv
        by_cases hji : j = i
        · subst hji
          simp at hv
        · simp only [update_of_ne hji] at hv
          exact hg.coherent j ((Multiset.mem_cons.mp hj).resolve_left hji) hv
      · intro j hj hv
        have hji : j ≠ i := by
          rintro rfl
          exact hnot hj
        simpa only [update_of_ne hji] using hv
    next hfull => exact ⟨rfl, by omega⟩

lemma idup_spec (hg : Good sb s) (hi : i ∈ s.refs) :
    Meets allowed (idup i) s fun _ s' =>
      Good sb s' ∧ s'.disk = s.disk ∧ s'.refs = i ::ₘ s.refs ∧ Keeps s.refs s s' := by
  unfold idup
  refine meets_get ⟨⟨hg.sane, ?_, ?_⟩, rfl, rfl, ⟨fun _ _ h => h, rfl, rfl⟩⟩
  · intro j hj
    rcases Multiset.mem_cons.mp hj with rfl | hj
    · exact hg.used _ hi
    · exact hg.used j hj
  intro j hj hv
  rcases Multiset.mem_cons.mp hj with rfl | hj
  · exact hg.coherent _ hi hv
  · exact hg.coherent j hj hv

lemma ilock_spec (hg : Good sb s) (hi : i ∈ s.refs) :
    Meets allowed (ilock sb i) s fun _ s' =>
      Good sb s' ∧ s'.disk = s.disk ∧ s'.refs = s.refs ∧ s'.valid i = true ∧
        Keeps s.refs s s' := by
  unfold ilock
  refine meets_get ?_
  rw [if_neg (not_not.mpr hi)]
  split
  · rw [if_neg (mem_files.mp (hg.used i hi)).2]
    refine ⟨⟨hg.sane, hg.used, ?_⟩, rfl, rfl, update_self .., ⟨?_, rfl, rfl⟩⟩
    · intro j hj hv
      by_cases hji : j = i
      · subst hji
        exact update_self ..
      · simp only [update_of_ne hji] at hv ⊢
        exact hg.coherent j hj hv
    · intro j _ hv
      by_cases hji : j = i
      · subst hji
        exact update_self ..
      · simpa only [update_of_ne hji] using hv
  next hvalid =>
    exact ⟨hg, rfl, rfl, by simpa using hvalid, Keeps.refl⟩

/-- `iput` of an inode that has links, or that is held by others too. -/
lemma iput_keep (hg : Good sb s) (hrefs : s.refs = i ::ₘ r)
    (hkeep : i ∈ r ∨ (dinode sb s.disk i).nlink ≠ 0) :
    Meets allowed (iput sb i) s fun _ s' =>
      Good sb s' ∧ s'.disk = s.disk ∧ s'.refs = r ∧ Keeps r s s' := by
  have hmem : i ∈ s.refs := mem_refs_of_eq hrefs
  have hnot : ¬ (s.refs.count i = 1 ∧ s.valid i = true ∧ (s.mem i).nlink = 0) := by
    rintro ⟨hcount, hvalid, hzero⟩
    rw [hg.coherent i hmem hvalid] at hzero
    rcases hkeep with hr | hne
    · rw [hrefs, Multiset.count_cons_self] at hcount
      have := Multiset.count_pos.mpr hr
      omega
    · exact hne hzero
  unfold iput
  refine meets_get ?_
  rw [if_neg hnot]
  have herase : s.refs.erase i = r := by
    rw [hrefs, Multiset.erase_cons_head]
  have hsub : ∀ j ∈ s.refs.erase i, j ∈ s.refs := fun j hj => Multiset.mem_of_mem_erase hj
  exact ⟨⟨hg.sane, fun j hj => hg.used j (hsub j hj), fun j hj => hg.coherent j (hsub j hj)⟩,
    rfl, herase, ⟨fun _ _ h => h, rfl, rfl⟩⟩

/-- `iput` of an inode without links that nobody else holds. -/
lemma iput_free (hv : sb.Valid) (hg : Good sb s) (hrefs : s.refs = i ::ₘ r) (hi : i ∉ r)
    (hvalid : s.valid i = true) (hzero : (dinode sb s.disk i).nlink = 0) :
    Meets allowed (iput sb i) s fun _ s' =>
      Good sb s' ∧ image sb s'.disk = update (image sb s.disk) i none ∧
        s'.refs = r ∧ Keeps r s s' := by
  have hmem : i ∈ s.refs := mem_refs_of_eq hrefs
  have hcopy := hg.coherent i hmem hvalid
  have hlast : s.refs.count i = 1 ∧ s.valid i = true ∧ (s.mem i).nlink = 0 := by
    refine ⟨?_, hvalid, by rw [hcopy, hzero]⟩
    rw [hrefs, Multiset.count_cons_self, Multiset.count_eq_zero_of_notMem hi]
  have herase : s.refs.erase i = r := by
    rw [hrefs, Multiset.erase_cons_head]
  obtain ⟨ip, d, heq, hc⟩ := hg.sane.free hv (hg.used i hmem)
  unfold iput
  refine meets_get ?_
  rw [if_pos hlast, hcopy, heq]
  have hne : ∀ j ∈ s.refs.erase i, j ≠ i := by
    rintro j hj rfl
    exact hi (herase ▸ hj)
  refine ⟨hg.of_changed hc (fun j hj => Multiset.mem_of_mem_erase hj)
    (fun h => absurd rfl (hne i h)) (fun h => absurd rfl (hne i h)) ?_, hc.image, herase,
    ⟨?_, rfl, rfl⟩⟩
  · intro j hj hji hv'
    simp only [update_of_ne hji] at hv' ⊢
    exact ⟨hv', trivial⟩
  intro j hj hv'
  have hji := hne j (herase ▸ hj)
  simpa only [update_of_ne hji] using hv'

/-- Fields of an inode are set that are neither its type nor its contents. -/
lemma modifyInode_spec (hv : sb.Valid) (hg : Good sb s) (hi : i ∈ s.refs)
    (hvalid : s.valid i = true) (hfits : (f (dinode sb s.disk i)).Fits)
    (htype : ∀ ip, (f ip).type = ip.type) (hsize : ∀ ip, (f ip).size = ip.size)
    (haddrs : ∀ ip, (f ip).addrs = ip.addrs) :
    Meets allowed (modifyInode sb i f) s fun _ s' =>
      Good sb s' ∧ image sb s'.disk = update (image sb s.disk) i
        (some { node sb s.disk i with nlink := (f (dinode sb s.disk i)).nlink }) ∧
        s'.refs = s.refs ∧ Keeps s.refs s s' := by
  have hcopy := hg.coherent i hi hvalid
  have hc := hg.sane.modify hv (hg.used i hi) hfits (htype _) (hsize _) (haddrs _)
  unfold modifyInode
  refine meets_get ?_
  rw [hcopy]
  refine ⟨hg.of_changed hc (fun _ h => h) (fun _ => Option.some_ne_none _) ?_ ?_, hc.image, rfl,
    ⟨fun _ _ h => h, rfl, rfl⟩⟩
  · intro _ _
    simp only [update_self]
    exact (dinode_iupdate_self hfits).symm
  · intro j _ hji hv'
    exact ⟨hv', update_of_ne hji _ _⟩

/-! ## Reading a directory -/

/-- The entries of directory `i`, on the disk. -/
def dirEntries (sb : Superblock) (d : Disk) (i : Nat) : List Dirent :=
  entries ((view sb d).contents i)

lemma node_entries (hdir : (dinode sb d i).type = tDir) :
    (node sb d i).entries = dirEntries sb d i := if_pos hdir

lemma length_dirEntries (sb : Superblock) (d : Disk) (i : Nat) :
    (dirEntries sb d i).length = (dinode sb d i).size / 16 := by
  rw [dirEntries, length_entries, length_contents]
  rfl

/-- A directory that is locked: it is held, and in memory. -/
structure LockedDir (sb : Superblock) (s : State) (dp : Nat) : Prop where
  held : dp ∈ s.refs
  valid : s.valid dp = true
  dir : (dinode sb s.disk dp).type = tDir

variable {dp off k fuel ip pid : Nat} {p q : Dirent → Bool} {short : Panic} {parent : Bool}
  {path : List UInt8} {e : Dirent} {res : Option (Nat × List UInt8)}

lemma readInode_spec (hg : Good sb s) (hi : i ∈ s.refs) (hvalid : s.valid i = true)
    (hoff : off ≤ (dinode sb s.disk i).size) :
    Meets allowed (readInode sb i off 16) s fun data s' =>
      s' = s ∧ data = (((view sb s.disk).contents i).drop off).take 16 := by
  have hcopy := hg.coherent i hi hvalid
  unfold readInode
  refine meets_get ?_
  rw [hcopy, hg.sane.read (hg.used i hi) hoff]
  refine ⟨?_, rfl⟩
  have hmem : update s.mem i (dinode sb s.disk i) = s.mem := by
    rw [← hcopy, update_eq_self]
  simp only [hmem]

/-- A loop over the entries from `k` on has stopped at `k'`: at the first entry that `q`
holds for, or at the end. -/
structure Scanned (es : List Dirent) (q : Dirent → Bool) (k k' : Nat) (found : Option Dirent) :
    Prop where
  before : ∀ j e, k ≤ j → j < k' → es[j]? = some e → q e = false
  stop : (∃ de e, found = some de ∧ es[k']? = some e ∧ q e = true ∧ e.inum = de.inum) ∨
    (found = none ∧ k' = es.length)

/-- The loops over a directory find the first entry that `q` holds for; `q` is what
the test in the loop says of the entry. -/
lemma scanDir_spec (hg : Good sb s) (hd : LockedDir sb s dp)
    (hq : ∀ de, p de = q ⟨de.inum, cname de.name⟩) (hk : k ≤ (dirEntries sb s.disk dp).length)
    (hfuel : (dirEntries sb s.disk dp).length ≤ k + fuel) :
    Meets allowed (scanDir sb dp short p fuel (16 * k)) s fun r s' => s' = s ∧
      ∃ k', r.1 = 16 * k' ∧ Scanned (dirEntries sb s.disk dp) q k k' r.2 := by
  have hlen := length_dirEntries sb s.disk dp
  have haligned := hg.sane.aligned dp (hg.used dp hd.held) hd.dir
  have hcopy := hg.coherent dp hd.held hd.valid
  induction fuel generalizing k with
  | zero =>
    refine ⟨rfl, k, rfl, ?_, .inr ⟨rfl, by omega⟩⟩
    intro j e h1 h2
    omega
  | succ fuel ih =>
    rw [scanDir]
    refine meets_get ?_
    rw [hcopy]
    split
    next hlt =>
      refine (readInode_spec hg hd.held hd.valid (by omega)).bind ?_
      rintro data s' ⟨rfl, rfl⟩
      have hget : (dirEntries sb s'.disk dp)[k]? = some
          (entry ((((view sb s'.disk).contents dp).drop (16 * k)).take 16)) := by
        rw [List.getElem?_eq_some_iff]
        refine ⟨by omega, ?_⟩
        simp [dirEntries, entries]
      have hsixteen :
          ((((view sb s'.disk).contents dp).drop (16 * k)).take 16).length = 16 := by
        have hsize : ((view sb s'.disk).contents dp).length = (dinode sb s'.disk dp).size :=
          length_contents
        rw [length_take, length_drop, hsize]
        omega
      rw [if_neg (not_not.mpr hsixteen)]
      split
      next hp =>
        refine ⟨rfl, k, rfl, ?_, .inl ⟨_, _, rfl, hget, ?_, rfl⟩⟩
        · intro j e h1 h2
          omega
        · rw [← hp, hq]
          rfl
      next hp =>
        have hnext : 16 * k + 16 = 16 * (k + 1) := by omega
        rw [hnext]
        refine (ih (by omega) (by omega)).mono ?_
        rintro r s'' ⟨rfl, k', hr, hbefore, hfound⟩
        refine ⟨rfl, k', hr, ?_, hfound⟩
        intro j e h1 h2 hj
        by_cases hjk : j = k
        · subst hjk
          rw [hget] at hj
          cases hj
          rw [Bool.not_eq_true, hq] at hp
          exact hp
        · exact hbefore j e (by omega) h2 hj
    · refine ⟨rfl, k, rfl, ?_, .inr ⟨rfl, by omega⟩⟩
      intro j e h1 h2
      omega

lemma scan_spec (q : Dirent → Bool) (hg : Good sb s) (hd : LockedDir sb s dp)
    (hq : ∀ de, p de = q ⟨de.inum, cname de.name⟩) (hk : k ≤ (dirEntries sb s.disk dp).length) :
    Meets allowed (scan sb dp short p (16 * k)) s fun r s' => s' = s ∧
      ∃ k', r.1 = 16 * k' ∧ Scanned (dirEntries sb s.disk dp) q k k' r.2 := by
  have hlen := length_dirEntries sb s.disk dp
  unfold scan
  refine meets_get ?_
  rw [hg.coherent dp hd.held hd.valid]
  exact scanDir_spec hg hd hq hk (by omega)

/-- `dirlookup` gives the inode of the entry with that name, if there is one. -/
lemma dirlookup_spec {name : List UInt8} (hg : Good sb s) (hd : LockedDir sb s dp)
    (htargets : ∀ e ∈ dirEntries sb s.disk dp, e.inum ≠ 0 → e.inum ∈ files sb s.disk)
    (hcap : s.refs.toFinset.card ≤ cap) :
    Meets (TableFull cap) (dirlookup sb dp name) s fun r s' =>
      Good sb s' ∧ s'.disk = s.disk ∧ Keeps s.refs s s' ∧
      match r with
      | none => s'.refs = s.refs ∧
          ∀ e ∈ dirEntries sb s.disk dp, e.inum ≠ 0 → e.name ≠ cname name
      | some (ip, off) => s'.refs = ip ::ₘ s.refs ∧
          ∃ k, off = 16 * k ∧ ip ≠ 0 ∧ (dirEntries sb s.disk dp)[k]? = some ⟨ip, cname name⟩ := by
  have hq : ∀ de : Dirent, decide (de.inum ≠ 0 ∧ namecmp name de.name = 0) =
      decide (de.inum ≠ 0 ∧ cname de.name = cname name) := by
    intro de
    simp only [namecmp_eq_zero, eq_comm (a := cname name)]
  unfold dirlookup
  refine meets_get ?_
  rw [hg.coherent dp hd.held hd.valid, if_neg (not_not.mpr hd.dir)]
  refine (scan_spec (fun e => decide (e.inum ≠ 0 ∧ e.name = cname name)) hg hd hq
    (Nat.zero_le _)).bind ?_
  rintro ⟨off, found⟩ s' ⟨rfl, k, hoff, hbefore, ⟨de, e, hfound, he, hqe, hinum⟩ | ⟨hfound, hk⟩⟩
  · simp only at hfound hoff
    subst hfound
    obtain ⟨hne, hname⟩ := of_decide_eq_true hqe
    have hmem : e ∈ dirEntries sb s'.disk dp := mem_of_getElem? he
    refine (iget_spec hg (hinum ▸ htargets e hmem hne) hcap).bind ?_
    rintro - s'' ⟨hg', hdisk, hrefs, hkeeps⟩
    refine meets_pure ⟨hg', hdisk, hkeeps, hrefs, k, hoff, hinum ▸ hne, ?_⟩
    rw [he, ← hinum, ← hname]
  simp only at hfound
  subst hfound
  refine meets_pure ⟨hg, rfl, Keeps.refl, rfl, ?_⟩
  intro e he hne hname
  obtain ⟨j, hj, hget⟩ := getElem_of_mem he
  have hfalse := hbefore j e (Nat.zero_le j) (hk ▸ hj) (List.getElem?_eq_some_iff.mpr ⟨hj, hget⟩)
  exact of_decide_eq_false hfalse ⟨hne, hname⟩

/-! ## Paths -/

/-- Whatever a directory names is in use, and has links. -/
def Walkable (img : Image) : Prop :=
  ∀ d n, img d = some n → n.Live → ∀ e ∈ n.entries, e.inum ≠ 0 →
    ∃ m, img e.inum = some m ∧ m.nlink ≠ 0

/-- What a directory on a path names. -/
lemma Walkable.target (hw : Walkable (image sb d)) (hi : i ∈ files sb d)
    (hlive : (node sb d i).Live) (he : e ∈ dirEntries sb d i) (hne : e.inum ≠ 0) :
    e.inum ∈ files sb d ∧ (dinode sb d e.inum).nlink ≠ 0 := by
  rw [← node_entries hlive.1] at he
  obtain ⟨m, hm, hlinks⟩ := hw i _ (image_of_mem hi) hlive e he hne
  obtain ⟨hmem, rfl⟩ := mem_files_of_image hm
  exact ⟨hmem, hlinks⟩

lemma card_cons_le (i : Nat) (r : Multiset Nat) :
    (i ::ₘ r).toFinset.card ≤ r.toFinset.card + 1 := by
  rw [Multiset.toFinset_cons]
  exact Finset.card_insert_le i r.toFinset

/-- Where a path has led to, from state `s` with the references `r`: nowhere, or to an
inode with one reference more. -/
def Walked (sb : Superblock) (parent : Bool) (r : Multiset Nat) (s : State)
    (res : Option (Nat × List UInt8)) (s' : State) : Prop :=
  Good sb s' ∧ s'.disk = s.disk ∧ Keeps r s s' ∧
    match res with
    | none => s'.refs = r
    | some (ip, _) => s'.refs = ip ::ₘ r ∧ (ip ∈ r ∨ (dinode sb s.disk ip).nlink ≠ 0) ∧
        (parent = true → (node sb s.disk ip).Live)

lemma Walked.after (h : Walked sb parent r s' res s'')
    (hdisk : s'.disk = s.disk) (hkeeps : Keeps r s s') : Walked sb parent r s res s'' := by
  obtain ⟨hg, hdisk', hkeeps', hpost⟩ := h
  rw [hdisk] at hdisk' hpost
  exact ⟨hg, hdisk', hkeeps.trans hkeeps', hpost⟩

/-- The path ends at an inode that is not what it should be. -/
lemma giveUp_spec (hg : Good sb s) (hrefs : s.refs = ip ::ₘ r)
    (hkeep : ip ∈ r ∨ (dinode sb s.disk ip).nlink ≠ 0) :
    Meets allowed (iput sb ip >>= fun _ => pure none) s (Walked sb parent r s) := by
  refine (iput_keep hg hrefs hkeep).bind ?_
  rintro - s' ⟨hg', hdisk, hrefs', hkeeps⟩
  exact meets_pure ⟨hg', hdisk, hkeeps, hrefs'⟩

lemma namexLoop_spec (hg : Good sb s) (hw : Walkable (image sb s.disk)) (hrefs : s.refs = ip ::ₘ r)
    (hkeep : ip ∈ r ∨ (dinode sb s.disk ip).nlink ≠ 0) (hcap : r.toFinset.card + 1 ≤ cap) :
    Meets (TableFull cap) (namexLoop sb parent ip path) s (Walked sb parent r s) := by
  -- each element makes the path shorter
  generalize hlen : path.length = len
  induction len using Nat.strong_induction_on generalizing s ip path with
  | _ len ih =>
  rw [namexLoop]
  split
  · -- the path is used up
    split
    · exact giveUp_spec hg hrefs hkeep
    next hparent =>
      exact meets_pure ⟨hg, rfl, Keeps.refl, hrefs, hkeep, fun h => absurd h hparent⟩
  next name rest hskip =>
    have hheld : ip ∈ s.refs := mem_refs_of_eq hrefs
    refine (ilock_spec hg hheld).bind ?_
    rintro - s1 ⟨hg1, hdisk1, hrefs1, hvalid1, hkeeps1⟩
    have hheld1 : ip ∈ s1.refs := hrefs1.symm ▸ hheld
    rw [hrefs] at hrefs1 hkeeps1
    replace hkeeps1 := hkeeps1.tail
    have hgiveup : Meets (TableFull cap) (iput sb ip >>= fun _ => pure none) s1
        (Walked sb parent r s) :=
      (giveUp_spec hg1 hrefs1 (hdisk1.symm ▸ hkeep)).mono fun _ _ h => h.after hdisk1 hkeeps1
    refine meets_get ?_
    rw [hg1.coherent ip hheld1 hvalid1, hdisk1]
    split
    · exact hgiveup
    next hdir =>
      split
      · exact hgiveup
      next hlinks =>
        have hlive : (node sb s.disk ip).Live := ⟨not_not.mp hdir, hlinks⟩
        split
        · -- `nameiparent` stops one element early
          exact meets_pure ⟨hg1, hdisk1, hkeeps1, hrefs1, hkeep, fun _ => hlive⟩
        have hlocked : LockedDir sb s1 ip := ⟨hheld1, hvalid1, hdisk1.symm ▸ hlive.1⟩
        have htarget := fun e => hw.target (e := e) (hg.used ip hheld) hlive
        have hcap1 := card_cons_le ip r
        rw [← hrefs1] at hcap1
        refine (dirlookup_spec hg1 hlocked ?_ (hcap1.trans hcap)).bind ?_
        · rw [hdisk1]
          exact fun e he hne => (htarget e he hne).1
        rintro (_ | ⟨next, off⟩) s2 ⟨hg2, hdisk2, hkeeps2, hres⟩
        all_goals
          rw [hrefs1] at hkeeps2 hres
          rw [hdisk1] at hdisk2 hres
          replace hkeeps2 := hkeeps1.trans hkeeps2.tail
        · exact (giveUp_spec hg2 hres.1 (hdisk2.symm ▸ hkeep)).mono
            fun _ _ h => h.after hdisk2 hkeeps2
        obtain ⟨hrefs2, k, -, hne, hget⟩ := hres
        rw [Multiset.cons_swap] at hrefs2
        refine (iput_keep hg2 hrefs2 (.inr (hdisk2.symm ▸ hlinks))).bind ?_
        rintro - s3 ⟨hg3, hdisk3, hrefs3, hkeeps3⟩
        rw [hdisk2] at hdisk3
        have hnext := (htarget _ (mem_of_getElem? hget) hne).2
        have hless := hlen ▸ skipelem_length hskip
        refine (ih rest.length hless hg3 (hdisk3.symm ▸ hw) hrefs3
          (.inr (hdisk3.symm ▸ hnext)) rfl).mono fun _ _ h => h.after hdisk3 ?_
        exact hkeeps2.trans hkeeps3.tail

lemma namex_spec (hg : Good sb s) (hw : Walkable (image sb s.disk))
    (hroot : rootIno ∈ files sb s.disk) (hlive : (node sb s.disk rootIno).Live)
    (hcwd : (s.procs pid).cwd ∈ s.refs) (hcap : s.refs.toFinset.card + 1 ≤ cap) :
    Meets (TableFull cap) (namex sb pid path parent) s (Walked sb parent s.refs s) := by
  unfold namex
  split
  · refine (iget_spec hg hroot (by omega)).bind ?_
    rintro - s' ⟨hg', hdisk, hrefs, hkeeps⟩
    refine (namexLoop_spec hg' (hdisk.symm ▸ hw) hrefs (.inr ?_) hcap).mono
      fun _ _ h => h.after hdisk hkeeps
    rw [hdisk]
    exact hlive.2
  · refine meets_get ((idup_spec hg hcwd).bind ?_)
    rintro - s' ⟨hg', hdisk, hrefs, hkeeps⟩
    exact (namexLoop_spec hg' (hdisk.symm ▸ hw) hrefs (.inl hcwd) hcap).mono
      fun _ _ h => h.after hdisk hkeeps

lemma namei_spec (hg : Good sb s) (hw : Walkable (image sb s.disk))
    (hroot : rootIno ∈ files sb s.disk) (hlive : (node sb s.disk rootIno).Live)
    (hcwd : (s.procs pid).cwd ∈ s.refs) (hcap : s.refs.toFinset.card + 1 ≤ cap) :
    Meets (TableFull cap) (namei sb pid path) s fun res s' =>
      Walked sb false s.refs s (res.map fun ip => (ip, [])) s' := by
  unfold namei
  refine (namex_spec hg hw hroot hlive hcwd hcap).bind ?_
  rintro (_ | ⟨ip, name⟩) s' h
  all_goals exact meets_pure h

end

end CshellXv6.Fs
