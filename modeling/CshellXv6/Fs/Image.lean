import CshellXv6.Fs.Entries

/-! # What is on the disk

The image of a disk: for each inode that is in use its type, its link count and, if
it is a directory, its entries. The functions of `fs.c` change one inode at a time,
and the image at that inode (`Changed`).
-/

namespace CshellXv6.Fs

open Lib Function List

structure Node where
  type : Int
  nlink : Int
  entries : List Dirent
deriving DecidableEq, Repr

section

variable (sb : Superblock) (d : Disk)

/-- The inodes as they are on the disk. -/
def view : FsState := ⟨dinode sb d, d⟩

/-- The inodes in use. -/
def files : Finset Nat := (Finset.range sb.ninodes).filter fun i => (dinode sb d i).type ≠ 0

def node (i : Nat) : Node where
  type := (dinode sb d i).type
  nlink := (dinode sb d i).nlink
  entries := if (dinode sb d i).type = tDir then entries ((view sb d).contents i) else []

def image (i : Nat) : Option Node := if i ∈ files sb d then some (node sb d i) else none

/-- The blocks are consistent, and directories consist of whole entries. -/
structure Sane : Prop where
  consistent : Consistent sb (files sb d) (view sb d)
  aligned : ∀ i ∈ files sb d, (dinode sb d i).type = tDir → 16 ∣ (dinode sb d i).size

end

/-- The image has changed at inode `i`, to `n`. -/
structure Changed (sb : Superblock) (i : Nat) (n : Option Node) (d d' : Disk) : Prop where
  sane : Sane sb d'
  inodes : ∀ j, j < sb.ninodes → j ≠ i → dinode sb d' j = dinode sb d j
  image : image sb d' = update (image sb d) i n

section

variable {sb : Superblock} {d d' : Disk} {i j o p v : Nat} {n : Node} {ip : Inode} {b : Block}
  {pl : Place} {type : Int}

lemma mem_files : i ∈ files sb d ↔ i < sb.ninodes ∧ (dinode sb d i).type ≠ 0 := by
  simp [files]

lemma view_synced : Synced sb (files sb d) (view sb d) := by
  intro i hi
  exact ⟨(mem_files.mp hi).1, rfl⟩

lemma image_of_mem (h : i ∈ files sb d) : image sb d i = some (node sb d i) := if_pos h

lemma image_of_notMem (h : i ∉ files sb d) : image sb d i = none := if_neg h

lemma mem_files_of_image (h : image sb d i = some n) : i ∈ files sb d ∧ n = node sb d i := by
  by_cases hi : i ∈ files sb d
  · rw [image_of_mem hi] at h
    exact ⟨hi, (Option.some.inj h).symm⟩
  · rw [image_of_notMem hi] at h
    cases h

lemma mem_files_congr (hj : dinode sb d' j = dinode sb d j) : j ∈ files sb d' ↔ j ∈ files sb d := by
  rw [mem_files, mem_files, hj]

/-- The image at an inode depends on the inode and its contents. -/
lemma image_congr (hj : dinode sb d' j = dinode sb d j)
    (hcontents : j ∈ files sb d → (view sb d').contents j = (view sb d).contents j) :
    image sb d' j = image sb d j := by
  by_cases hmem : j ∈ files sb d
  · rw [image_of_mem hmem, image_of_mem ((mem_files_congr hj).mpr hmem), node, node, hj,
      hcontents hmem]
  · rw [image_of_notMem hmem, image_of_notMem (mt (mem_files_congr hj).mp hmem)]

lemma image_update (hinodes : ∀ j, j < sb.ninodes → j ≠ i → dinode sb d' j = dinode sb d j)
    (hothers : ∀ j ∈ files sb d, j ≠ i → (view sb d').contents j = (view sb d).contents j) :
    image sb d' = update (image sb d) i (image sb d' i) := by
  funext j
  by_cases hji : j = i
  · subst hji
    rw [update_self]
  rw [update_of_ne hji]
  by_cases hj : j < sb.ninodes
  · exact image_congr (hinodes j hj hji) fun hmem => hothers j hmem hji
  · rw [image_of_notMem fun h => hj (mem_files.mp h).1,
      image_of_notMem fun h => hj (mem_files.mp h).1]

/-! ## One inode is written -/

/-- Of the disk, only inode `i` has changed. -/
structure InodeOnly (sb : Superblock) (i : Nat) (d d' : Disk) : Prop where
  blocks : ∀ x, x ≠ iblock sb i → d' x = d x
  inodes : ∀ j, j ≠ i → dinode sb d' j = dinode sb d j

lemma inodeOnly_iupdate : InodeOnly sb i d (iupdate sb i ip d) where
  blocks := fun _ hx => iupdate_of_ne hx
  inodes := fun _ hj => dinode_iupdate_of_ne hj

/-- A `short` is stored at the front of an inode. -/
lemma getInode_store (h : p + 64 ≤ o ∨ o + 64 ≤ p) : getInode (b.store 2 o v) p = getInode b p := by
  simp only [getInode, Inode.mk.injEq]
  refine ⟨?_, ?_, ?_, ?_, ?_, ?_⟩
  · rw [Bytes.load_store_of_disjoint _ _ _ _ _ _ (by omega)]
  · rw [Bytes.load_store_of_disjoint _ _ _ _ _ _ (by omega)]
  · rw [Bytes.load_store_of_disjoint _ _ _ _ _ _ (by omega)]
  · rw [Bytes.load_store_of_disjoint _ _ _ _ _ _ (by omega)]
  · rw [Bytes.load_store_of_disjoint _ _ _ _ _ _ (by omega)]
  funext k
  have hk := k.isLt
  rw [Bytes.load_store_of_disjoint _ _ _ _ _ _ (by omega)]

lemma inodeOnly_ifree : InodeOnly sb i d (ifree sb i d) := by
  constructor
  · intro x hx
    exact update_of_ne hx _ _
  intro j hj
  rw [dinode, dinode, ifree]
  by_cases hblock : iblock sb j = iblock sb i
  · have hdiv : j / 16 = i / 16 := Nat.add_right_cancel hblock
    rw [hblock, update_self]
    exact getInode_store (by omega)
  · rw [update_of_ne hblock]

lemma type_ifree : (dinode sb (ifree sb i d) i).type = 0 := by
  rw [dinode, ifree, update_self, getInode, Bytes.load_store _ _ _ _ (by omega)]
  rfl

/-- The addresses of a file are in its inode and among the data. -/
lemma InodeOnly.ref (h : InodeOnly sb i d d') (hv : sb.Valid) (hi : i < sb.ninodes) (hs : Sane sb d)
    (hj : j ∈ files sb d) (haddrs : (dinode sb d' j).addrs = (dinode sb d j).addrs) :
    (dinode sb d' j).ref d' pl = refs (files sb d) (view sb d) (j, pl) := by
  have hind : refs (files sb d) (view sb d) (j, .indirect) = (dinode sb d j).addrs 12 :=
    refs_of_mem hj _
  have hsame : (dinode sb d' j).ref d' pl = (dinode sb d j).ref d' pl := by
    cases pl with
    | indirect => simp only [Inode.ref, haddrs]
    | data bn => simp only [Inode.ref, Inode.block, haddrs]
  rw [hsame, refs_of_mem hj]
  refine Inode.ref_congr fun hne => h.blocks _ ?_
  have h1 := (hs.consistent.used _ (hind.symm ▸ hne)).1
  have h2 := iblock_lt hv hi
  have h3 := sb.bmapstart_lt
  rw [hind] at h1
  omega

lemma InodeOnly.contents (h : InodeOnly sb i d d') (hv : sb.Valid) (hi : i < sb.ninodes)
    (hs : Sane sb d) (hj : j ∈ files sb d) (hsize : (dinode sb d' j).size = (dinode sb d j).size)
    (haddrs : (dinode sb d' j).addrs = (dinode sb d j).addrs) :
    (view sb d').contents j = (view sb d).contents j := by
  refine contents_congr hsize ?_
  intro o ho
  have hne := hs.consistent.ref_ne_zero hj ho
  have href : refs (files sb d) (view sb d') (j, .data (o / 1024)) = _ :=
    (refs_of_mem hj _).trans (h.ref hv hi hs hj haddrs)
  have h1 := (hs.consistent.used _ hne).1
  have h2 := iblock_lt hv hi
  have h3 := sb.bmapstart_lt
  have hblock : (view sb d').disk (refs (files sb d) (view sb d) (j, .data (o / 1024))) =
      (view sb d).disk (refs (files sb d) (view sb d) (j, .data (o / 1024))) :=
    h.blocks _ (by omega)
  rw [byte_eq hj, byte_eq hj, href, hblock]

/-- The disk is sane again if the inode is free, new, or has its old addresses. -/
lemma InodeOnly.sane (h : InodeOnly sb i d d') (hv : sb.Valid) (hi : i < sb.ninodes)
    (hs : Sane sb d)
    (hnew : i ∈ files sb d' → ((dinode sb d' i).size = 0 ∧ ∀ k, (dinode sb d' i).addrs k = 0) ∨
      (i ∈ files sb d ∧ (dinode sb d' i).type = (dinode sb d i).type ∧
        (dinode sb d' i).size = (dinode sb d i).size ∧
        (dinode sb d' i).addrs = (dinode sb d i).addrs)) : Sane sb d' := by
  -- an inode is empty or as it was
  have hcases : ∀ j ∈ files sb d', ((dinode sb d' j).size = 0 ∧ ∀ k, (dinode sb d' j).addrs k = 0) ∨
      (j ∈ files sb d ∧ (dinode sb d' j).type = (dinode sb d j).type ∧
        (dinode sb d' j).size = (dinode sb d j).size ∧
        (dinode sb d' j).addrs = (dinode sb d j).addrs) := by
    intro j hj
    by_cases hji : j = i
    · subst hji
      exact hnew hj
    have hsame := h.inodes j hji
    refine .inr ⟨(mem_files_congr hsame).mp hj, ?_⟩
    rw [hsame]
    exact ⟨rfl, rfl, rfl⟩
  have hbits : ∀ c, c < sb.size → bit sb (view sb d').disk c = bit sb (view sb d).disk c := by
    intro c _
    have h1 := iblock_lt hv hi
    have h2 : sb.bmapstart ≤ bblock sb c := le_bblock
    exact bit_congr (h.blocks _ (by omega))
  constructor
  · refine hs.consistent.restrict hv ?_ hbits ?_ ?_
    · rintro ⟨j, pl⟩
      by_cases hj : j ∈ files sb d'
      · rw [refs_of_mem hj]
        rcases hcases j hj with ⟨-, hzero⟩ | ⟨hold, -, -, haddrs⟩
        · right
          cases pl with
          | indirect => exact hzero 12
          | data bn => simp [Inode.ref, Inode.block, view, hzero]
        · exact .inl (h.ref hv hi hs hold haddrs)
      · exact .inr (refs_of_notMem hj pl)
    · intro j hj bn hbn
      rcases hcases j hj with ⟨hzero, -⟩ | ⟨hold, -, hsize, haddrs⟩
      · have hempty : ((view sb d').mem j).size = 0 := hzero
        omega
      have hlt : bn * 1024 < ((view sb d).mem j).size := hsize ▸ hbn
      have href : refs (files sb d') (view sb d') (j, .data bn) = _ :=
        (refs_of_mem hj _).trans (h.ref hv hi hs hold haddrs)
      rw [href]
      exact hs.consistent.filled j hold bn hlt
    · intro j hj
      rcases hcases j hj with ⟨hzero, -⟩ | ⟨hold, -, hsize, -⟩
      · have hempty : ((view sb d').mem j).size = 0 := hzero
        omega
      have hsame : ((view sb d').mem j).size = ((view sb d).mem j).size := hsize
      rw [hsame]
      exact hs.consistent.bounded j hold
  · intro j hj hdir
    rcases hcases j hj with ⟨hzero, -⟩ | ⟨hold, htype, hsize, -⟩
    · rw [hzero]
      exact Nat.dvd_zero 16
    · rw [hsize]
      exact hs.aligned j hold (htype ▸ hdir)

lemma InodeOnly.changed (h : InodeOnly sb i d d') (hv : sb.Valid) (hi : i < sb.ninodes)
    (hs : Sane sb d) (hs' : Sane sb d') : Changed sb i (image sb d' i) d d' where
  sane := hs'
  inodes := fun j _ hj => h.inodes j hj
  image := by
    refine image_update (fun j _ hj => h.inodes j hj) ?_
    intro j hj hji
    have hsame := h.inodes j hji
    exact h.contents hv hi hs hj (by rw [hsame]) (by rw [hsame])

/-- Fields other than the size and the addresses are set. -/
lemma Sane.modify (hv : sb.Valid) (hs : Sane sb d) (hi : i ∈ files sb d)
    (hfits : ip.Fits) (htype : ip.type = (dinode sb d i).type)
    (hsize : ip.size = (dinode sb d i).size) (haddrs : ip.addrs = (dinode sb d i).addrs) :
    Changed sb i (some { node sb d i with nlink := ip.nlink }) d (iupdate sb i ip d) := by
  have hn := (mem_files.mp hi).1
  have hself : dinode sb (iupdate sb i ip d) i = ip := dinode_iupdate_self hfits
  have hmem : i ∈ files sb (iupdate sb i ip d) := by
    rw [mem_files, hself, htype]
    exact mem_files.mp hi
  have hsane : Sane sb (iupdate sb i ip d) := by
    refine inodeOnly_iupdate.sane hv hn hs fun _ => .inr ⟨hi, ?_⟩
    rw [hself]
    exact ⟨htype, hsize, haddrs⟩
  have hchanged := inodeOnly_iupdate.changed hv hn hs hsane
  have hcontents := inodeOnly_iupdate.contents hv hn hs hi (by rw [hself, hsize])
    (by rw [hself, haddrs])
  rw [image_of_mem hmem, node, hself, htype, hcontents] at hchanged
  exact hchanged

/-- `ialloc` writes an empty inode. -/
lemma Sane.alloc (hv : sb.Valid) (hs : Sane sb d) (hn : i < sb.ninodes)
    (htype : type ≠ 0) (hshort : -2 ^ 15 ≤ type ∧ type < 2 ^ 15) :
    Changed sb i (some ⟨type, 0, []⟩) d (iupdate sb i (Inode.fresh type) d) := by
  have hzero : -2 ^ 15 ≤ (0 : Int) ∧ (0 : Int) < 2 ^ 15 := by decide
  have hfits : (Inode.fresh type).Fits :=
    ⟨hshort, hzero, hzero, hzero, Nat.two_pow_pos 32, fun _ => Nat.two_pow_pos 32⟩
  have hself : dinode sb (iupdate sb i (Inode.fresh type) d) i = Inode.fresh type :=
    dinode_iupdate_self hfits
  have hmem : i ∈ files sb (iupdate sb i (Inode.fresh type) d) := by
    rw [mem_files, hself]
    exact ⟨hn, htype⟩
  have hsane : Sane sb (iupdate sb i (Inode.fresh type) d) := by
    refine inodeOnly_iupdate.sane hv hn hs fun _ => .inl ?_
    rw [hself]
    exact ⟨rfl, fun _ => rfl⟩
  have hchanged := inodeOnly_iupdate.changed hv hn hs hsane
  have hcontents : (view sb (iupdate sb i (Inode.fresh type) d)).contents i = [] := by
    rw [← length_eq_zero_iff, length_contents]
    exact congrArg Inode.size hself
  rw [image_of_mem hmem, node, hself, hcontents] at hchanged
  have hentries : (if (Inode.fresh type).type = tDir then entries [] else []) = [] := by
    split <;> rfl
  rw [hentries] at hchanged
  exact hchanged

/-! ## The contents of an inode are changed -/

lemma Changed.refl (hs : Sane sb d) (hi : i ∈ files sb d) :
    Changed sb i (some (node sb d i)) d d where
  sane := hs
  inodes := fun _ _ _ => rfl
  image := by rw [← image_of_mem hi, update_eq_self]

variable {s' : FsState} {k off : Nat}

/-- What a call on inode `i` does to the image. -/
lemma Kept.changed (hk : Kept sb (files sb d) i (view sb d) s') (hv : sb.Valid) (hs : Sane sb d)
    (hi : i ∈ files sb d) (haligned : (dinode sb d i).type = tDir → 16 ∣ (s'.mem i).size) :
    Changed sb i (some { node sb d i with
      entries := if (dinode sb d i).type = tDir then entries (s'.contents i) else [] })
      d s'.disk := by
  have hmem : ∀ j ∈ files sb d, dinode sb s'.disk j = s'.mem j := fun j hj => (hk.synced j hj).2
  obtain ⟨size, addrs, hip⟩ := hk.inode
  have hip' : dinode sb s'.disk i = { dinode sb d i with size := size, addrs := addrs } :=
    (hmem i hi).trans hip
  have hfiles : files sb s'.disk = files sb d := by
    ext j
    by_cases hji : j = i
    · subst hji
      rw [mem_files, mem_files, hip']
    by_cases hj : j < sb.ninodes
    · exact mem_files_congr (hk.inodes j hj hji)
    · rw [mem_files, mem_files]
      exact ⟨fun h => absurd h.1 hj, fun h => absurd h.1 hj⟩
  have hcontents : ∀ j ∈ files sb d, (view sb s'.disk).contents j = s'.contents j := by
    intro j hj
    have hview : (view sb s'.disk).mem j = s'.mem j := hmem j hj
    refine contents_congr (by rw [hview]) ?_
    intro o _
    rw [FsState.byte, FsState.byte, hview]
    rfl
  have hrefs : refs (files sb d) (view sb s'.disk) = refs (files sb d) s' := by
    funext q
    obtain ⟨j, pl⟩ := q
    by_cases hj : j ∈ files sb d
    · rw [refs_of_mem hj, refs_of_mem hj]
      simp only [view, hmem j hj]
    · rw [refs_of_notMem hj, refs_of_notMem hj]
  have hsane : Sane sb s'.disk := by
    constructor
    · rw [hfiles]
      refine hk.consistent.congr hv hrefs (fun _ _ => rfl) ?_
      intro j hj
      exact congrArg Inode.size (hmem j hj)
    intro j hj hdir
    rw [hfiles] at hj
    by_cases hji : j = i
    · subst hji
      rw [hip'] at hdir
      rw [hmem j hj]
      exact haligned hdir
    · have hsame := hk.inodes j (mem_files.mp hj).1 hji
      rw [hsame] at hdir ⊢
      exact hs.aligned j hj hdir
  refine ⟨hsane, hk.inodes, ?_⟩
  have hothers : ∀ j ∈ files sb d, j ≠ i →
      (view sb s'.disk).contents j = (view sb d).contents j :=
    fun j hj hji => (hcontents j hj).trans (hk.others j hj hji)
  rw [image_update hk.inodes hothers, image_of_mem (hfiles.symm ▸ hi), node, hcontents i hi, hip']
  rfl

lemma map_range_getD (l : List UInt8) : (List.range l.length).map (fun k => l.getD k 0) = l := by
  apply ext_getElem
  · simp
  · intro k h1 h2
    simp [h2]

/-- An entry is written into a directory, or there is no room for one more. -/
lemma Sane.write {new : List UInt8} (hv : sb.Valid) (hs : Sane sb d)
    (hi : i ∈ files sb d) (hdir : (dinode sb d i).type = tDir)
    (hk : 16 * k ≤ (dinode sb d i).size) (hnew : new.length = 16) :
    ∃ r ip d', writei sb i (dinode sb d i) (fun k => new.getD k 0) (16 * k) new.length d =
        some (r, ip, d') ∧ dinode sb d' i = ip ∧
      ((r = 16 ∧ Changed sb i (some { node sb d i with
          entries := setSlot (node sb d i).entries k (entry new) }) d d') ∨
       (r ≠ 16 ∧ (dinode sb d i).size = 16 * k ∧ Changed sb i (some (node sb d i)) d d')) := by
  have hbounded : (dinode sb d i).size ≤ 268 * 1024 := hs.consistent.bounded i hi
  have haligned := hs.aligned i hi hdir
  have hnode : (node sb d i).entries = entries ((view sb d).contents i) := if_pos hdir
  have hlen : ((view sb d).contents i).length = (dinode sb d i).size := length_contents
  have hsrc : (List.range 16).map (fun k => new.getD k 0) = new := by
    rw [← hnew]
    exact map_range_getD new
  have hoff : 16 * k < 2 ^ 32 := by omega
  have hn : 16 < 2 ^ 32 := by decide
  rw [hnew]
  rcases writei_spec hv hs.consistent view_synced hi hoff hn (fun k => new.getD k 0) with
    ⟨heq, hbad⟩ | ⟨t, ip, d', heq, ht, -, hkept, hcontents, hstop⟩
  · have hbad' : (dinode sb d i).size < 16 * k ∨ 268 * 1024 < 16 * k + 16 := hbad
    exact ⟨-1, dinode sb d i, d, heq, rfl, .inr ⟨by decide, by omega, Changed.refl hs hi⟩⟩
  have hsize : (((view sb d).put i ip d').contents i).length = ip.size := by
    rw [length_contents, put_mem_self]
  refine ⟨t, ip, d', heq, ?_, ?_⟩
  · have hself := (hkept.synced i hi).2
    rwa [put_mem_self] at hself
  by_cases hall : t = 16
  · subst hall
    left
    refine ⟨rfl, ?_⟩
    rw [hsrc] at hcontents
    have hgrown := hkept.changed hv hs hi fun _ => by
      rw [put_mem_self, ← hsize, hcontents, splice, length_append, length_append,
        length_take, length_drop, hlen, hnew]
      omega
    rw [if_pos hdir, hcontents, entries_splice (by omega) hnew, ← hnode] at hgrown
    exact hgrown
  right
  obtain ⟨-, hbeyond, hboundary⟩ := hstop (by omega)
  have hbeyond' : (dinode sb d i).size ≤ 16 * k + t := hbeyond
  have hzero : t = 0 := by omega
  subst hzero
  have hsame : splice ((view sb d).contents i) (16 * k) ((List.range 0).map
      fun k => new.getD k 0) = (view sb d).contents i := by
    simp [splice]
  rw [hsame] at hcontents
  have hkeep := hkept.changed hv hs hi fun _ => by
    rw [put_mem_self, ← hsize, hcontents, hlen]
    exact haligned
  rw [if_pos hdir, hcontents, ← hnode] at hkeep
  exact ⟨by decide, by omega, hkeep⟩

/-- `itrunc` of an inode that is not a directory. -/
lemma Sane.trunc (hv : sb.Valid) (hs : Sane sb d) (hi : i ∈ files sb d)
    (hdir : (dinode sb d i).type ≠ tDir) :
    ∃ ip d', itrunc sb i (dinode sb d i) d = some (ip, d') ∧ dinode sb d' i = ip ∧
      Changed sb i (some (node sb d i)) d d' := by
  obtain ⟨d', heq, hkept, -, -⟩ := itrunc_spec hv hs.consistent view_synced hi
  refine ⟨(dinode sb d i).empty, d', heq, ?_, ?_⟩
  · have hself := (hkept.synced i hi).2
    rwa [put_mem_self] at hself
  have hnode : (node sb d i).entries = [] := if_neg hdir
  have hchanged := hkept.changed hv hs hi fun h => absurd h hdir
  rw [if_neg hdir, ← hnode] at hchanged
  exact hchanged

/-- `itrunc`, and then `ifree`. -/
lemma Sane.free (hv : sb.Valid) (hs : Sane sb d) (hi : i ∈ files sb d) :
    ∃ ip d', itrunc sb i (dinode sb d i) d = some (ip, d') ∧
      Changed sb i none d (ifree sb i d') := by
  have hn := (mem_files.mp hi).1
  obtain ⟨d', heq, hkept, -, -⟩ := itrunc_spec hv hs.consistent view_synced hi
  refine ⟨(dinode sb d i).empty, d', heq, ?_⟩
  have htrunc := hkept.changed hv hs hi fun _ => by
    rw [put_mem_self]
    exact Nat.dvd_zero 16
  rw [put_disk] at htrunc
  have hnot : i ∉ files sb (ifree sb i d') := fun h => (mem_files.mp h).2 type_ifree
  have hsane := inodeOnly_ifree.sane hv hn htrunc.sane fun h => absurd h hnot
  have hfree := inodeOnly_ifree.changed hv hn htrunc.sane hsane
  refine ⟨hsane, fun j hj hji => (hfree.inodes j hj hji).trans (htrunc.inodes j hj hji), ?_⟩
  rw [hfree.image, image_of_notMem hnot, htrunc.image, update_idem]

/-- A directory is read, one entry at a time. -/
lemma Sane.read (hs : Sane sb d) (hi : i ∈ files sb d) (hoff : off ≤ (dinode sb d i).size) :
    readi sb (dinode sb d i) off 16 d =
      some ((((view sb d).contents i).drop off).take 16, dinode sb d i, d) := by
  have hbounded : (dinode sb d i).size ≤ 268 * 1024 := hs.consistent.bounded i hi
  have hread : readi sb ((view sb d).mem i) off 16 (view sb d).disk = _ :=
    readi_spec hs.consistent hi (by decide)
  rw [if_pos (by omega)] at hread
  exact hread

end

end CshellXv6.Fs
