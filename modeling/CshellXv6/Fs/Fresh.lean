import CshellXv6.Fs.Arguments

/-! # The image of mkfs

What the kernel finds in the image that `mkfs` leaves: every file reads back, no block is
shared, and the bitmap marks the blocks in use. The size of the root directory is rounded
up to whole blocks by going to the end of the block and one block further if it is there
already; such a directory has a block less than its size says, and reading it allocates.
-/

namespace CshellXv6.Fs.Mkfs

open Lib List Option

/-- The root inode at the end. -/
def fixed (din : Inode) : Inode := { din with size := (din.size / 1024 + 1) * 1024 }

/-- The image that is left when the root inode and the bitmap have been written. -/
def finished (st : State) : Disk :=
  marked st.freeblock (iupdate sb rootIno (fixed (st.view.mem rootIno)) st.disk)

/-- `mkfs` gets through the files it accepts, and no others. -/
lemma mkfs_spec {files : List Input} (hlen : files.length ≤ 198) :
    (Accepted files ∧ ∃ st, Holds files st ∧ mkfs files = some (finished st)) ∨
    (¬ Accepted files ∧ mkfs files = none) := by
  obtain ⟨st0, heq0, h0⟩ := makeRoot_spec
  have hfiles := addFiles_spec files h0 (by rw [length_nil]; omega)
  rw [nil_append] at hfiles
  rcases hfiles with ⟨⟨hall, hfits⟩, st, heq, h⟩ | ⟨hbad, heq⟩
  · refine .inl ⟨⟨fun f hf => (hall f hf).1, fun f hf => (hall f hf).2, hfits⟩, st, h, ?_⟩
    have hused : st.freeblock < 8192 := Nat.lt_of_le_of_lt h.built.ordered.fits (by decide)
    have hroot : rootIno < 200 := by decide
    simp only [mkfs, heq0, heq, fixRoot, rinode_eq hroot, winode_eq hroot, bind_eq_bind,
      bind_some, balloc, hused, if_true, ← view_mem hroot]
    rfl
  · refine .inr ⟨fun hok => hbad ⟨fun f hf => ⟨hok.passes f hf, hok.sizes f hf⟩, hok.fits⟩, ?_⟩
    simp only [mkfs, heq0, heq, bind_eq_bind, bind_some, bind_none]

variable {k : Fin 13} {ip : Inode} {d : Disk} {b : Nat}

section

variable {files : List Input} {st : State} {j x bn : Nat}

lemma Holds.size (h : Holds files st) : (st.view.mem rootIno).size = 16 * (files.length + 2) := by
  rw [← length_contents, h.root, length_listing]

/-- The inodes of the image. -/
lemma dinode_finished_root (h : Holds files st) (hlen : files.length ≤ 198) :
    dinode sb (finished st) rootIno = fixed (st.view.mem rootIno) := by
  have hroot : rootIno < 200 := by decide
  have hsize := h.size
  have hold : (st.view.mem rootIno).Fits := by
    rw [view_mem hroot]
    exact dinode_fits
  have hfits : (fixed (st.view.mem rootIno)).Fits := by
    constructor
    · exact hold.type
    · exact hold.major
    · exact hold.minor
    · exact hold.nlink
    · simp only [fixed]
      omega
    · exact hold.addrs
  rw [finished, dinode_marked hroot, dinode_iupdate_self hfits]

lemma dinode_finished (hj : j < 200) (hne : j ≠ rootIno) :
    dinode sb (finished st) j = st.view.mem j := by
  rw [finished, dinode_marked hj, dinode_iupdate_of_ne hne, view_mem hj]

lemma finished_of_le (hx : 46 ≤ x) : finished st x = st.view.disk x := by
  have hroot : rootIno < 200 := by decide
  have := iblock_bounds hroot
  rw [finished, marked_iupdate hroot]
  exact iupdate_of_ne (by omega)

lemma refs_finished (h : Holds files st) (hlen : files.length ≤ 198) :
    refs inodes (view sb (finished st)) = refs inodes st.view := by
  refine h.built.consistent.refs_eq ?_ fun x => finished_of_le
  intro j hj pl
  have hmem : (view sb (finished st)).mem j = dinode sb (finished st) j := rfl
  by_cases hroot : j = rootIno
  · rw [hmem, hroot, dinode_finished_root h hlen]
    rfl
  · rw [hmem, dinode_finished (mem_inodes.mp hj) hroot]

/-- The kernel finds the superblock. -/
lemma readsb_finished (h : Holds files st) : readsb (finished st) = some sb := by
  have hroot : rootIno < 200 := by decide
  have hblock := iblock_bounds hroot
  have hsame : finished st 1 = superblockBuf := by
    rw [finished, marked_of_ne (by decide), iupdate_of_ne (by omega), h.superblock]
  rw [readsb, hsame]
  rfl

/-- What the kernel finds in the image of `files`. -/
structure Readable (files : List Input) (d : Disk) : Prop where
  superblock : readsb d = some sb
  rootType : (dinode sb d rootIno).type = tDir
  types : ∀ k, k < files.length → (dinode sb d (k + 2)).type = tFile
  /-- `readi` returns the bytes of the file, and allocates nothing. -/
  bytes : ∀ k (hk : k < files.length) (off n : Nat), off + n < 2 ^ 32 →
    readi sb (dinode sb d (k + 2)) off n d =
      some ((files[k].bytes.drop off).take n, dinode sb d (k + 2), d)
  /-- The root directory has an entry for each file. -/
  listed : readi sb (dinode sb d rootIno) 0 (16 * (files.length + 2)) d =
    some (listing files, dinode sb d rootIno, d)
  /-- Each block of an inode, up to its size, is there and marked. -/
  mapped : ∀ i, i < sb.ninodes → ∀ bn, bn < ((dinode sb d i).size + 1023) / 1024 →
    ∃ x, bmap sb (dinode sb d i) bn d = some (x, dinode sb d i, d) ∧ x ≠ 0 ∧ bit sb d x = true
  /-- No block is shared, neither by two places nor with what is before the data. -/
  exclusive : Exclusive (refs inodes (view sb d))
  region : ∀ q, refs inodes (view sb d) q ≠ 0 →
    sb.dataStart ≤ refs inodes (view sb d) q ∧ refs inodes (view sb d) q < sb.size
  /-- The bitmap marks the blocks in use. -/
  bitmap : ∀ x, x < 8192 →
    (bit sb d x = true ↔ x < sb.dataStart ∨ ∃ q, refs inodes (view sb d) q = x)

/-- The rounded size asks for no more blocks than there are. -/
lemma Holds.filled_root (h : Holds files st) (hpart : (files.length + 2) % 64 ≠ 0)
    (hbn : bn * 1024 < (fixed (st.view.mem rootIno)).size) :
    refs inodes st.view (rootIno, .data bn) ≠ 0 := by
  have hsize := h.size
  refine h.built.consistent.filled rootIno (by decide) bn ?_
  simp only [fixed] at hbn
  omega

lemma Holds.consistent (h : Holds files st) (hlen : files.length ≤ 198)
    (hpart : (files.length + 2) % 64 ≠ 0) :
    Consistent sb inodes (view sb (finished st)) ∧
      (∀ o, o < (fixed (st.view.mem rootIno)).size →
        (view sb (finished st)).byte rootIno o = st.view.byte rootIno o) ∧
      ∀ j ∈ inodes, j ≠ rootIno →
        (view sb (finished st)).contents j = st.view.contents j := by
  have hroot : rootIno < 200 := by decide
  have hsize := h.size
  have hmem : (view sb (finished st)).mem rootIno = fixed (st.view.mem rootIno) :=
    dinode_finished_root h hlen
  refine h.built.consistent.update sb_valid (mem_inodes.mpr hroot) hroot ?_ hmem ?_
    (fun bn => h.filled_root hpart) ?_
  · intro j hj hne
    exact dinode_finished (mem_inodes.mp hj) hne
  · rw [hmem]
    exact marked_iupdate hroot
  · simp only [fixed]
    omega

lemma Holds.readable (h : Holds files st) (hlen : files.length ≤ 198)
    (hpart : (files.length + 2) % 64 ≠ 0) : Readable files (finished st) := by
  obtain ⟨hcons, hbyte, hcontents⟩ := h.consistent hlen hpart
  have hrefs := refs_finished h hlen
  have hordered : Ordered (view sb (finished st)) st.freeblock :=
    h.built.ordered.congr hrefs fun x => finished_of_le
  have hfile : ∀ k, k < files.length → k + 2 < 200 ∧ k + 2 ≠ rootIno := by
    intro k hk
    rw [rootIno_eq]
    omega
  constructor
  · exact readsb_finished h
  · rw [dinode_finished_root h hlen]
    exact h.rootType
  · intro k hk
    rw [dinode_finished (hfile k hk).1 (hfile k hk).2]
    exact h.types k hk
  · intro k hk off n hoff
    have hin := mem_inodes.mpr (hfile k hk).1
    have hread : readi sb _ off n _ = _ := readi_spec hcons hin (by omega)
    rw [if_pos hoff, hcontents _ hin (hfile k hk).2, h.contents k hk] at hread
    exact hread
  · have hin : rootIno ∈ inodes := by decide
    have hread : readi sb _ 0 (16 * (files.length + 2)) _ = _ :=
      readi_spec hcons hin (by omega)
    have hmem : (view sb (finished st)).mem rootIno = fixed (st.view.mem rootIno) :=
      dinode_finished_root h hlen
    have hsize := h.size
    -- the entries are the first part of the rounded directory
    have hfirst : ((view sb (finished st)).contents rootIno).take (16 * (files.length + 2)) =
        listing files := by
      have hle : 16 * (files.length + 2) ≤ (fixed (st.view.mem rootIno)).size := by
        simp only [fixed]
        omega
      rw [← h.root, FsState.contents, FsState.contents, hmem, ← map_take, take_range,
        Nat.min_eq_left hle, hsize]
      refine map_congr_left ?_
      intro o ho
      exact hbyte o (Nat.lt_of_lt_of_le (mem_range.mp ho) hle)
    rw [if_pos (by omega), drop_zero, hfirst] at hread
    exact hread
  · intro i hi bn hbn
    have hin := mem_inodes.mpr hi
    have hne := hcons.filled i hin bn (by change bn * 1024 < (dinode sb _ i).size; omega)
    have hmarked := (hcons.used _ hne).2.2
    rw [refs_of_mem hin] at hne hmarked
    exact ⟨_, bmap_of_ne_zero hne, hne, hmarked⟩
  · exact hcons.exclusive
  · intro q hq
    obtain ⟨hstart, hend, -⟩ := hcons.used q hq
    exact ⟨hstart, hend⟩
  · intro x hx
    have hbit : bit sb (finished st) x = decide (x < st.freeblock) := hordered.bits x hx
    rw [hbit, decide_eq_true_iff, sb_dataStart]
    constructor
    · intro hlt
      by_cases hdata : x < 47
      · exact .inl hdata
      · exact .inr (hordered.covered x (by omega) hlt)
    intro hused
    have hstart := hordered.start
    rcases hused with hmeta | ⟨q, rfl⟩
    · omega
    by_cases hq : refs inodes (view sb (finished st)) q = 0
    · omega
    · exact (hordered.lt hcons hq).2

/-- `bmap` finds a direct block without changing anything only if it is there. -/
lemma addrs_of_bmapAddr {sb : Superblock}
    (h : bmapAddr sb ip k d = (x, ip, d)) (hx : x ≠ 0) : ip.addrs k ≠ 0 := by
  intro hk
  rw [bmapAddr, if_pos hk] at h
  generalize Fs.balloc sb d = r at h
  obtain ⟨addr, d'⟩ := r
  dsimp only at h
  split at h
  · cases h
    exact hx rfl
  simp only [Prod.mk.injEq] at h
  have hself := congrArg (fun ip : Inode => ip.addrs k) h.2.1
  simp only [Inode.setAddr, Function.update_self, hk] at hself
  rw [hself] at h
  exact hx h.1.symm

/-- A directory that ends with a whole block is given the size of one more, which it has
not got. -/
lemma Holds.root_unmapped (h : Holds files st) (hlen : files.length ≤ 198)
    (hfull : (files.length + 2) % 64 = 0) (hk : k.val = (files.length + 2) / 64) :
    (dinode sb (finished st) rootIno).size = (k.val + 1) * 1024 ∧
      (dinode sb (finished st) rootIno).addrs k = 0 := by
  have hroot : rootIno < 200 := by decide
  have hsize := h.size
  rw [dinode_finished_root h hlen]
  constructor
  · simp only [fixed]
    omega
  by_contra hne
  have hdirect : k.val < 12 := by omega
  have hplace : refs inodes st.view (rootIno, .data k.val) ≠ 0 := by
    rw [← Place.ofAddr_of_lt hdirect, refs_of_mem (mem_inodes.mpr hroot), Inode.ref_ofAddr]
    exact hne
  have hend := h.built.data rootIno (mem_inodes.mpr hroot) k.val hplace
  omega

lemma Holds.not_readable (h : Holds files st) (hlen : files.length ≤ 198)
    (hfull : (files.length + 2) % 64 = 0) : ¬ Readable files (finished st) := by
  intro hread
  have hdirect : (files.length + 2) / 64 < 12 := by omega
  obtain ⟨hsize, hempty⟩ :=
    h.root_unmapped (k := ⟨(files.length + 2) / 64, by omega⟩) hlen hfull rfl
  obtain ⟨x, heq, hx, -⟩ :=
    hread.mapped rootIno (by decide) ((files.length + 2) / 64) (by
      rw [hsize]
      dsimp only
      omega)
  rw [bmap, dif_pos hdirect, Option.some.injEq] at heq
  exact addrs_of_bmapAddr heq hx hempty

/-- The kernel reads what `mkfs` has written, if and only if the root directory does not end
with a whole block. -/
theorem mkfs_readable_iff (hlen : files.length ≤ 198) (hok : Accepted files) :
    ∃ d, mkfs files = some d ∧ (Readable files d ↔ (files.length + 2) % 64 ≠ 0) := by
  rcases mkfs_spec hlen with ⟨-, st, h, heq⟩ | ⟨hbad, -⟩
  · refine ⟨_, heq, ?_, h.readable hlen⟩
    intro hread hfull
    exact h.not_readable hlen hfull hread
  · exact absurd hok hbad

end

/-! ## Two images -/

/-- `user/_cat`, which is read in two parts. -/
def cat : Input where
  path := [117, 115, 101, 114, 47, 95, 99, 97, 116]
  reads := some [[35, 33], [10]]
  string := by decide
  chunks := by decide

lemma cat_accepted : Accepted [cat] := by
  constructor
  · intro f hf
    rw [mem_singleton.mp hf]
    exact ⟨by decide, by decide, by decide⟩
  · intro f hf
    rw [mem_singleton.mp hf]
    decide
  · decide

theorem mkfs_readable_cat : ∃ d, mkfs [cat] = some d ∧ Readable [cat] d := by
  obtain ⟨d, heq, hiff⟩ := mkfs_readable_iff (by decide) cat_accepted
  exact ⟨d, heq, hiff.mpr (by decide)⟩

/-- An empty file with a name of one byte. -/
def oneByte (k : Fin 62) : Input where
  path := [UInt8.ofNat (97 + k.val)]
  reads := some []
  string := by decide +revert
  chunks := by simp

def sixtyTwo : List Input := (List.finRange 62).map oneByte

lemma oneByte_passes (k : Fin 62) : (oneByte k).Passes :=
  ⟨by decide +revert, rfl, by decide +revert⟩

lemma sixtyTwo_accepted : Accepted sixtyTwo := by
  constructor
  · intro f hf
    obtain ⟨k, -, rfl⟩ := List.mem_map.mp hf
    exact oneByte_passes k
  · intro f hf
    obtain ⟨k, -, rfl⟩ := List.mem_map.mp hf
    exact Nat.zero_le _
  · decide

/-- Reading a direct block that is not there takes a block. -/
lemma readi_unmapped {sb : Superblock}
    (hk : k.val < 12) (hsize : ip.size = (k.val + 1) * 1024) (hempty : ip.addrs k = 0)
    (hfree : b < sb.size ∧ bit sb d b = false) (hboot : bit sb d 0 = true) :
    ∃ addr d', addr ≠ 0 ∧
      ∃ data, readi sb ip (k.val * 1024) 16 d = some (data, ip.setAddr k addr, d') := by
  rcases @balloc_spec sb d with ⟨addr, -, hbit, heq⟩ | ⟨-, hall⟩
  · have hne : addr ≠ 0 := by
      rintro rfl
      rw [hbit] at hboot
      cases hboot
    have hdiv : k.val * 1024 / 1024 = k.val := Nat.mul_div_cancel _ (by decide)
    have hmap : bmap sb ip k.val d =
        some (addr, ip.setAddr k addr, bzero (setBit sb d addr) addr) := by
      rw [bmap, dif_pos hk, bmapAddr, if_pos hempty, heq]
      simp only [hne, if_false]
    refine ⟨addr, bzero (setBit sb d addr) addr, hne, ?_⟩
    have hmod : (k.val * 1024 + 16) % 2 ^ 32 = k.val * 1024 + 16 := Nat.mod_eq_of_lt (by omega)
    rw [readi, hmod, if_neg (by omega), if_neg (by omega), readLoop, if_pos (by decide), hdiv, hmap]
    simp only [bind_some, hne, if_false]
    rw [readLoop, if_neg (by omega)]
    exact ⟨_, rfl⟩
  · rw [hall b hfree.1] at hfree
    cases hfree.2

/-- With 62 files, the root directory fills its block, and its size says that it has two.
A read of the second block takes one. -/
theorem read_of_root_allocates : sixtyTwo.length ≤ 198 ∧ (sixtyTwo.map Input.name).Nodup ∧
    Accepted sixtyTwo ∧ ∃ d, mkfs sixtyTwo = some d ∧ ¬ Readable sixtyTwo d ∧
      (dinode sb d rootIno).size = 2048 ∧ (dinode sb d rootIno).block d 1 = 0 ∧
      ∃ data ip d', readi sb (dinode sb d rootIno) 1024 16 d = some (data, ip, d') ∧
        ip ≠ dinode sb d rootIno := by
  refine ⟨by decide, by decide, sixtyTwo_accepted, ?_⟩
  rcases mkfs_spec (by decide : sixtyTwo.length ≤ 198) with ⟨-, st, h, heq⟩ | ⟨hbad, -⟩
  · obtain ⟨hsize, hempty⟩ := h.root_unmapped (k := 1) (by decide) (by decide) (by decide)
    have hused : st.freeblock = 48 := h.count
    have hbit : ∀ x, x < 8192 → bit sb (finished st) x = decide (x < st.freeblock) :=
      fun x hx => (h.built.ordered.congr (refs_finished h (by decide))
        fun x => finished_of_le).bits x hx
    refine ⟨_, heq, h.not_readable (by decide) (by decide), hsize, hempty, ?_⟩
    have hfree : 48 < sb.size ∧ bit sb (finished st) 48 = false := by
      rw [hbit 48 (by decide), hused]
      decide
    have hboot : bit sb (finished st) 0 = true := by
      rw [hbit 0 (by decide), hused]
      decide
    obtain ⟨addr, d', hne, data, hread⟩ :=
      readi_unmapped (by decide) hsize hempty hfree hboot
    refine ⟨data, _, d', hread, fun hsame => hne ?_⟩
    have hself := congrArg (fun ip : Inode => ip.addrs 1) hsame
    simp only [Inode.setAddr, Function.update_self, hempty] at hself
    exact hself
  · exact absurd sixtyTwo_accepted hbad

end CshellXv6.Fs.Mkfs
