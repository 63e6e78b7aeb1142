import CshellXv6.Fs.Mkfs

/-! # Blocks in order

`mkfs` gives out blocks in order: those below `freeblock` are in use, those behind it
are zero (`Ordered`). If the bitmap were written at any time, the disk would be
consistent, and `freeblock++` is on that disk what `balloc` of the kernel is; so what is
known of the places where `bmap` puts a new block is used here.
-/

namespace CshellXv6.Fs.Mkfs

open Lib Function

@[simp] lemma sb_size : sb.size = 2000 := rfl

@[simp] lemma sb_bmapstart : sb.bmapstart = 46 := rfl

@[simp] lemma sb_dataStart : sb.dataStart = 47 := rfl

lemma sb_valid : sb.Valid := by
  constructor <;> decide

/-- All inodes. -/
def inodes : Finset Nat := Finset.range 200

variable {i : Nat}

@[simp] lemma mem_inodes : i ∈ inodes ↔ i < 200 := Finset.mem_range

section

variable {d : Disk} {x i u v : Nat} {ip : Inode}

lemma rsect_of_lt (h : x < 2000) : rsect d x = some (d x) := if_pos h

lemma rsect_of_le (h : 2000 ≤ x) : rsect d x = none := if_neg (Nat.not_lt.mpr h)

/-- The blocks of inodes are on the disk. -/
lemma iblock_bounds (hi : i < 200) : 33 ≤ iblock sb i ∧ iblock sb i < 46 := by
  have := iblock_lt sb_valid hi
  rw [sb_bmapstart] at this
  exact ⟨Nat.le_add_left _ _, this⟩

lemma rinode_eq (hi : i < 200) : rinode i d = some (dinode sb d i) := by
  have := iblock_bounds hi
  rw [rinode, rsect_of_lt (by omega)]
  rfl

lemma winode_eq (hi : i < 200) : winode i ip d = some (iupdate sb i ip d) := by
  have := iblock_bounds hi
  rw [winode, rsect_of_lt (by omega)]
  rfl

/-! ## The bitmap -/

/-- The disk with the bitmap that `balloc` writes. -/
def marked (used : Nat) (d : Disk) : Disk := wsect d sb.bmapstart (bitmap used)

lemma marked_eq : marked u d = update d 46 (bitmap u) := rfl

lemma marked_of_ne (h : x ≠ 46) : marked u d x = d x := update_of_ne h _ _

@[simp] lemma marked_marked : marked u (marked v d) = marked u d :=
  update_idem ..

lemma marked_update (h : x ≠ 46) (blk : Block) :
    marked u (update d x blk) = update (marked u d) x blk := by
  rw [marked_eq, marked_eq, update_comm h]

lemma marked_iupdate (hi : i < 200) :
    marked u (iupdate sb i ip d) = iupdate sb i ip (marked u d) := by
  have hblock := iblock_bounds hi
  have hne : iblock sb i ≠ 46 := by omega
  rw [iupdate, marked_update hne, iupdate, marked_of_ne hne]

lemma dinode_marked (hi : i < 200) : dinode sb (marked u d) i = dinode sb d i := by
  have hblock := iblock_bounds hi
  exact dinode_congr (marked_of_ne (by omega))

lemma bitmap_succ : bitmap (u + 1) =
    (bitmap u).put (u / 8) (fun _ => (bitmap u).get (u / 8) ||| mask (u % 8)) 1 := by
  simp [bitmap, List.range_succ]

/-- One more block is marked as `bmap` would do it. -/
lemma marked_succ (hu : u < 8192) : marked (u + 1) d = setBit sb (marked u d) u := by
  have hblock : bblock sb u = 46 := by
    simp [bblock]
    omega
  have hsame : marked u d 46 = bitmap u := by rw [marked_eq, update_self]
  rw [setBit, setByte, hblock, hsame, Nat.mod_eq_of_lt hu, ← bitmap_succ]
  exact (update_idem ..).symm

lemma bit_marked (hu : u ≤ 8192) (hx : x < 8192) : bit sb (marked u d) x = decide (x < u) := by
  induction u with
  | zero =>
    have hblock : bblock sb x = 46 := by
      simp [bblock]
      omega
    have hzero : marked 0 d 46 = Bytes.zero := by
      rw [marked_eq, update_self]
      rfl
    rw [bit, hblock, hzero, Bytes.get_zero]
    simp [hasBit]
  | succ u ih =>
    rw [marked_succ hu, bit_setBit, ih (by omega)]
    simp only [← Bool.decide_or, decide_eq_decide]
    omega

end

/-! ## Blocks in order -/

/-- The first `used` blocks are in use, and the others are zero. -/
structure Ordered (s : FsState) (used : Nat) : Prop where
  start : 47 ≤ used
  fits : used ≤ 2000
  bits : ∀ x, x < 8192 → bit sb s.disk x = decide (x < used)
  covered : ∀ x, 47 ≤ x → x < used → ∃ q, refs inodes s q = x
  zero : ∀ x, used ≤ x → x < 2000 → s.disk x = Bytes.zero

section

variable {s s' : FsState} {used i x bn used' : Nat} {pl : Place} {q : Nat × Place}

lemma Ordered.lt (ho : Ordered s used) (h : Consistent sb inodes s)
    (hq : refs inodes s q ≠ 0) : 47 ≤ refs inodes s q ∧ refs inodes s q < used := by
  obtain ⟨hstart, hend, hbit⟩ := h.used q hq
  rw [sb_size] at hend
  rw [ho.bits _ (by omega)] at hbit
  exact ⟨hstart, of_decide_eq_true hbit⟩

/-- `freeblock++` takes a block that is free. -/
lemma Ordered.allocated (ho : Ordered s used) (h : Consistent sb inodes s)
    (hlt : used < 2000) : Allocated sb inodes s used (marked (used + 1) s.disk) := by
  constructor
  · exact ⟨ho.start, hlt⟩
  · intro q hq
    have := ho.start
    have := ho.lt h (by omega : refs inodes s q ≠ 0)
    omega
  · intro c hc
    rw [sb_size] at hc
    rw [bit_marked (by omega) (by omega), ho.bits c (by omega), ← Bool.decide_or, decide_eq_decide]
    omega
  · have := ho.start
    rw [marked_of_ne (by omega)]
    exact ho.zero used (Nat.le_refl _) hlt
  · intro x _ hregion
    rw [sb_bmapstart, sb_dataStart] at hregion
    exact marked_of_ne (by omega)

/-- The next block is in use now. -/
lemma Ordered.next (ho : Ordered s used) (hlt : used < 2000)
    (hempty : refs inodes s q = 0) (hrefs : refs inodes s' = update (refs inodes s) q used)
    (hbits : ∀ x, x < 8192 → bit sb s'.disk x = decide (x < used + 1))
    (hsame : ∀ x, used < x → x < 2000 → s'.disk x = s.disk x) : Ordered s' (used + 1) := by
  constructor
  · exact Nat.le_succ_of_le ho.start
  · exact hlt
  · exact hbits
  · intro x hx hxu
    rw [hrefs]
    by_cases hlast : x = used
    · exact ⟨q, by rw [update_self, hlast]⟩
    obtain ⟨r, hr⟩ := ho.covered x hx (by omega)
    refine ⟨r, ?_⟩
    rw [update_of_ne, hr]
    rintro rfl
    omega
  · intro x hx hend
    rw [hsame x hx hend]
    exact ho.zero x (by omega) hend

/-- A block in use gets new contents. -/
lemma Ordered.poke (ho : Ordered s used) (h : Consistent sb inodes s)
    (hne : refs inodes s (i, .data bn) ≠ 0) (blk : Block) :
    Ordered (s.poke (refs inodes s (i, .data bn)) blk) used := by
  have hlt := ho.lt h hne
  constructor
  · exact ho.start
  · exact ho.fits
  · intro x hx
    rw [← ho.bits x hx]
    refine bit_congr (update_of_ne ?_ _ _)
    simp only [bblock, sb_bmapstart]
    omega
  · intro x hx hxu
    rw [refs_poke h hne]
    exact ho.covered x hx hxu
  · intro x hx hend
    rw [poke_disk, update_of_ne (by omega)]
    exact ho.zero x hx hend

/-! ## `freeblock++` -/

/-- Place `pl` of inode `i` has the address `x`, perhaps since now. -/
structure Provided (i : Nat) (pl : Place) (s s' : FsState) (used used' x : Nat) : Prop where
  mapped : Mapped sb inodes i s s' pl x
  others : ∀ pl', pl' ≠ pl → refs inodes s' (i, pl') = refs inodes s (i, pl')
  ordered : Ordered s' used'
  count : used' = used + if refs inodes s (i, pl) = 0 then 1 else 0
  ne_zero : x ≠ 0

lemma Provided.ref (h : Provided i pl s s' used used' x) :
    refs inodes s' (i, pl) = x := h.mapped.found h.ne_zero

lemma Provided.lt (h : Provided i pl s s' used used' x) : 47 ≤ x ∧ x < 2000 := by
  have hlt := h.ordered.lt h.mapped.touches.consistent (h.ref.symm ▸ h.ne_zero)
  rw [h.ref] at hlt
  have := h.ordered.fits
  omega

/-- The place has an address. -/
lemma Provided.found (h : Consistent sb inodes s) (ho : Ordered s used)
    (hx : refs inodes s (i, pl) = x) (hne : x ≠ 0) : Provided i pl s s used used x := by
  refine ⟨Mapped.refl h hx hne, fun _ _ => rfl, ho, ?_, hne⟩
  rw [hx, if_neg hne, Nat.add_zero]

/-- The place gets the next block. -/
lemma Provided.taken (ho : Ordered s used) (hlt : used < 2000)
    (hempty : refs inodes s (i, pl) = 0) (hmapped : Mapped sb inodes i s s' pl used)
    (hrefs : refs inodes s' = update (refs inodes s) (i, pl) used)
    (hbits : ∀ x, x < 8192 → bit sb s'.disk x = decide (x < used + 1))
    (hsame : ∀ x, used < x → x < 2000 → s'.disk x = s.disk x) :
    Provided i pl s s' used (used + 1) used := by
  constructor
  · exact hmapped
  · intro pl' hpl
    rw [hrefs, update_of_ne (by simp [hpl])]
  · exact ho.next hlt hempty hrefs hbits hsame
  · rw [hempty, if_pos rfl]
  · have := ho.start
    omega

variable {st st' st1 : State} {k : Fin 13} {n fbn y : Nat} {din din' : Inode}

/-- The result of an allocation, or of finding a block, after which the inode in memory
is `din`. -/
def Provides (i : Nat) (pl : Place) (s : FsState) (st : State) (x : Nat) (din : Inode)
    (st' : State) : Prop :=
  Provided i pl s (s.put i din (marked st'.freeblock st'.disk)) st.freeblock st'.freeblock x ∧
    st'.freeinode = st.freeinode

lemma Provides.found (h : Consistent sb inodes s) (ho : Ordered s st.freeblock)
    (hdisk : s.disk = marked st.freeblock st.disk) (hx : refs inodes s (i, pl) = x) (hne : x ≠ 0) :
    Provides i pl s st x (s.mem i) st := by
  refine ⟨?_, rfl⟩
  rw [← hdisk, put_self]
  exact Provided.found h ho hx hne

lemma takeAddr_spec (h : Consistent sb inodes s) (ho : Ordered s st.freeblock)
    (hdisk : s.disk = marked st.freeblock st.disk) (hi : i ∈ inodes) :
    ∃ din' st', takeAddr (s.mem i) k st = (din', st') ∧
      (Provides i (.ofAddr k) s st (din'.addrs k) din' st' ∨
        (refs inodes s (i, .ofAddr k) = 0 ∧ st.freeblock = 2000 ∧ din'.addrs k = 2000)) := by
  have hplace : refs inodes s (i, .ofAddr k) = (s.mem i).addrs k := by
    rw [refs_of_mem hi, Inode.ref_ofAddr]
  have hstart := ho.start
  by_cases hk : (s.mem i).addrs k = 0
  · refine ⟨_, _, if_pos hk, ?_⟩
    have hself : ((s.mem i).setAddr k st.freeblock).addrs k = st.freeblock :=
      update_self ..
    rw [hself]
    by_cases hlt : st.freeblock < 2000
    · left
      have ha := ho.allocated h hlt
      have heq : marked (st.freeblock + 1) st.disk = marked (st.freeblock + 1) s.disk := by
        rw [hdisk, marked_marked]
      refine ⟨?_, rfl⟩
      dsimp only
      rw [heq]
      refine Provided.taken ho hlt (hplace.trans hk) (ha.setAddr sb_valid h hi hk)
        (refs_setAddr h ha hi hk) ?_ ?_
      · intro x hx
        exact bit_marked (by omega) hx
      · intro x hx _
        exact marked_of_ne (by omega)
    · have := ho.fits
      exact .inr ⟨hplace.trans hk, by omega, by omega⟩
  · exact ⟨_, _, if_neg hk, .inl (Provides.found h ho hdisk hplace hk)⟩

lemma takeEntry_spec (h : Consistent sb inodes s) (ho : Ordered s st.freeblock)
    (hdisk : s.disk = marked st.freeblock st.disk) (hi : i ∈ inodes) (hn : n < 256)
    (hind : (s.mem i).addrs 12 ≠ 0) :
    ∃ blk st', takeEntry (st.disk ((s.mem i).addrs 12)) ((s.mem i).addrs 12) n st = (blk, st') ∧
      (Provides i (.data (12 + n)) s st (word blk n) (s.mem i) st' ∨
        (refs inodes s (i, .data (12 + n)) = 0 ∧ st.freeblock = 2000 ∧ word blk n = 2000)) := by
  have hstart := ho.start
  have hfits := ho.fits
  have hind' : refs inodes s (i, .indirect) = (s.mem i).addrs 12 := refs_of_mem hi _
  have hbounds := ho.lt h (hind'.symm ▸ hind)
  rw [hind'] at hbounds
  have hsame : s.disk ((s.mem i).addrs 12) = st.disk ((s.mem i).addrs 12) := by
    rw [hdisk]
    exact marked_of_ne (by omega)
  have hplace : refs inodes s (i, .data (12 + n)) = word (st.disk ((s.mem i).addrs 12)) n := by
    rw [refs_of_mem hi, Inode.ref, Inode.block_indirect hn hind, hsame]
  by_cases hk : word (st.disk ((s.mem i).addrs 12)) n = 0
  · refine ⟨_, _, if_pos hk, ?_⟩
    rw [word_setWord_self _ _ hn, Nat.mod_eq_of_lt (by omega)]
    by_cases hlt : st.freeblock < 2000
    · left
      have ha := ho.allocated h hlt
      have heq : marked (st.freeblock + 1) (wsect st.disk ((s.mem i).addrs 12)
            (setWord (st.disk ((s.mem i).addrs 12)) n st.freeblock)) =
          update (marked (st.freeblock + 1) s.disk) ((s.mem i).addrs 12)
            (setWord (marked (st.freeblock + 1) s.disk ((s.mem i).addrs 12)) n
              st.freeblock) := by
        rw [marked_of_ne (by omega), hsame, hdisk, marked_marked, wsect, marked_update (by omega)]
      refine ⟨?_, rfl⟩
      dsimp only
      rw [heq]
      refine Provided.taken ho hlt (hplace.trans hk)
        (ha.setEntry sb_valid h hi hn hind (hsame ▸ hk))
        (refs_setEntry sb_valid h ha hi hn hind) ?_ ?_
      · intro x hx
        rw [← bit_marked (d := s.disk) (by omega) hx]
        refine bit_congr (update_of_ne ?_ _ _)
        simp only [bblock, sb_bmapstart]
        omega
      · intro x hx _
        rw [put_disk, update_of_ne (by omega), marked_of_ne (by omega)]
    · exact .inr ⟨hplace.trans hk, by omega, by omega⟩
  · exact ⟨_, _, if_neg hk, .inl (Provides.found h ho hdisk hplace hk)⟩

/-- The blocks that `iappend` has to take for block `fbn` of file `i`. -/
def missing (s : FsState) (i fbn : Nat) : Nat :=
  (if refs inodes s (i, .data fbn) = 0 then 1 else 0) +
    if 12 ≤ fbn ∧ refs inodes s (i, .indirect) = 0 then 1 else 0

/-- Block `fbn` of file `i` is at `x`, perhaps since now. -/
structure Placed (i fbn : Nat) (s s' : FsState) (st st' : State) (x : Nat) : Prop where
  mapped : Mapped sb inodes i s s' (.data fbn) x
  data : ∀ bn, bn ≠ fbn → refs inodes s' (i, .data bn) = refs inodes s (i, .data bn)
  indirect : fbn < 12 → refs inodes s' (i, .indirect) = refs inodes s (i, .indirect)
  ordered : Ordered s' st'.freeblock
  count : st'.freeblock = st.freeblock + missing s i fbn
  ne_zero : x ≠ 0
  freeinode : st'.freeinode = st.freeinode

/-- The address is in the inode. -/
lemma Provides.placed (hbn : fbn < 12) (h : Provides i (.data fbn) s st x din st') :
    Placed i fbn s (s.put i din (marked st'.freeblock st'.disk)) st st' x := by
  obtain ⟨hp, hinum⟩ := h
  constructor
  · exact hp.mapped
  · intro bn hne
    exact hp.others _ (by simp [hne])
  · intro _
    exact hp.others _ (by simp)
  · exact hp.ordered
  · rw [hp.count, missing, if_neg (by omega : ¬ (12 ≤ fbn ∧ _)), Nat.add_zero]
  · exact hp.ne_zero
  · exact hinum

/-- The address is in the indirect block, which is looked for first. -/
lemma Provides.placed_indirect (h : Provides i .indirect s st y din st1)
    (h' : Provides i (.data (12 + n)) (s.put i din (marked st1.freeblock st1.disk)) st1 x din' st')
    : Placed i (12 + n) s (s.put i din' (marked st'.freeblock st'.disk)) st st' x := by
  obtain ⟨hp, hinum⟩ := h
  obtain ⟨hp', hinum'⟩ := h'
  rw [put_put] at hp'
  have hdata : ∀ bn, refs inodes (s.put i din (marked st1.freeblock st1.disk)) (i, .data bn) =
      refs inodes s (i, .data bn) := fun bn => hp.others _ (by simp)
  constructor
  · exact hp.mapped.trans hp'.mapped
  · intro bn hne
    rw [hp'.others _ (by simp [hne]), hdata]
  · intro hbn
    omega
  · exact hp'.ordered
  · rw [hp'.count, hdata, hp.count, missing]
    simp only [Nat.le_add_right, true_and]
    omega
  · exact hp'.ne_zero
  · rw [hinum', hinum]

lemma findBlock_spec (h : Consistent sb inodes s) (ho : Ordered s st.freeblock)
    (hdisk : s.disk = marked st.freeblock st.disk) (hi : i ∈ inodes) (hbn : fbn < 268) :
    (∃ x din' st', findBlock (s.mem i) fbn st = some (x, din', st') ∧
      Placed i fbn s (s.put i din' (marked st'.freeblock st'.disk)) st st' x) ∨
    (2000 < st.freeblock + missing s i fbn ∧
      ∀ r, findBlock (s.mem i) fbn st = some r → 2000 ≤ r.1) := by
  by_cases hdirect : fbn < 12
  · obtain ⟨din', st', heq, hp⟩ :=
      takeAddr_spec (k := ⟨fbn, by omega⟩) h ho hdisk hi
    rw [Place.ofAddr_of_lt hdirect] at hp
    rw [findBlock, dif_pos hdirect, heq]
    dsimp only
    rcases hp with hp | ⟨hempty, hfull, hx⟩
    · exact .inl ⟨_, din', st', rfl, hp.placed hdirect⟩
    right
    rw [missing, if_pos hempty, hfull]
    refine ⟨by omega, ?_⟩
    rintro r ⟨⟩
    exact Nat.le_of_eq hx.symm
  obtain ⟨n, rfl⟩ : ∃ n, fbn = 12 + n := ⟨fbn - 12, by omega⟩
  obtain ⟨din1, st1, heq, hp⟩ := takeAddr_spec (k := 12) h ho hdisk hi
  rw [findBlock, dif_neg hdirect, heq]
  simp only [Nat.add_sub_cancel_left]
  rcases hp with hp | ⟨hempty, hfull, hx⟩
  · have hlt := hp.1.lt
    rw [rsect_of_lt hlt.2, Option.map_some]
    -- the entry is looked up in a disk that is consistent again
    have hmem : (s.put i din1 (marked st1.freeblock st1.disk)).mem i = din1 := put_mem_self
    have hentry := takeEntry_spec (n := n) hp.1.mapped.touches.consistent
      hp.1.ordered put_disk hi (by omega) (by rw [hmem]; exact hp.1.ne_zero)
    rw [hmem] at hentry
    obtain ⟨blk, st', heq', hp'⟩ := hentry
    rw [heq']
    dsimp only
    rcases hp' with hp' | ⟨hempty', hfull', hx'⟩
    · exact .inl ⟨_, din1, st', rfl, hp.placed_indirect hp'⟩
    right
    have hcount := hp.1.count
    have hdata : refs inodes s (i, .data (12 + n)) = 0 := by
      rw [← hp.1.others _ (by simp [Place.ofAddr]), hempty']
    have hplace : Place.ofAddr 12 = .indirect := rfl
    rw [hplace] at hcount
    rw [missing, if_pos hdata]
    simp only [Nat.le_add_right, true_and]
    refine ⟨by omega, ?_⟩
    rintro r ⟨⟩
    exact Nat.le_of_eq hx'.symm
  · right
    rw [hx, rsect_of_le (Nat.le_refl _)]
    refine ⟨?_, fun r hr => by cases hr⟩
    have hind : 12 ≤ 12 + n ∧ refs inodes s (i, .indirect) = 0 := ⟨Nat.le_add_right .., hempty⟩
    rw [missing, if_pos hind, hfull]
    omega

end

end CshellXv6.Fs.Mkfs
