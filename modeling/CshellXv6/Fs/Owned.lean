import CshellXv6.Fs.Inode
import CshellXv6.Lib.Ownership

/-! # Who owns a block

A block is reachable from an inode: as one of its data blocks, or as its
indirect block. The disk is consistent if no block is reachable from two
places, every block that is reachable is a data block and marked in the
bitmap, and a file has all the blocks that its size asks for.

What an allocation does to all that is said once (`Allocated`); the three places
of `bmap` that allocate differ only in where the new address is put.
-/

namespace CshellXv6.Fs

open Lib Function

/-- The inodes in memory, by their numbers, and the blocks. -/
structure FsState where
  mem : Nat → Inode
  disk : Disk

/-- Inode `i` and the blocks are replaced. -/
def FsState.put (s : FsState) (i : Nat) (ip : Inode) (d : Disk) : FsState :=
  ⟨update s.mem i ip, d⟩

/-- Where an inode keeps an address. -/
inductive Place where
  | indirect
  | data (bn : Nat)
deriving DecidableEq, Repr

/-- The address of block `bn` of a file, 0 if it has none. -/
def Inode.block (ip : Inode) (d : Disk) (bn : Nat) : Nat :=
  if h : bn < 12 then ip.addrs ⟨bn, direct_lt h⟩
  else if bn - 12 < 256 ∧ ip.addrs 12 ≠ 0 then word (d (ip.addrs 12)) (bn - 12) else 0

def Inode.ref (ip : Inode) (d : Disk) : Place → Nat
  | .indirect => ip.addrs 12
  | .data bn => ip.block d bn

/-- The place of `addrs[k]`. -/
def Place.ofAddr (k : Fin 13) : Place := if k = 12 then .indirect else .data k.val

/-- The addresses of all places of the inodes `files`. -/
def refs (files : Finset Nat) (s : FsState) (q : Nat × Place) : Nat :=
  if q.1 ∈ files then (s.mem q.1).ref s.disk q.2 else 0

structure Consistent (sb : Superblock) (files : Finset Nat) (s : FsState) : Prop where
  exclusive : Exclusive (refs files s)
  used : ∀ q, refs files s q ≠ 0 →
    sb.dataStart ≤ refs files s q ∧ refs files s q < sb.size ∧ bit sb s.disk (refs files s q) = true
  reserved : ∀ b, b < sb.dataStart → bit sb s.disk b = true
  filled : ∀ i ∈ files, ∀ bn, bn * 1024 < (s.mem i).size → refs files s (i, .data bn) ≠ 0
  bounded : ∀ i ∈ files, (s.mem i).size ≤ 268 * 1024

section

variable {sb : Superblock} {files : Finset Nat} {s s' s'' : FsState} {i j b n addr addr' bn : Nat}
  {d d' : Disk} {ip ip' : Inode} {pl pl' : Place} {k : Fin 13} {q : Nat × Place}

@[simp] lemma put_mem_self : (s.put i ip d).mem i = ip := update_self ..

lemma put_mem_of_ne (h : j ≠ i) : (s.put i ip d).mem j = s.mem j :=
  update_of_ne h _ _

@[simp] lemma put_disk : (s.put i ip d).disk = d := rfl

lemma put_put : (s.put i ip d).put i ip' d' = s.put i ip' d' := by
  simp [FsState.put]

lemma put_self : s.put i (s.mem i) s.disk = s := by
  simp [FsState.put]

/-- The addresses of an inode are in it and in its indirect block. -/
lemma Inode.ref_congr (h : ip.addrs 12 ≠ 0 → d' (ip.addrs 12) = d (ip.addrs 12)) :
    ip.ref d' pl = ip.ref d pl := by
  cases pl with
  | indirect => rfl
  | data bn =>
    simp only [Inode.ref, Inode.block]
    split
    · rfl
    split
    next hind => rw [h hind.2]
    · rfl

lemma Place.ofAddr_of_lt (h : k.val < 12) : Place.ofAddr k = .data k.val := by
  rw [Place.ofAddr, if_neg]
  rintro rfl
  exact absurd h (by decide)

/-- A block with its address in the indirect block. -/
lemma Inode.block_indirect (hn : n < 256) (hind : ip.addrs 12 ≠ 0) :
    ip.block d (12 + n) = word (d (ip.addrs 12)) n := by
  rw [Inode.block, dif_neg (by omega), Nat.add_sub_cancel_left, if_pos ⟨hn, hind⟩]

lemma Inode.ref_ofAddr (ip : Inode) (d : Disk) (k : Fin 13) :
    ip.ref d (.ofAddr k) = ip.addrs k := by
  unfold Place.ofAddr
  split
  next hk => rw [hk, Inode.ref]
  next hk =>
    have h1 := k.isLt
    have h2 : k.val ≠ 12 := fun heq => hk (Fin.ext heq)
    rw [Inode.ref, Inode.block, dif_pos (by omega)]

lemma Inode.ref_setAddr (hk : ip.addrs k = 0) (hnew : k = 12 → d b = Bytes.zero) :
    (ip.setAddr k b).ref d pl = if pl = .ofAddr k then b else ip.ref d pl := by
  have hword : ∀ n, word (Bytes.zero : Block) n = 0 := fun n => Bytes.load_zero ..
  unfold Place.ofAddr
  by_cases h12 : k = 12
  · subst h12
    cases pl with
    | indirect => simp [Inode.ref, Inode.setAddr]
    | data bn =>
      by_cases hbn : bn < 12
      · have hne : (⟨bn, by omega⟩ : Fin 13) ≠ 12 := by
          intro heq
          have := congrArg Fin.val heq
          simp at this
          omega
        simp [Inode.ref, Inode.block, Inode.setAddr, hbn, update_of_ne hne]
      · simp [Inode.ref, Inode.block, Inode.setAddr, hbn, hk, hnew rfl, hword]
  have hk12 : k.val < 12 := by
    have h1 := k.isLt
    have h2 : k.val ≠ 12 := fun heq => h12 (Fin.ext heq)
    omega
  have h12' : (12 : Fin 13) ≠ k := Ne.symm h12
  cases pl with
  | indirect => simp [Inode.ref, Inode.setAddr, h12, update_of_ne h12']
  | data bn =>
    by_cases hbn : bn < 12
    · by_cases heq : bn = k.val
      · subst heq
        simp [Inode.ref, Inode.block, Inode.setAddr, hbn, h12]
      have hne : (⟨bn, by omega⟩ : Fin 13) ≠ k := fun h => heq (congrArg Fin.val h)
      simp [Inode.ref, Inode.block, Inode.setAddr, hbn, h12, heq, update_of_ne hne]
    · have hne : bn ≠ k.val := by omega
      simp [Inode.ref, Inode.block, Inode.setAddr, hbn, h12, hne, update_of_ne h12']

lemma Inode.ref_setEntry (hind : ip.addrs 12 ≠ 0) (hn : n < 256) (hb : b < 2 ^ 32) :
    ip.ref (update d (ip.addrs 12) (setWord (d (ip.addrs 12)) n b)) pl =
      if pl = .data (12 + n) then b else ip.ref d pl := by
  cases pl with
  | indirect => simp [Inode.ref]
  | data bn =>
    by_cases hbn : bn < 12
    · have hne : bn ≠ 12 + n := by omega
      simp [Inode.ref, Inode.block, hbn, hne]
    by_cases heq : bn = 12 + n
    · subst heq
      simp only [Inode.ref, Inode.block, hbn, dite_false, if_true]
      rw [if_pos ⟨by omega, hind⟩, update_self, Nat.add_sub_cancel_left,
        word_setWord_self _ _ hn, Nat.mod_eq_of_lt hb]
    · have hne : bn - 12 ≠ n := by omega
      simp only [Inode.ref, Inode.block, hbn, dite_false, Place.data.injEq, heq, if_false,
        update_self, word_setWord_of_ne _ _ hne]

lemma refs_of_mem (h : i ∈ files) (pl : Place) :
    refs files s (i, pl) = (s.mem i).ref s.disk pl := by
  rw [refs, if_pos h]

lemma refs_of_notMem (h : i ∉ files) (pl : Place) : refs files s (i, pl) = 0 := by
  rw [refs, if_neg h]

/-- The addresses of an inode that is not changed. -/
lemma refs_congr (hmem : s'.mem q.1 = s.mem q.1)
    (hdisk : refs files s (q.1, .indirect) ≠ 0 →
      s'.disk (refs files s (q.1, .indirect)) = s.disk (refs files s (q.1, .indirect))) :
    refs files s' q = refs files s q := by
  obtain ⟨j, pl⟩ := q
  by_cases hj : j ∈ files
  · rw [refs_of_mem hj] at hdisk
    rw [refs_of_mem hj, refs_of_mem hj, hmem]
    exact Inode.ref_congr hdisk
  · rw [refs_of_notMem hj, refs_of_notMem hj]

/-! ## Allocation -/

/-- Block `b` was free; now it is marked, and zeroed. -/
structure Allocated (sb : Superblock) (files : Finset Nat) (s : FsState) (b : Nat) (d : Disk) :
    Prop where
  data : sb.dataStart ≤ b ∧ b < sb.size
  fresh : ∀ q, refs files s q ≠ b
  bits : ∀ c, c < sb.size → bit sb d c = (decide (c = b) || bit sb s.disk c)
  zero : d b = Bytes.zero
  same : ∀ x, x ≠ b → x < sb.bmapstart ∨ sb.dataStart ≤ x → d x = s.disk x

lemma Allocated.ne_zero (h : Allocated sb files s b d) : b ≠ 0 := by
  have hpos : 0 < sb.dataStart := Nat.succ_pos _
  have := h.data.1
  omega

/-- `balloc` on a consistent disk: no block is free, or it gives a free one. -/
lemma Consistent.balloc (h : Consistent sb files s) :
    (balloc sb s.disk = (0, s.disk) ∧ ∀ b, b < sb.size → bit sb s.disk b = true) ∨
    ∃ b d, balloc sb s.disk = (b, d) ∧ Allocated sb files s b d := by
  rcases @balloc_spec sb s.disk with ⟨b, hb, hfree, heq⟩ | hnone
  · right
    refine ⟨b, _, heq, ?_⟩
    have hdata : sb.dataStart ≤ b := by
      by_contra hlt
      rw [h.reserved b (by omega)] at hfree
      cases hfree
    constructor
    · exact ⟨hdata, hb⟩
    · rintro q rfl
      have hne : refs files s q ≠ 0 := by
        have : 0 < sb.dataStart := Nat.succ_pos _
        omega
      rw [(h.used q hne).2.2] at hfree
      cases hfree
    · intro c hc
      have hmap : bblock sb c ≠ b := Nat.ne_of_lt (Nat.lt_of_lt_of_le (bblock_lt hc) hdata)
      rw [← bit_setBit]
      exact bit_congr (update_of_ne hmap _ _)
    · exact update_self ..
    intro x hx hregion
    rw [bzero, update_of_ne hx]
    refine setByte_of_ne ?_
    rintro rfl
    have h1 : bblock sb b < sb.dataStart := bblock_lt hb
    have h2 : sb.bmapstart ≤ bblock sb b := le_bblock
    omega
  · exact .inl hnone

/-- The new block is put into place `q`. -/
lemma Consistent.take (hv : sb.Valid) (h : Consistent sb files s) (ha : Allocated sb files s b d)
    (hrefs : refs files s' = update (refs files s) q b)
    (hbits : ∀ c, c < sb.size → bit sb s'.disk c = bit sb d c)
    (hsize : ∀ j, (s'.mem j).size = (s.mem j).size) : Consistent sb files s' := by
  have hmarked : ∀ c, c < sb.size → bit sb s.disk c = true → bit sb s'.disk c = true := by
    intro c hc hold
    rw [hbits c hc, ha.bits c hc, hold, Bool.or_true]
  constructor
  · rw [hrefs]
    exact h.exclusive.update ha.fresh
  · intro r hr
    rw [hrefs] at hr ⊢
    by_cases hrq : r = q
    · rw [hrq, update_self]
      refine ⟨ha.data.1, ha.data.2, ?_⟩
      rw [hbits b ha.data.2, ha.bits b ha.data.2, decide_eq_true rfl, Bool.true_or]
    rw [update_of_ne hrq] at hr ⊢
    obtain ⟨h1, h2, h3⟩ := h.used r hr
    exact ⟨h1, h2, hmarked _ h2 h3⟩
  · intro c hc
    exact hmarked c (Nat.lt_of_lt_of_le hc hv.data) (h.reserved c hc)
  · intro j hj bn hbn
    rw [hsize] at hbn
    rw [hrefs]
    by_cases hq : (j, .data bn) = q
    · rw [hq, update_self]
      exact ha.ne_zero
    · rw [update_of_ne hq]
      exact h.filled j hj bn hbn
  · intro j hj
    rw [hsize]
    exact h.bounded j hj

/-- What a function that works on inode `i` may change: other files and the
blocks of inodes stay, and so do the addresses that inode `i` has. -/
structure Touches (sb : Superblock) (files : Finset Nat) (i : Nat) (s s' : FsState) : Prop where
  consistent : Consistent sb files s'
  others : ∀ j, j ≠ i → s'.mem j = s.mem j
  inode : ∃ addrs, s'.mem i = { s.mem i with addrs := addrs }
  kept : ∀ q, refs files s q ≠ 0 → refs files s' q = refs files s q
  foreign : ∀ q, q.1 ≠ i → refs files s' q = refs files s q
  blocks : ∀ j bn, j ≠ i → refs files s (j, .data bn) ≠ 0 →
    s'.disk (refs files s (j, .data bn)) = s.disk (refs files s (j, .data bn))
  inodes : ∀ x, x < sb.bmapstart → s'.disk x = s.disk x

lemma Touches.refl (h : Consistent sb files s) : Touches sb files i s s where
  consistent := h
  others := fun _ _ => rfl
  inode := ⟨(s.mem i).addrs, rfl⟩
  kept := fun _ _ => rfl
  foreign := fun _ _ => rfl
  blocks := fun _ _ _ _ => rfl
  inodes := fun _ _ => rfl

lemma Touches.trans (h : Touches sb files i s s') (h' : Touches sb files i s' s'') :
    Touches sb files i s s'' := by
  constructor
  · exact h'.consistent
  · intro j hj
    rw [h'.others j hj, h.others j hj]
  · obtain ⟨a, ha⟩ := h.inode
    obtain ⟨a', ha'⟩ := h'.inode
    exact ⟨a', by rw [ha', ha]⟩
  · intro q hq
    have hq' := h.kept q hq
    rw [h'.kept q (hq' ▸ hq), hq']
  · intro q hq
    rw [h'.foreign q hq, h.foreign q hq]
  · intro j bn hj hq
    have hq' := h.kept _ hq
    have hblock := h'.blocks j bn hj (hq' ▸ hq)
    rw [hq'] at hblock
    rw [hblock, h.blocks j bn hj hq]
  · intro x hx
    rw [h'.inodes x hx, h.inodes x hx]

/-- The blocks of inode `i` are not changed either. -/
def KeepsData (files : Finset Nat) (i : Nat) (s s' : FsState) : Prop :=
  ∀ bn, refs files s (i, .data bn) ≠ 0 →
    s'.disk (refs files s (i, .data bn)) = s.disk (refs files s (i, .data bn))

/-- Inode `i` puts a new block into an empty place. -/
lemma Consistent.grow (hv : sb.Valid) (h : Consistent sb files s)
    (ha : Allocated sb files s b d) (hq : q.1 = i) (hempty : refs files s q = 0)
    (hrefs : refs files s' = update (refs files s) q b)
    (hbits : ∀ c, c < sb.size → bit sb s'.disk c = bit sb d c)
    (hothers : ∀ j, j ≠ i → s'.mem j = s.mem j)
    (hinode : ∃ addrs, s'.mem i = { s.mem i with addrs := addrs })
    (hdisk : ∀ x, x ≠ b → refs files s (i, .indirect) = 0 ∨ x ≠ refs files s (i, .indirect) →
      x < sb.bmapstart ∨ sb.dataStart ≤ x → s'.disk x = s.disk x) :
    Touches sb files i s s' ∧ KeepsData files i s s' := by
  have hsize : ∀ j, (s'.mem j).size = (s.mem j).size := by
    intro j
    by_cases hj : j = i
    · obtain ⟨a, ha⟩ := hinode
      rw [hj, ha]
    · rw [hothers j hj]
  -- no data block is the new block or the indirect block
  have hdata : ∀ j bn, refs files s (j, .data bn) ≠ 0 →
      s'.disk (refs files s (j, .data bn)) = s.disk (refs files s (j, .data bn)) := by
    intro j bn hne
    refine hdisk _ (ha.fresh _) (.inr ?_) (.inr (h.used _ hne).1)
    intro heq
    cases h.exclusive _ _ hne heq
  refine ⟨?_, fun bn => hdata i bn⟩
  constructor
  · exact h.take hv ha hrefs hbits hsize
  · exact hothers
  · exact hinode
  · intro r hr
    have hrq : r ≠ q := by
      rintro rfl
      exact hr hempty
    rw [hrefs, update_of_ne hrq]
  · intro r hr
    have hrq : r ≠ q := by
      rintro rfl
      exact hr hq
    rw [hrefs, update_of_ne hrq]
  · intro j bn _
    exact hdata j bn
  intro x hx
  have hstart : sb.bmapstart < sb.dataStart := sb.bmapstart_lt
  refine hdisk x ?_ ?_ (.inl hx)
  · have := ha.data.1
    omega
  by_cases hind : refs files s (i, .indirect) = 0
  · exact .inl hind
  · have := (h.used _ hind).1
    exact .inr (by omega)

/-! ## Where the address is put -/

/-- No inode notices an allocation. -/
lemma Allocated.ref (h : Consistent sb files s) (ha : Allocated sb files s b d) (hj : j ∈ files) :
    (s.mem j).ref d pl = refs files s (j, pl) := by
  have hind : refs files s (j, .indirect) = (s.mem j).addrs 12 := refs_of_mem hj _
  rw [refs_of_mem hj]
  refine Inode.ref_congr ?_
  rw [← hind]
  intro hne
  exact ha.same _ (ha.fresh _) (.inr (h.used _ hne).1)

/-- An address in the inode itself: that of a data block, or of the indirect
block, which has no entries yet. -/
lemma refs_setAddr (h : Consistent sb files s) (ha : Allocated sb files s b d) (hi : i ∈ files)
    (hk : (s.mem i).addrs k = 0) :
    refs files (s.put i ((s.mem i).setAddr k b) d) = update (refs files s) (i, .ofAddr k) b := by
  funext ⟨j, pl⟩
  by_cases hj : j = i
  · subst hj
    rw [refs_of_mem hi, put_mem_self, put_disk, Inode.ref_setAddr hk fun _ => ha.zero, ha.ref h hi]
    by_cases hpl : pl = .ofAddr k
    · rw [if_pos hpl, hpl, update_self]
    · rw [if_neg hpl, update_of_ne (by simp [hpl])]
  · rw [update_of_ne (by simp [hj])]
    by_cases hjf : j ∈ files
    · rw [refs_of_mem hjf, put_mem_of_ne hj, put_disk, ha.ref h hjf]
    · rw [refs_of_notMem hjf, refs_of_notMem hjf]

/-- An address in the indirect block. -/
lemma refs_setEntry (hv : sb.Valid) (h : Consistent sb files s) (ha : Allocated sb files s b d)
    (hi : i ∈ files) (hn : n < 256) (hind : (s.mem i).addrs 12 ≠ 0) :
    refs files (s.put i (s.mem i) (update d ((s.mem i).addrs 12)
      (setWord (d ((s.mem i).addrs 12)) n b))) =
      update (refs files s) (i, .data (12 + n)) b := by
  have hfits : b < 2 ^ 32 := by
    have h1 := ha.data.2
    have h2 := hv.fits
    omega
  funext ⟨j, pl⟩
  by_cases hj : j = i
  · subst hj
    rw [refs_of_mem hi, put_mem_self, put_disk, Inode.ref_setEntry hind hn hfits, ha.ref h hi]
    by_cases hpl : pl = .data (12 + n)
    · rw [if_pos hpl, hpl, update_self]
    · rw [if_neg hpl, update_of_ne (by simp [hpl])]
  rw [update_of_ne (by simp [hj])]
  by_cases hjf : j ∈ files
  · rw [refs_of_mem hjf, put_mem_of_ne hj, put_disk, ← ha.ref h hjf]
    refine Inode.ref_congr fun hne => update_of_ne ?_ _ _
    -- the two indirect blocks differ
    intro heq
    have hj' : refs files s (j, .indirect) = (s.mem j).addrs 12 := refs_of_mem hjf _
    have hi' : refs files s (i, .indirect) = (s.mem i).addrs 12 := refs_of_mem hi _
    rw [← hj', ← hi'] at heq
    cases h.exclusive _ _ (hj' ▸ hne) heq
    exact hj rfl
  · rw [refs_of_notMem hjf, refs_of_notMem hjf]

/-! ## `bmap` -/

/-- No block is free. -/
def Full (sb : Superblock) (d : Disk) : Prop := ∀ b, b < sb.size → bit sb d b = true

/-- The outcome of `bmap` or of a part of it, for the place `pl` of inode `i`. -/
structure Mapped (sb : Superblock) (files : Finset Nat) (i : Nat) (s s' : FsState)
    (pl : Place) (addr : Nat) : Prop where
  touches : Touches sb files i s s'
  keeps : KeepsData files i s s'
  found : addr ≠ 0 → refs files s' (i, pl) = addr
  full : addr = 0 → Full sb s'.disk

/-- The new block goes into an empty address of the inode. -/
lemma Allocated.setAddr (hv : sb.Valid) (h : Consistent sb files s)
    (ha : Allocated sb files s b d) (hi : i ∈ files) (hk : (s.mem i).addrs k = 0) :
    Mapped sb files i s (s.put i ((s.mem i).setAddr k b) d) (.ofAddr k) b := by
  have hplace : refs files s (i, .ofAddr k) = 0 := by
    rw [refs_of_mem hi, Inode.ref_ofAddr, hk]
  have hrefs := refs_setAddr h ha hi hk
  obtain ⟨htouches, hkeeps⟩ := h.grow hv ha rfl hplace hrefs (fun _ _ => rfl)
    (fun j hj => put_mem_of_ne hj) ⟨_, put_mem_self⟩ (fun x hx _ hr => ha.same x hx hr)
  refine ⟨htouches, hkeeps, fun _ => ?_, fun h0 => absurd h0 ha.ne_zero⟩
  rw [hrefs, update_self]

/-- The new block goes into an empty entry of the indirect block. -/
lemma Allocated.setEntry (hv : sb.Valid) (h : Consistent sb files s)
    (ha : Allocated sb files s b d) (hi : i ∈ files) (hn : n < 256) (hind : (s.mem i).addrs 12 ≠ 0)
    (hk : word (s.disk ((s.mem i).addrs 12)) n = 0) :
    Mapped sb files i s (s.put i (s.mem i) (update d ((s.mem i).addrs 12)
      (setWord (d ((s.mem i).addrs 12)) n b))) (.data (12 + n)) b := by
  have hplace : refs files s (i, .data (12 + n)) = 0 := by
    rw [refs_of_mem hi, Inode.ref, Inode.block_indirect hn hind, hk]
  have hind' : refs files s (i, .indirect) = (s.mem i).addrs 12 := refs_of_mem hi _
  have hrefs := refs_setEntry hv h ha hi hn hind
  have hdisk : ∀ x, x ≠ (s.mem i).addrs 12 → update d ((s.mem i).addrs 12)
      (setWord (d ((s.mem i).addrs 12)) n b) x = d x := fun x hx =>
    update_of_ne hx _ _
  have hdata := (h.used _ (hind'.symm ▸ hind)).1
  rw [hind'] at hdata
  have hbits : ∀ c, c < sb.size → bblock sb c ≠ (s.mem i).addrs 12 := fun c hc =>
    Nat.ne_of_lt (Nat.lt_of_lt_of_le (bblock_lt hc) hdata)
  have hsame : ∀ x, x ≠ b → refs files s (i, .indirect) = 0 ∨ x ≠ refs files s (i, .indirect) →
      x < sb.bmapstart ∨ sb.dataStart ≤ x →
      update d ((s.mem i).addrs 12) (setWord (d ((s.mem i).addrs 12)) n b) x =
        s.disk x := by
    intro x hx hne hr
    rw [hind'] at hne
    exact (hdisk x (hne.resolve_left hind)).trans (ha.same x hx hr)
  obtain ⟨htouches, hkeeps⟩ := h.grow hv ha rfl hplace hrefs
    (fun c hc => bit_congr (hdisk _ (hbits c hc))) (fun j hj => put_mem_of_ne hj)
    ⟨_, put_mem_self⟩ hsame
  refine ⟨htouches, hkeeps, fun _ => ?_, fun h0 => absurd h0 ha.ne_zero⟩
  rw [hrefs, update_self]

/-- The block is there already. -/
lemma Mapped.refl (h : Consistent sb files s) (hplace : refs files s (i, pl) = addr)
    (hne : addr ≠ 0) : Mapped sb files i s s pl addr :=
  ⟨Touches.refl h, fun _ _ => rfl, fun _ => hplace, fun h0 => absurd h0 hne⟩

/-- No block is free. -/
lemma Mapped.none (h : Consistent sb files s) (hfull : Full sb s.disk) :
    Mapped sb files i s s pl 0 :=
  ⟨Touches.refl h, fun _ _ => rfl, fun hne => absurd rfl hne, fun _ => hfull⟩

lemma bmapAddr_spec (hv : sb.Valid) (h : Consistent sb files s) (hi : i ∈ files) :
    ∃ addr ip d', bmapAddr sb (s.mem i) k s.disk = (addr, ip, d') ∧
      Mapped sb files i s (s.put i ip d') (.ofAddr k) addr := by
  by_cases hk : (s.mem i).addrs k = 0
  · rcases h.balloc with ⟨heq, hfull⟩ | ⟨b, d, heq, ha⟩
    · refine ⟨0, s.mem i, s.disk, ?_, ?_⟩
      · rw [bmapAddr, if_pos hk, heq]
        rfl
      · rw [put_self]
        exact Mapped.none h hfull
    · refine ⟨b, (s.mem i).setAddr k b, d, ?_, ha.setAddr hv h hi hk⟩
      simp [bmapAddr, hk, heq, ha.ne_zero]
  · refine ⟨(s.mem i).addrs k, s.mem i, s.disk, ?_, ?_⟩
    · rw [bmapAddr, if_neg hk]
    · rw [put_self]
      exact Mapped.refl h (by rw [refs_of_mem hi, Inode.ref_ofAddr]) hk

lemma bmapEntry_spec (hv : sb.Valid) (h : Consistent sb files s) (hi : i ∈ files) (hn : n < 256)
    (hind : (s.mem i).addrs 12 ≠ 0) :
    ∃ addr d', bmapEntry sb ((s.mem i).addrs 12) n s.disk = (addr, d') ∧
      Mapped sb files i s (s.put i (s.mem i) d') (.data (12 + n)) addr := by
  by_cases hk : word (s.disk ((s.mem i).addrs 12)) n = 0
  · rcases h.balloc with ⟨heq, hfull⟩ | ⟨b, d, heq, ha⟩
    · refine ⟨0, s.disk, ?_, ?_⟩
      · simp [bmapEntry, hk, heq]
      · rw [put_self]
        exact Mapped.none h hfull
    · refine ⟨b, update d ((s.mem i).addrs 12)
        (setWord (d ((s.mem i).addrs 12)) n b), ?_, ha.setEntry hv h hi hn hind hk⟩
      simp only [bmapEntry, hk, if_true, heq, ne_eq, ha.ne_zero, not_false_eq_true]
  · refine ⟨word (s.disk ((s.mem i).addrs 12)) n, s.disk, ?_, ?_⟩
    · rw [bmapEntry, if_neg hk]
    rw [put_self]
    refine Mapped.refl h ?_ hk
    rw [refs_of_mem hi, Inode.ref, Inode.block_indirect hn hind]

lemma KeepsData.trans (h : KeepsData files i s s') (ht : Touches sb files i s s')
    (h' : KeepsData files i s' s'') : KeepsData files i s s'' := by
  intro bn hne
  have hkept := ht.kept _ hne
  have hnext := h' bn (hkept ▸ hne)
  rw [hkept] at hnext
  rw [hnext, h bn hne]

lemma Mapped.trans (h : Mapped sb files i s s' pl addr)
    (h' : Mapped sb files i s' s'' pl' addr') : Mapped sb files i s s'' pl' addr' :=
  ⟨h.touches.trans h'.touches, h.keeps.trans h.touches h'.keeps, h'.found, h'.full⟩

/-- `bmap` on a consistent disk. -/
lemma bmap_spec (hv : sb.Valid) (h : Consistent sb files s) (hi : i ∈ files) (hbn : bn < 268) :
    ∃ addr ip d', bmap sb (s.mem i) bn s.disk = some (addr, ip, d') ∧
      Mapped sb files i s (s.put i ip d') (.data bn) addr := by
  by_cases hdirect : bn < 12
  · obtain ⟨addr, ip, d', heq, hm⟩ := bmapAddr_spec (k := ⟨bn, by omega⟩) hv h hi
    refine ⟨addr, ip, d', ?_, ?_⟩
    · rw [bmap, dif_pos hdirect, heq]
    · rwa [Place.ofAddr_of_lt hdirect] at hm
  obtain ⟨ind, ip, d1, heq, hm⟩ := bmapAddr_spec (k := 12) hv h hi
  have hindirect : bn - 12 < 256 := by omega
  by_cases hind : ind = 0
  · subst hind
    refine ⟨0, ip, d1, ?_, hm.touches, hm.keeps, fun h0 => absurd rfl h0, hm.full⟩
    rw [bmap, dif_neg hdirect, if_pos hindirect, heq]
    rfl
  -- the indirect block is there, and an entry of it is looked up
  have hip : ((s.put i ip d1).mem i).addrs 12 = ind := by
    rw [← hm.found hind, refs_of_mem hi, Inode.ref_ofAddr]
  obtain ⟨addr, d2, heq', hm'⟩ :=
    bmapEntry_spec (s := s.put i ip d1) hv hm.touches.consistent hi hindirect (hip ▸ hind)
  have hplace : 12 + (bn - 12) = bn := by omega
  rw [hip, put_disk] at heq'
  rw [put_put, put_mem_self, hplace] at hm'
  refine ⟨addr, ip, d2, ?_, ?_⟩
  · rw [bmap, dif_neg hdirect, if_pos hindirect, heq]
    simp only [hind, if_false, heq']
  · exact hm.trans hm'

/-- A block that the file has is found, and nothing happens. -/
lemma bmap_of_ne_zero (h : ip.block d bn ≠ 0) : bmap sb ip bn d = some (ip.block d bn, ip, d) := by
  unfold Inode.block at h ⊢
  by_cases hdirect : bn < 12
  · simp only [hdirect, dite_true] at h ⊢
    rw [bmap, dif_pos hdirect, bmapAddr, if_neg h]
  simp only [hdirect, dite_false] at h ⊢
  split at h
  next hind =>
    rw [bmap, dif_neg hdirect, if_pos hind.1, bmapAddr, if_neg hind.2]
    simp only [hind.2, if_false, bmapEntry, h, hind, if_true, ne_eq, not_false_eq_true, and_self]
  · exact absurd rfl h

end

end CshellXv6.Fs
