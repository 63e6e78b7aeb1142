import CshellXv6.Fs.Owned

/-! # Reading and writing a file

The contents of a file are the bytes that its blocks hold. `writei` goes through
the range block by block; after `tot` bytes, the file has the new bytes in the
first part of the range and is otherwise as before (`Written`). `readi` meets only
blocks that the file has, and changes nothing.
-/

namespace CshellXv6.Fs

open Lib List Option Function

/-- Byte `o` of file `i`. -/
def FsState.byte (s : FsState) (i o : Nat) : UInt8 :=
  (s.disk ((s.mem i).block s.disk (o / 1024))).get (o % 1024)

def FsState.contents (s : FsState) (i : Nat) : List UInt8 :=
  (List.range (s.mem i).size).map (s.byte i)

/-- The array `old` with `new` written over it from `off` on. -/
def splice (old : List UInt8) (off : Nat) (new : List UInt8) : List UInt8 :=
  old.take off ++ new ++ old.drop (off + new.length)

/-- A block gets new contents. -/
def FsState.poke (s : FsState) (x : Nat) (blk : Block) : FsState :=
  { s with disk := update s.disk x blk }

section

variable {sb : Superblock} {files files' : Finset Nat} {s s' : FsState} {i j o x bn m p : Nat}
  {blk : Block}

@[simp] lemma poke_disk : (s.poke x blk).disk = update s.disk x blk := rfl

lemma byte_eq (hi : i ∈ files) :
    s.byte i o = (s.disk (refs files s (i, .data (o / 1024)))).get (o % 1024) := by
  rw [refs_of_mem hi]
  rfl

@[simp] lemma length_contents : (s.contents i).length = (s.mem i).size := by
  simp [FsState.contents]

lemma contents_congr (hsize : (s'.mem i).size = (s.mem i).size)
    (hbyte : ∀ o, o < (s.mem i).size → s'.byte i o = s.byte i o) :
    s'.contents i = s.contents i := by
  rw [FsState.contents, FsState.contents, hsize]
  refine map_congr_left ?_
  intro o ho
  exact hbyte o (mem_range.mp ho)

/-- Every byte of a file is in a block of it. -/
lemma Consistent.ref_ne_zero (h : Consistent sb files s) (hi : i ∈ files)
    (ho : o < (s.mem i).size) : refs files s (i, .data (o / 1024)) ≠ 0 :=
  h.filled i hi (o / 1024) (by omega)

/-- The other files are not touched. -/
lemma Touches.contents_of_ne (h : Touches sb files i s s') (hs : Consistent sb files s)
    (hj : j ∈ files) (hji : j ≠ i) : s'.contents j = s.contents j := by
  refine contents_congr (by rw [h.others j hji]) ?_
  intro o ho
  have hne := hs.ref_ne_zero hj ho
  rw [byte_eq hj, byte_eq hj, h.foreign _ hji, h.blocks j _ hji hne]

/-- Some places may have let go of their blocks, perhaps because their inodes are no
files any more. -/
lemma Consistent.restrict (h : Consistent sb files s) (hv : sb.Valid)
    (hrefs : ∀ q, refs files' s' q = refs files s q ∨ refs files' s' q = 0)
    (hbits : ∀ c, c < sb.size → bit sb s'.disk c = bit sb s.disk c)
    (hfilled : ∀ j ∈ files', ∀ bn, bn * 1024 < (s'.mem j).size → refs files' s' (j, .data bn) ≠ 0)
    (hbounded : ∀ j ∈ files', (s'.mem j).size ≤ 268 * 1024) : Consistent sb files' s' := by
  constructor
  · exact h.exclusive.release hrefs
  · intro q hq
    have hold := (hrefs q).resolve_right hq
    rw [hold] at hq ⊢
    obtain ⟨h1, h2, h3⟩ := h.used q hq
    exact ⟨h1, h2, (hbits _ h2).trans h3⟩
  · intro b hb
    rw [hbits b (Nat.lt_of_lt_of_le hb hv.data)]
    exact h.reserved b hb
  · exact hfilled
  · exact hbounded

/-- Only the addresses and the bits matter. -/
lemma Consistent.congr (h : Consistent sb files s) (hv : sb.Valid)
    (hrefs : refs files s' = refs files s)
    (hbits : ∀ c, c < sb.size → bit sb s'.disk c = bit sb s.disk c)
    (hsize : ∀ j ∈ files, (s'.mem j).size = (s.mem j).size) : Consistent sb files s' := by
  refine h.restrict hv (fun q => .inl (congrFun hrefs q)) hbits ?_ ?_
  · intro j hj bn hbn
    rw [hsize j hj] at hbn
    rw [hrefs]
    exact h.filled j hj bn hbn
  · intro j hj
    rw [hsize j hj]
    exact h.bounded j hj

/-! ## Writing into a block -/

/-- Writing into a data block moves no address. -/
lemma refs_poke (h : Consistent sb files s) (hne : refs files s (i, .data bn) ≠ 0)
    (blk : Block) : refs files (s.poke (refs files s (i, .data bn)) blk) = refs files s := by
  funext ⟨j, pl⟩
  refine refs_congr rfl ?_
  intro hind
  refine update_of_ne ?_ _ _
  intro heq
  cases h.exclusive _ _ hind heq

lemma Consistent.poke (hv : sb.Valid) (h : Consistent sb files s)
    (hne : refs files s (i, .data bn) ≠ 0) (blk : Block) :
    Touches sb files i s (s.poke (refs files s (i, .data bn)) blk) := by
  have hrefs := refs_poke h hne blk
  have hdata := (h.used _ hne).1
  constructor
  · refine h.congr hv hrefs ?_ (fun j _ => rfl)
    intro c hc
    exact bit_congr (update_of_ne
      (Nat.ne_of_lt (Nat.lt_of_lt_of_le (bblock_lt hc) hdata)) _ _)
  · intro j _
    rfl
  · exact ⟨(s.mem i).addrs, rfl⟩
  · intro q _
    rw [hrefs]
  · intro q _
    rw [hrefs]
  · intro j bn' hj hne'
    refine update_of_ne ?_ _ _
    intro heq
    cases h.exclusive _ _ hne' heq
    exact hj rfl
  · intro x hx
    have := sb.bmapstart_lt
    exact update_of_ne (by omega) _ _

/-- What a write of `m` bytes at position `p` of the file does to its bytes. -/
lemma byte_poke (src : Nat → UInt8) (h : Consistent sb files s) (hi : i ∈ files)
    (hp : refs files s (i, .data (p / 1024)) ≠ 0) (ho : refs files s (i, .data (o / 1024)) ≠ 0)
    (hm : p % 1024 + m ≤ 1024) :
    (s.poke (refs files s (i, .data (p / 1024)))
        ((s.disk (refs files s (i, .data (p / 1024)))).put (p % 1024) src m)).byte i o =
      if p ≤ o ∧ o < p + m then src (o - p) else s.byte i o := by
  rw [byte_eq hi, refs_poke h hp _, byte_eq hi, poke_disk]
  by_cases hbn : o / 1024 = p / 1024
  · rw [hbn, update_self]
    split
    next hin =>
      rw [Bytes.get_put_of_mem _ _ _ _ _ (by omega) (by omega) (by omega)]
      congr 1
      omega
    next hout => rw [Bytes.get_put_of_notMem _ _ _ _ _ (by omega)]
  · rw [if_neg (by omega), update_of_ne]
    intro heq
    have := h.exclusive _ _ ho heq
    simp only [Prod.mk.injEq, Place.data.injEq] at this
    exact hbn this.2

/-! ## `writei` -/

/-- After `tot` bytes of a write to file `i` at `off`. -/
structure Written (sb : Superblock) (files : Finset Nat) (i : Nat) (src : Nat → UInt8) (off : Nat)
    (s0 s : FsState) (tot : Nat) : Prop where
  touches : Touches sb files i s0 s
  filled : ∀ o, off ≤ o → o < off + tot → refs files s (i, .data (o / 1024)) ≠ 0
  new : ∀ o, off ≤ o → o < off + tot → s.byte i o = src (o - off)
  old : ∀ o, o < (s0.mem i).size → o < off ∨ off + tot ≤ o → s.byte i o = s0.byte i o

variable {src g f : Nat → UInt8} {off tot n addr fuel : Nat} {s0 s1 : FsState} {pl : Place}
  {d : Disk} {data : List UInt8}

/-- An allocation in between changes none of this. -/
lemma Written.map (h : Written sb files i src off s0 s tot)
    (hs0 : Consistent sb files s0) (hi : i ∈ files) (hmap : Mapped sb files i s s1 pl addr) :
    Written sb files i src off s0 s1 tot := by
  have hbyte : ∀ o, refs files s (i, .data (o / 1024)) ≠ 0 → s1.byte i o = s.byte i o := by
    intro o ho
    rw [byte_eq hi, byte_eq hi, hmap.touches.kept _ ho, hmap.keeps _ ho]
  constructor
  · exact h.touches.trans hmap.touches
  · intro o hlo hhi
    rw [hmap.touches.kept _ (h.filled o hlo hhi)]
    exact h.filled o hlo hhi
  · intro o hlo hhi
    rw [hbyte o (h.filled o hlo hhi)]
    exact h.new o hlo hhi
  intro o ho hout
  have hne := hs0.ref_ne_zero hi ho
  rw [hbyte o (by rw [h.touches.kept _ hne]; exact hne)]
  exact h.old o ho hout

/-- The next `m` bytes go into a block of the file. -/
lemma Written.write (h : Written sb files i src off s0 s tot) (hv : sb.Valid)
    (hs0 : Consistent sb files s0) (hi : i ∈ files)
    (hne : refs files s (i, .data ((off + tot) / 1024)) ≠ 0) (hm : (off + tot) % 1024 + m ≤ 1024) :
    Written sb files i src off s0
      (s.poke (refs files s (i, .data ((off + tot) / 1024)))
        ((s.disk (refs files s (i, .data ((off + tot) / 1024)))).put ((off + tot) % 1024)
          (fun k => src (tot + k)) m))
      (tot + m) := by
  have hcons := h.touches.consistent
  have hbyte := fun o ho => byte_poke (o := o) (fun k => src (tot + k)) hcons hi hne ho hm
  have hin : ∀ o, off ≤ o → o < off + (tot + m) →
      refs files s (i, .data (o / 1024)) ≠ 0 := by
    intro o hlo hhi
    by_cases hlt : o < off + tot
    · exact h.filled o hlo hlt
    have hbn : o / 1024 = (off + tot) / 1024 := by omega
    rw [hbn]
    exact hne
  constructor
  · exact h.touches.trans (hcons.poke hv hne _)
  · intro o hlo hhi
    rw [refs_poke hcons hne _]
    exact hin o hlo hhi
  · intro o hlo hhi
    rw [hbyte o (hin o hlo hhi)]
    by_cases hlt : o < off + tot
    · rw [if_neg (by omega)]
      exact h.new o hlo hlt
    rw [if_pos (by omega)]
    congr 1
    omega
  · intro o ho hout
    have hne0 := hs0.ref_ne_zero hi ho
    rw [hbyte o (by rw [h.touches.kept _ hne0]; exact hne0), if_neg (by omega)]
    exact h.old o ho (by omega)

/-- A write stops early, after `t` bytes, because no block is free: at the end of
the file or after it, and not in the middle of a block. -/
structure Stopped (sb : Superblock) (size off t : Nat) (d : Disk) : Prop where
  full : Full sb d
  beyond : size ≤ off + t
  boundary : t = 0 ∨ (off + t) % 1024 = 0

/-- The loop writes all bytes, or stops when no block is free. -/
lemma writeLoop_spec (hv : sb.Valid) (hs0 : Consistent sb files s0) (hi : i ∈ files)
    (hend : off + n ≤ 268 * 1024) (h : Written sb files i src off s0 s tot) (htot : tot ≤ n)
    (hfuel : n - tot ≤ fuel) (hround : tot < n → tot = 0 ∨ (off + tot) % 1024 = 0) :
    ∃ t ip d', writeLoop sb src n fuel tot (off + tot) (s.mem i) s.disk =
        some (t, off + t, ip, d') ∧ t ≤ n ∧
      Written sb files i src off s0 (s.put i ip d') t ∧
      (t < n → Stopped sb (s0.mem i).size off t d') := by
  induction fuel generalizing s tot with
  | zero =>
    refine ⟨tot, s.mem i, s.disk, rfl, htot, ?_, fun hlt => by omega⟩
    rw [put_self]
    exact h
  | succ fuel ih =>
    by_cases hlt : tot < n
    · have hbn : (off + tot) / 1024 < 268 := by omega
      obtain ⟨addr, ip, d1, heq, hmap⟩ := bmap_spec hv h.touches.consistent hi hbn
      have h1 := h.map hs0 hi hmap
      rw [writeLoop, if_pos hlt, heq]
      simp only [bind_some]
      by_cases haddr : addr = 0
      · rw [if_pos haddr]
        refine ⟨tot, ip, d1, rfl, htot, h1, fun _ => ⟨hmap.full haddr, ?_, hround hlt⟩⟩
        by_contra hinside
        have hne := hs0.ref_ne_zero hi (Nat.lt_of_not_le hinside)
        rw [← h.touches.kept _ hne, refs_of_mem hi] at hne
        have hblock : (s.mem i).block s.disk ((off + tot) / 1024) ≠ 0 := hne
        rw [bmap_of_ne_zero hblock] at heq
        cases heq
        exact hblock haddr
      have hplace := hmap.found haddr
      have h2 := h1.write (m := min (n - tot) (1024 - (off + tot) % 1024)) hv hs0 hi
        (hplace ▸ haddr) (by omega)
      rw [hplace] at h2
      obtain ⟨t, ip', d', heq', hle, hwritten, hfull⟩ :=
        ih h2 (by omega) (by omega) (by omega)
      refine ⟨t, ip', d', ?_, hle, ?_, hfull⟩
      · rw [if_neg haddr, Nat.add_assoc]
        have hmem : (s.put i ip d1).mem i = ip := put_mem_self
        rw [← hmem]
        exact heq'
      have hput : ∀ blk, ((s.put i ip d1).poke addr blk).put i ip' d' = s.put i ip' d' :=
        fun blk => put_put
      rw [hput] at hwritten
      exact hwritten
    · refine ⟨tot, s.mem i, s.disk, ?_, htot, ?_, fun h' => absurd h' hlt⟩
      · rw [writeLoop, if_neg hlt]
      · rw [put_self]
        exact h

/-- The inodes of the files are in their blocks of the disk. -/
def Synced (sb : Superblock) (files : Finset Nat) (s : FsState) : Prop :=
  ∀ i ∈ files, i < sb.ninodes ∧ dinode sb s.disk i = s.mem i

/-- The inode blocks are before the bitmap. -/
lemma iblock_lt (hv : sb.Valid) (hi : i < sb.ninodes) : iblock sb i < sb.bmapstart := by
  have h1 := hv.bitmap
  have h2 := Nat.div_le_div_right (c := 16) hi.le
  unfold iblock
  omega

/-- An inode of a consistent state can be stored. -/
lemma Consistent.fits (hv : sb.Valid) (h : Consistent sb files s) (hi : i ∈ files) {ip : Inode}
    (hip : ip.Fits) (htype : (s.mem i).type = ip.type) (hmajor : (s.mem i).major = ip.major)
    (hminor : (s.mem i).minor = ip.minor) (hnlink : (s.mem i).nlink = ip.nlink) :
    (s.mem i).Fits := by
  constructor
  · rw [htype]
    exact hip.type
  · rw [hmajor]
    exact hip.major
  · rw [hminor]
    exact hip.minor
  · rw [hnlink]
    exact hip.nlink
  · have := h.bounded i hi
    omega
  intro k
  have hplace : refs files s (i, .ofAddr k) = (s.mem i).addrs k := by
    rw [refs_of_mem hi, Inode.ref_ofAddr]
  by_cases hk : (s.mem i).addrs k = 0
  · omega
  have hused := (h.used _ (hplace.symm ▸ hk)).2.1
  have := hv.fits
  omega

/-- The blocks of inodes hold no addresses, bits or data. -/
lemma Consistent.refs_eq (h : Consistent sb files s)
    (hmem : ∀ j ∈ files, ∀ pl, (s'.mem j).ref s'.disk pl = (s.mem j).ref s'.disk pl)
    (hdisk : ∀ x, sb.bmapstart ≤ x → s'.disk x = s.disk x) : refs files s' = refs files s := by
  funext ⟨j, pl⟩
  by_cases hj : j ∈ files
  · have hind : refs files s (j, .indirect) = (s.mem j).addrs 12 := refs_of_mem hj _
    rw [refs_of_mem hj, refs_of_mem hj, hmem j hj]
    refine Inode.ref_congr ?_
    rw [← hind]
    intro hne
    have h1 := (h.used _ hne).1
    have h2 := sb.bmapstart_lt
    exact hdisk _ (by omega)
  · rw [refs_of_notMem hj, refs_of_notMem hj]

/-- The inode of file `i` is written to the disk, perhaps with another size. -/
lemma Consistent.update {size : Nat} (hv : sb.Valid) (h : Consistent sb files s)
    (hi : i ∈ files) (hn : i < sb.ninodes) (hip : ∀ j ∈ files, j ≠ i → s'.mem j = s.mem j)
    (hsize : s'.mem i = { s.mem i with size := size })
    (hdisk : s'.disk = iupdate sb i (s'.mem i) s.disk)
    (hfilled : ∀ bn, bn * 1024 < size → refs files s (i, .data bn) ≠ 0)
    (hbounded : size ≤ 268 * 1024) :
    Consistent sb files s' ∧ (∀ o, o < size → s'.byte i o = s.byte i o) ∧
      ∀ j ∈ files, j ≠ i → s'.contents j = s.contents j := by
  have hblock := iblock_lt hv hn
  have hsame : ∀ x, sb.bmapstart ≤ x → s'.disk x = s.disk x := by
    intro x hx
    rw [hdisk]
    exact iupdate_of_ne (by omega)
  have hrefs : refs files s' = refs files s := by
    refine h.refs_eq ?_ hsame
    intro j hj pl
    by_cases hji : j = i
    · subst hji
      rw [hsize]
      rfl
    · rw [hip j hj hji]
  have hbyte : ∀ j ∈ files, ∀ o, refs files s (j, .data (o / 1024)) ≠ 0 →
      s'.byte j o = s.byte j o := by
    intro j hj o ho
    have h1 := (h.used _ ho).1
    have h2 := sb.bmapstart_lt
    rw [byte_eq hj, byte_eq hj, hrefs, hsame _ (by omega)]
  refine ⟨?_, ?_, ?_⟩
  · refine h.restrict hv (fun q => .inl (congrFun hrefs q))
      (fun c _ => bit_congr (hsame _ le_bblock)) ?_ ?_
    · intro j hj bn hbn
      rw [hrefs]
      by_cases hji : j = i
      · subst hji
        rw [hsize] at hbn
        exact hfilled bn hbn
      · rw [hip j hj hji] at hbn
        exact h.filled j hj bn hbn
    · intro j hj
      by_cases hji : j = i
      · subst hji
        rw [hsize]
        exact hbounded
      · rw [hip j hj hji]
        exact h.bounded j hj
  · intro o ho
    exact hbyte i hi o (hfilled _ (by omega))
  · intro j hj hji
    refine contents_congr (by rw [hip j hj hji]) ?_
    intro o ho
    exact hbyte j hj o (h.ref_ne_zero hj ho)

/-- Writing over an array, byte by byte. -/
lemma splice_eq {size t : Nat} (hoff : off ≤ size)
    (hnew : ∀ o, off ≤ o → o < off + t → g o = src (o - off))
    (hold : ∀ o, o < size → o < off ∨ off + t ≤ o → g o = f o) :
    (List.range (max size (off + t))).map g =
      splice ((List.range size).map f) off ((List.range t).map src) := by
  apply ext_getElem
  · simp [splice]
    omega
  intro o ho ho'
  simp only [length_map, length_range] at ho
  simp only [splice, getElem_map, getElem_range, length_map, length_range]
  by_cases h1 : o < off
  · rw [getElem_append_left (by simp; omega), getElem_append_left (by simp; omega)]
    simp [hold o (by omega) (.inl h1)]
  by_cases h2 : o < off + t
  · rw [getElem_append_left (by simp; omega), getElem_append_right (by simp; omega)]
    simp [hnew o (by omega) h2, Nat.min_eq_left hoff]
  rw [getElem_append_right (by simp; omega)]
  simp only [length_append, length_take, length_map, length_range,
    getElem_drop, getElem_map, getElem_range]
  rw [hold o (by omega) (.inr (by omega))]
  congr 1
  omega

/-- What a call on file `i` leaves behind, whatever it does to the contents of that
file. -/
structure Kept (sb : Superblock) (files : Finset Nat) (i : Nat) (s s' : FsState) : Prop where
  consistent : Consistent sb files s'
  synced : Synced sb files s'
  others : ∀ j ∈ files, j ≠ i → s'.contents j = s.contents j
  mem : ∀ j, j ≠ i → s'.mem j = s.mem j
  inode : ∃ size addrs, s'.mem i = { s.mem i with size := size, addrs := addrs }
  inodes : ∀ j, j < sb.ninodes → j ≠ i → dinode sb s'.disk j = dinode sb s.disk j

/-- `iupdate` brings the disk up to date again. -/
lemma Synced.iupdate (hsync : Synced sb files s)
    (hinodes : ∀ j, j < sb.ninodes → j ≠ i → dinode sb s'.disk j = dinode sb s.disk j)
    (hmem : ∀ j ∈ files, j ≠ i → s'.mem j = s.mem j)
    (hself : dinode sb s'.disk i = s'.mem i) : Synced sb files s' := by
  intro j hj
  obtain ⟨hn, heq⟩ := hsync j hj
  refine ⟨hn, ?_⟩
  by_cases hji : j = i
  · subst hji
    exact hself
  · rw [hinodes j hn hji, hmem j hj hji, heq]

/-- The end of `writei`: the size grows if need be, and the inode is written. -/
lemma Written.finish {ip : Inode} (hv : sb.Valid) (h : Consistent sb files s)
    (hsync : Synced sb files s) (hi : i ∈ files) (hoff : off ≤ (s.mem i).size)
    (hend : off + tot ≤ 268 * 1024) (hw : Written sb files i src off s (s.put i ip d) tot)
    (hmem : ∀ j, j ≠ i → s'.mem j = s.mem j)
    (hip : s'.mem i = { ip with size := max ip.size (off + tot) })
    (hdisk : s'.disk = iupdate sb i (s'.mem i) d) :
    Kept sb files i s s' ∧
      s'.contents i = splice (s.contents i) off ((List.range tot).map src) := by
  obtain ⟨addrs, haddrs⟩ := hw.touches.inode
  rw [put_mem_self] at haddrs
  have hsize : ip.size = (s.mem i).size := by rw [haddrs]
  have hbounded := h.bounded i hi
  have hcons := hw.touches.consistent
  have hothers : ∀ j ∈ files, j ≠ i → s'.mem j = (s.put i ip d).mem j := by
    intro j _ hj
    rw [hmem j hj, put_mem_of_ne hj]
  have hself : s'.mem i = { (s.put i ip d).mem i with size := max ip.size (off + tot) } := by
    rw [hip, put_mem_self]
  have hfilled : ∀ bn, bn * 1024 < max ip.size (off + tot) →
      refs files (s.put i ip d) (i, .data bn) ≠ 0 := by
    intro bn hbn
    by_cases hnew : off ≤ bn * 1024 ∧ bn * 1024 < off + tot
    · have := hw.filled (bn * 1024) hnew.1 hnew.2
      rwa [Nat.mul_div_cancel bn (by decide)] at this
    refine hcons.filled i hi bn ?_
    rw [put_mem_self]
    omega
  obtain ⟨hcons', hbyte, hcontents⟩ :=
    hcons.update hv hi (hsync i hi).1 hothers hself hdisk hfilled (by omega)
  have hfits : (s'.mem i).Fits := by
    have hold : (s.mem i).Fits := (hsync i hi).2 ▸ dinode_fits
    refine hcons'.fits hv hi hold ?_ ?_ ?_ ?_
    all_goals rw [hip, haddrs]
  have hinodes : ∀ j, j < sb.ninodes → j ≠ i → dinode sb s'.disk j = dinode sb s.disk j := by
    intro j hn hji
    rw [hdisk, dinode_iupdate_of_ne hji]
    exact dinode_congr (hw.touches.inodes _ (iblock_lt hv hn))
  refine ⟨⟨hcons', ?_, ?_, hmem, ?_, hinodes⟩, ?_⟩
  · refine hsync.iupdate hinodes (fun j _ => hmem j) ?_
    rw [hdisk]
    exact dinode_iupdate_self hfits
  · intro j hj hji
    rw [hcontents j hj hji]
    exact hw.touches.contents_of_ne h hj hji
  · exact ⟨max ip.size (off + tot), addrs, by rw [hip, haddrs]⟩
  rw [FsState.contents, hip, hsize]
  refine splice_eq hoff ?_ ?_
  · intro o h1 h2
    rw [hbyte o (by omega)]
    exact hw.new o h1 h2
  intro o ho hout
  rw [hbyte o (by omega)]
  exact hw.old o ho hout

/-- `writei`: -1 and nothing has happened, or `t` bytes have been written, fewer
than `n` only if no block is free. -/
lemma writei_spec (hv : sb.Valid) (h : Consistent sb files s) (hsync : Synced sb files s)
    (hi : i ∈ files) (hoff : off < 2 ^ 32) (hn : n < 2 ^ 32) (src : Nat → UInt8) :
    (writei sb i (s.mem i) src off n s.disk = some (-1, s.mem i, s.disk) ∧
      ((s.mem i).size < off ∨ 268 * 1024 < off + n)) ∨
    ∃ (t : Nat) (ip : Inode) (d : Disk),
      writei sb i (s.mem i) src off n s.disk = some ((t : Int), ip, d) ∧ t ≤ n ∧
      (off ≤ (s.mem i).size ∧ off + n ≤ 268 * 1024) ∧
      Kept sb files i s (s.put i ip d) ∧
      (s.put i ip d).contents i = splice (s.contents i) off ((List.range t).map src) ∧
      (t < n → Stopped sb (s.mem i).size off t d) := by
  have hbounded := h.bounded i hi
  rw [writei]
  split
  next hbad => exact .inl ⟨rfl, by omega⟩
  next hgood =>
    split
    next hbig => exact .inl ⟨rfl, by omega⟩
    next hsmall =>
      right
      have hin : off ≤ (s.mem i).size ∧ off + n ≤ 268 * 1024 := by omega
      have hstart : Written sb files i src off s s 0 := by
        constructor
        · exact Touches.refl h
        · intro o h1 h2
          omega
        · intro o h1 h2
          omega
        · intro o _ _
          rfl
      have hfuel : n - 0 ≤ n := Nat.sub_le _ _
      obtain ⟨t, ip, d, heq, ht, hw, hfull⟩ :=
        writeLoop_spec hv h hi hin.2 hstart (Nat.zero_le n) hfuel fun _ => .inl rfl
      have hip : (if off + t > ip.size then { ip with size := off + t } else ip) =
          { ip with size := max ip.size (off + t) } := by
        split
        next hgt => rw [Nat.max_eq_right (by omega)]
        next hle => rw [Nat.max_eq_left (by omega)]
      rw [Nat.add_zero] at heq
      rw [heq, map_some]
      simp only [hip]
      refine ⟨t, _, _, rfl, ht, hin, ?_⟩
      obtain ⟨hkept, hcontents⟩ := hw.finish hv h hsync hi hin.1 (by omega)
        (fun j hj => put_mem_of_ne hj) put_mem_self (by rw [put_mem_self, put_disk])
      refine ⟨hkept, hcontents, fun hlt => ?_⟩
      obtain ⟨hfull, hbeyond, hboundary⟩ := hfull hlt
      refine ⟨fun b hb => ?_, hbeyond, hboundary⟩
      have hblock : bblock sb b ≠ iblock sb i := by
        have h1 := iblock_lt hv (hsync i hi).1
        have h2 : sb.bmapstart ≤ bblock sb b := le_bblock
        omega
      rw [bit_congr (iupdate_of_ne hblock)]
      exact hfull b hb

/-! ## `readi` -/

/-- The loop of `readi` inside the file: it finds all its blocks. -/
lemma readLoop_spec (h : Consistent sb files s)
    (hi : i ∈ files) (hend : off + n ≤ (s.mem i).size) (htot : tot ≤ n) (hfuel : n - tot ≤ fuel) :
    readLoop sb n fuel tot (off + tot) data (s.mem i) s.disk =
      some (data ++ (List.range (n - tot)).map (fun k => s.byte i (off + tot + k)),
        s.mem i, s.disk) := by
  induction fuel generalizing tot data with
  | zero =>
    have hdone : n - tot = 0 := by omega
    simp [readLoop, hdone]
  | succ fuel ih =>
    rw [readLoop]
    split
    next hlt =>
      have hne := h.ref_ne_zero (o := off + tot) hi (by omega)
      rw [refs_of_mem hi] at hne
      have hblock : (s.mem i).block s.disk ((off + tot) / 1024) ≠ 0 := hne
      rw [bmap_of_ne_zero hblock, bind_some]
      simp only [hblock, if_false]
      -- the bytes of this round are in one block
      have hround : ∀ k, k < min (n - tot) (1024 - (off + tot) % 1024) →
          (s.disk ((s.mem i).block s.disk ((off + tot) / 1024))).get
            ((off + tot) % 1024 + k) = s.byte i (off + tot + k) := by
        intro k hk
        have hdiv : (off + tot + k) / 1024 = (off + tot) / 1024 := by omega
        have hmod : (off + tot + k) % 1024 = (off + tot) % 1024 + k := by omega
        rw [FsState.byte, hdiv, hmod]
      have hrest : n - tot = min (n - tot) (1024 - (off + tot) % 1024) +
          (n - (tot + min (n - tot) (1024 - (off + tot) % 1024))) := by omega
      rw [Nat.add_assoc off tot, ih (by omega) (by omega), append_assoc]
      conv_rhs => rw [hrest, range_add, map_append, List.map_map]
      rw [map_congr_left fun k hk => hround k (mem_range.mp hk)]
      simp only [comp_def, Nat.add_assoc]
    next hge =>
      have hdone : n - tot = 0 := by omega
      simp [hdone]

/-- `readi` gives the bytes of the file in the range, unless `off + n` does not
fit a `uint`; and it changes nothing. -/
lemma readi_spec (h : Consistent sb files s) (hi : i ∈ files) (hn : n < 2 ^ 32) :
    readi sb (s.mem i) off n s.disk =
      some (if off + n < 2 ^ 32 then ((s.contents i).drop off).take n else [],
        s.mem i, s.disk) := by
  have hbounded := h.bounded i hi
  rw [readi]
  split
  next hbad =>
    split
    next hfits =>
      have hlen : (s.contents i).length ≤ off := by
        rw [length_contents]
        omega
      rw [drop_eq_nil_of_le hlen, take_nil]
    · rfl
  next hgood =>
    have hin : off ≤ (s.mem i).size ∧ off + n < 2 ^ 32 := by omega
    have hmin : (if (off + n) % 2 ^ 32 > (s.mem i).size then (s.mem i).size - off else n) =
        min n ((s.mem i).size - off) := by
      rw [Nat.mod_eq_of_lt hin.2]
      split <;> omega
    have hfuel : min n ((s.mem i).size - off) - 0 ≤ min n ((s.mem i).size - off) := by omega
    have hloop : readLoop sb (min n ((s.mem i).size - off)) (min n ((s.mem i).size - off)) 0
        (off + 0) [] (s.mem i) s.disk = _ :=
      readLoop_spec h hi (by omega) (Nat.zero_le _) hfuel
    rw [Nat.add_zero] at hloop
    simp only [hmin, hloop, if_pos hin.2, nil_append, Nat.sub_zero]
    congr 2
    apply ext_getElem
    · simp
    · intro k hk hk'
      simp [FsState.contents]

end

end CshellXv6.Fs
