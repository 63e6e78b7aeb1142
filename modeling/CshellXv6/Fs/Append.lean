import CshellXv6.Fs.FreshBlocks

/-! # What `iappend` does

A round of `iappend` finds a block and writes into it, as a round of `writei` does; the
loop either has room for all its bytes or fails. How many blocks that takes is known
from the sizes alone (`blocksFor`), because no file has more blocks than its size asks
for.
-/

namespace CshellXv6.Fs.Mkfs

open Lib List Option

/-! ## The loop of `iappend` -/

/-- The blocks of a file of `size` bytes, its indirect block among them. -/
def blocksFor (size : Nat) : Nat := (size + 1023) / 1024 + if 12 * 1024 < size then 1 else 0

variable {n m : Nat} {st1 : State} {din : Inode}

lemma blocksFor_mono (h : m ≤ n) : blocksFor m ≤ blocksFor n := by
  unfold blocksFor
  split <;> split <;> omega

/-- A file of `off` bytes can grow to `off'` bytes. -/
def Room (st : State) (off off' : Nat) : Prop :=
  off' ≤ 268 * 1024 ∧ st.freeblock + blocksFor off' ≤ 2000 + blocksFor off

/-- After `tot` bytes of an `iappend` to file `i`, which started with `s0` and `st0`. The
new size is in the inode only at the end. -/
structure Growing (i : Nat) (src : Nat → UInt8) (s0 : FsState) (st0 : State) (s : FsState)
    (st : State) (tot : Nat) : Prop where
  written : Written sb inodes i src (s0.mem i).size s0 s tot
  disk : s.disk = marked st.freeblock st.disk
  ordered : Ordered s st.freeblock
  data : ∀ bn, refs inodes s (i, .data bn) ≠ 0 → bn * 1024 < (s0.mem i).size + tot
  indirect : refs inodes s (i, .indirect) ≠ 0 → 12 * 1024 < (s0.mem i).size + tot
  count : st.freeblock + blocksFor (s0.mem i).size =
    st0.freeblock + blocksFor ((s0.mem i).size + tot)
  bounded : (s0.mem i).size + tot ≤ 268 * 1024
  freeinode : st.freeinode = st0.freeinode

section

variable {i tot m bn x : Nat} {src : Nat → UInt8} {s0 s : FsState} {st0 st st' : State}
  {p : List UInt8}

lemma Growing.filled (h : Growing i src s0 st0 s st tot) (hi : i ∈ inodes)
    (hbn : bn * 1024 < (s0.mem i).size + tot) : refs inodes s (i, .data bn) ≠ 0 := by
  by_cases hold : bn * 1024 < (s0.mem i).size
  · refine h.written.touches.consistent.filled i hi bn ?_
    obtain ⟨addrs, haddrs⟩ := h.written.touches.inode
    rw [haddrs]
    exact hold
  · have hne := h.written.filled (bn * 1024) (by omega) hbn
    rwa [Nat.mul_div_cancel bn (by decide)] at hne

/-- The block at the end of the file is there unless the file ends with its last block. -/
lemma Growing.ref_end (h : Growing i src s0 st0 s st tot) (hi : i ∈ inodes) :
    refs inodes s (i, .data (((s0.mem i).size + tot) / 1024)) = 0 ↔
      ((s0.mem i).size + tot) % 1024 = 0 := by
  constructor
  · intro hempty
    by_contra hne
    exact h.filled hi (by omega) hempty
  intro haligned
  by_contra hne
  have := h.data _ hne
  omega

/-- The indirect block is there from block 12 on. -/
lemma Growing.ref_indirect (h : Growing i src s0 st0 s st tot) (hi : i ∈ inodes) :
    refs inodes s (i, .indirect) = 0 ↔ (s0.mem i).size + tot ≤ 12 * 1024 := by
  constructor
  · intro hempty
    by_contra hlt
    have hne := h.filled hi (by omega : 12 * 1024 < (s0.mem i).size + tot)
    rw [refs_of_mem hi] at hempty hne
    refine hne ?_
    rw [Inode.ref, Inode.block, dif_neg (by decide), if_neg]
    exact fun hind => hind.2 hempty
  · intro hle
    by_contra hne
    have := h.indirect hne
    omega

lemma Growing.missing (h : Growing i src s0 st0 s st tot) (hi : i ∈ inodes) (hm : 0 < m)
    (hround : m ≤ 1024 - ((s0.mem i).size + tot) % 1024) :
    missing s i (((s0.mem i).size + tot) / 1024) + blocksFor ((s0.mem i).size + tot) =
      blocksFor ((s0.mem i).size + tot + m) := by
  simp only [Mkfs.missing, blocksFor, h.ref_end hi, h.ref_indirect hi]
  generalize (s0.mem i).size + tot = off at hround ⊢
  split <;> split <;> split <;> split <;> omega

/-- The bytes of a round go into the block that was found. -/
lemma Growing.write
    (h : Growing i src s0 st0 s st tot) (hs0 : Consistent sb inodes s0) (hi : i ∈ inodes)
    (hm : 0 < m) (hround : m ≤ 1024 - ((s0.mem i).size + tot) % 1024)
    (hend : (s0.mem i).size + tot + m ≤ 268 * 1024)
    (hp : Placed i (((s0.mem i).size + tot) / 1024) s
      (s.put i din (marked st1.freeblock st1.disk)) st st1 x)
    (hst : st' = { st1 with
      disk := wsect st1.disk x
        ((st1.disk x).put (((s0.mem i).size + tot) % 1024) (fun k => src (tot + k)) m) }) :
    Growing i src s0 st0 (s.put i din (marked st'.freeblock st'.disk)) st' (tot + m) := by
  subst hst
  have hcons := hp.mapped.touches.consistent
  have hx := hp.mapped.found hp.ne_zero
  have hne := hx.symm ▸ hp.ne_zero
  have hlt := hp.ordered.lt hcons hne
  rw [hx] at hlt
  have hsame : marked st1.freeblock st1.disk x = st1.disk x := marked_of_ne (by omega)
  have hwritten := (h.written.map hs0 hi hp.mapped).write (m := m) sb_valid hs0 hi hne (by omega)
  have hpoke := hp.ordered.poke hcons hne
  have hrefs := refs_poke hcons hne
  rw [hx, put_disk, hsame] at hwritten
  rw [hx] at hpoke hrefs
  -- writing the block and writing the bitmap are independent
  have hstate : ∀ blk, s.put i din (marked st1.freeblock (wsect st1.disk x blk)) =
      (s.put i din (marked st1.freeblock st1.disk)).poke x blk := by
    intro blk
    rw [wsect, marked_update (by omega)]
    rfl
  have hmissing := h.missing hi hm hround
  constructor
  · rw [hstate]
    exact hwritten
  · rfl
  · rw [hstate]
    exact hpoke _
  · intro bn hbn
    rw [hstate, hrefs] at hbn
    by_cases hlast : bn = ((s0.mem i).size + tot) / 1024
    · -- the block of this round begins before the new end
      omega
    rw [hp.data bn hlast] at hbn
    have := h.data bn hbn
    omega
  · intro hind
    rw [hstate, hrefs] at hind
    by_cases hdirect : ((s0.mem i).size + tot) / 1024 < 12
    · rw [hp.indirect hdirect] at hind
      have := h.indirect hind
      omega
    · omega
  · have h1 := h.count
    have h2 := hp.count
    dsimp only
    rw [← Nat.add_assoc, ← hmissing, h2]
    omega
  · omega
  · rw [← h.freeinode, ← hp.freeinode]

/-- One round: there is room for it, or it fails. -/
lemma Growing.round (h : Growing i src s0 st0 s st tot) (hs0 : Consistent sb inodes s0)
    (hi : i ∈ inodes) (hp : 0 < p.length) (hsrc : (fun k => p.getD k 0) = fun k => src (tot + k))
    (hm : m = min p.length (1024 - ((s0.mem i).size + tot) % 1024)) :
    (Room st ((s0.mem i).size + tot) ((s0.mem i).size + tot + m) ∧
      ∃ din' st', appendRound p ((s0.mem i).size + tot) (s.mem i) st = some (m, din', st') ∧
        Growing i src s0 st0 (s.put i din' (marked st'.freeblock st'.disk)) st' (tot + m)) ∨
    (¬ Room st ((s0.mem i).size + tot) ((s0.mem i).size + tot + m) ∧
      appendRound p ((s0.mem i).size + tot) (s.mem i) st = none) := by
  have hpos : 0 < m := by omega
  have hround : m ≤ 1024 - ((s0.mem i).size + tot) % 1024 := by omega
  have hmissing := h.missing hi hpos hround
  have hn1 : min p.length ((((s0.mem i).size + tot) / 1024 + 1) * 1024 -
      ((s0.mem i).size + tot)) = m := by omega
  have hpos' : (s0.mem i).size + tot - ((s0.mem i).size + tot) / 1024 * 1024 =
      ((s0.mem i).size + tot) % 1024 := by omega
  by_cases hbn : ((s0.mem i).size + tot) / 1024 < 268
  · rcases findBlock_spec h.written.touches.consistent h.ordered h.disk hi hbn with
      ⟨x, din', st1, heq, hplaced⟩ | ⟨hfull, hnone⟩
    · left
      have hx := hplaced.mapped.found hplaced.ne_zero
      have hlt := hplaced.ordered.lt hplaced.mapped.touches.consistent (hx.symm ▸ hplaced.ne_zero)
      rw [hx] at hlt
      have hfits := hplaced.ordered.fits
      have hcount := hplaced.count
      refine ⟨⟨by omega, by omega⟩, din', _, ?_, h.write hs0 hi hpos hround (by omega) hplaced rfl⟩
      simp only [appendRound, hbn, if_true, heq, bind_some, rsect_of_lt
        (Nat.lt_of_lt_of_le hlt.2 hfits), map_some, hn1, hpos', hsrc]
    -- `freeblock` is past the last block, and the read of it fails
    right
    refine ⟨fun hroom => ?_, ?_⟩
    · have := hroom.2
      omega
    rw [appendRound, if_pos hbn]
    cases hfound : findBlock (s.mem i) (((s0.mem i).size + tot) / 1024) st with
    | none => rfl
    | some r =>
      obtain ⟨x, din', st1⟩ := r
      rw [bind_some]
      simp only [rsect_of_le (hnone _ hfound), map_none]
  · -- the assertion on the number of blocks
    right
    refine ⟨fun hroom => ?_, ?_⟩
    · have := hroom.1
      omega
    · rw [appendRound, if_neg hbn]

variable {data : List UInt8} {fuel : Nat}

/-- The bytes that are left. -/
lemma getD_drop : (fun k => (data.drop tot).getD k 0) = fun k => data.getD (tot + k) 0 := by
  funext k
  simp only [getD_eq_getElem?_getD, List.getElem?_drop]

/-- At the end nothing is left to find room for. -/
lemma Growing.room (h : Growing i src s0 st0 s st tot) :
    Room st ((s0.mem i).size + tot) ((s0.mem i).size + tot) :=
  ⟨h.bounded, Nat.add_le_add_right h.ordered.fits _⟩

lemma Growing.put_mem (h : Growing i src s0 st0 s st tot) :
    Growing i src s0 st0 (s.put i (s.mem i) (marked st.freeblock st.disk)) st tot := by
  rwa [← h.disk, put_self]

/-- The loop: there is room for all bytes that are left, or it fails. -/
lemma Growing.loop (hs0 : Consistent sb inodes s0) (hi : i ∈ inodes)
    (h : Growing i (fun k => data.getD k 0) s0 st0 s st tot) (htot : tot ≤ data.length)
    (hfuel : data.length - tot ≤ fuel) :
    (Room st ((s0.mem i).size + tot) ((s0.mem i).size + data.length) ∧
      ∃ din' st', appendLoop fuel (data.drop tot) ((s0.mem i).size + tot) (s.mem i) st =
          some ((s0.mem i).size + data.length, din', st') ∧
        Growing i (fun k => data.getD k 0) s0 st0
          (s.put i din' (marked st'.freeblock st'.disk)) st' data.length) ∨
    (¬ Room st ((s0.mem i).size + tot) ((s0.mem i).size + data.length) ∧
      appendLoop fuel (data.drop tot) ((s0.mem i).size + tot) (s.mem i) st = none) := by
  induction fuel generalizing s st tot with
  | zero =>
    obtain rfl : tot = data.length := by omega
    exact .inl ⟨h.room, s.mem i, st, rfl, h.put_mem⟩
  | succ fuel ih =>
    rw [appendLoop]
    by_cases hlt : 0 < (data.drop tot).length
    · rw [if_pos hlt]
      rw [length_drop] at hlt
      obtain ⟨m, hm⟩ : ∃ m, m = min (data.drop tot).length
          (1024 - ((s0.mem i).size + tot) % 1024) := ⟨_, rfl⟩
      have hm' := hm
      rw [length_drop] at hm'
      have hmono := blocksFor_mono
        (by omega : (s0.mem i).size + tot + m ≤ (s0.mem i).size + data.length)
      rcases h.round hs0 hi (by rwa [length_drop]) getD_drop hm with
        ⟨hroom, din', st', heq, hnext⟩ | ⟨hroom, heq⟩
      · -- what is left fits if and only if all of it does
        have h1 := h.count
        have h2 := hnext.count
        have hiff : Room st' ((s0.mem i).size + (tot + m)) ((s0.mem i).size + data.length) ↔
            Room st ((s0.mem i).size + tot) ((s0.mem i).size + data.length) := by
          unfold Room
          omega
        have hrest := ih hnext (by omega) (by omega)
        rw [hiff, put_mem_self] at hrest
        rw [heq, bind_some]
        simp only [drop_drop, Nat.add_assoc, put_put] at hrest ⊢
        exact hrest
      · right
        rw [heq, bind_none]
        refine ⟨fun hall => hroom ?_, rfl⟩
        unfold Room at hall ⊢
        omega
    · rw [if_neg hlt]
      rw [length_drop] at hlt
      obtain rfl : tot = data.length := by omega
      exact .inl ⟨h.room, s.mem i, st, rfl, h.put_mem⟩

end

/-! ## `iappend` -/

/-- The inodes of the disk, and the blocks as they were if the bitmap were written now. -/
def State.view (st : State) : FsState where
  mem := fun j => if j < 200 then dinode sb st.disk j else blank
  disk := marked st.freeblock st.disk

/-- The state between two calls: besides being consistent, no file has more blocks than
its size asks for, and the inodes that are left are blank. -/
structure Built (st : State) : Prop where
  consistent : Consistent sb inodes st.view
  ordered : Ordered st.view st.freeblock
  data : ∀ i ∈ inodes, ∀ bn,
    refs inodes st.view (i, .data bn) ≠ 0 → bn * 1024 < (st.view.mem i).size
  indirect : ∀ i ∈ inodes, refs inodes st.view (i, .indirect) ≠ 0 → 12 * 1024 < (st.view.mem i).size
  bounded : st.freeinode ≤ 200
  free : ∀ j, st.freeinode ≤ j → st.view.mem j = blank

/-- `p` has been appended to file `i`. -/
structure Appended (i : Nat) (p : List UInt8) (st st' : State) : Prop where
  built : Built st'
  freeinode : st'.freeinode = st.freeinode
  contents : st'.view.contents i = st.view.contents i ++ p
  others : ∀ j ∈ inodes, j ≠ i → st'.view.contents j = st.view.contents j
  type : ∀ j, (st'.view.mem j).type = (st.view.mem j).type
  count : st'.freeblock + blocksFor (st.view.mem i).size =
    st.freeblock + blocksFor ((st.view.mem i).size + p.length)
  low : ∀ x, x < 33 → st'.disk x = st.disk x

section

variable {st st' : State} {i j used : Nat} {p : List UInt8} {s s' : FsState}

lemma view_mem (hj : j < 200) : st.view.mem j = dinode sb st.disk j := if_pos hj

lemma view_mem_of_le (hj : 200 ≤ j) : st.view.mem j = blank := if_neg (Nat.not_lt.mpr hj)

lemma view_synced : Synced sb inodes st.view := by
  intro j hj
  rw [mem_inodes] at hj
  refine ⟨hj, ?_⟩
  rw [view_mem hj]
  exact dinode_marked hj

/-- A state whose inodes are on the disk is the view of it. -/
lemma view_eq (hdisk : s.disk = marked st.freeblock st.disk)
    (hsync : Synced sb inodes s) (hblank : ∀ j, 200 ≤ j → s.mem j = blank) : st.view = s := by
  obtain ⟨mem, disk⟩ := s
  obtain rfl : disk = marked st.freeblock st.disk := hdisk
  simp only [State.view, FsState.mk.injEq, and_true]
  funext j
  by_cases hj : j < 200
  · rw [if_pos hj, ← dinode_marked hj]
    exact (hsync j (mem_inodes.mpr hj)).2
  · rw [if_neg hj]
    exact (hblank j (Nat.le_of_not_lt hj)).symm

lemma Ordered.congr (ho : Ordered s used) (hrefs : refs inodes s' = refs inodes s)
    (hdisk : ∀ x, 46 ≤ x → s'.disk x = s.disk x) : Ordered s' used := by
  have hstart := ho.start
  constructor
  · exact hstart
  · exact ho.fits
  · intro x hx
    rw [← ho.bits x hx]
    exact bit_congr (hdisk _ (Nat.le_add_left _ _))
  · intro x
    rw [hrefs]
    exact ho.covered x
  intro x hx
  rw [hdisk x (by omega)]
  exact ho.zero x hx

lemma Built.growing (h : Built st) (hi : i ∈ inodes) (src : Nat → UInt8) :
    Growing i src st.view st st.view st 0 := by
  constructor
  · constructor
    · exact Touches.refl h.consistent
    · intro o h1 h2
      omega
    · intro o h1 h2
      omega
    · intro o _ _
      rfl
  · rfl
  · exact h.ordered
  · exact h.data i hi
  · exact h.indirect i hi
  · rfl
  · exact h.consistent.bounded i hi
  · rfl

lemma splice_end (old new : List UInt8) : splice old old.length new = old ++ new := by
  simp [splice]

/-- The inode is written at the end of the loop. -/
lemma Growing.finish (h : Built st) (hi : i < st.freeinode)
    (hg : Growing i (fun k => p.getD k 0) st.view st
      (st.view.put i din (marked st1.freeblock st1.disk)) st1 p.length)
    (hst : st' = { st1 with
      disk := iupdate sb i { din with size := (st.view.mem i).size + p.length } st1.disk }) :
    Appended i p st st' := by
  have hi' : i < 200 := Nat.lt_of_lt_of_le hi h.bounded
  have him : i ∈ inodes := mem_inodes.mpr hi'
  obtain ⟨addrs, haddrs⟩ := hg.written.touches.inode
  rw [put_mem_self] at haddrs
  have hcons := hg.written.touches.consistent
  -- the state of the kernel's `writei` at this point
  obtain ⟨s', hs'⟩ : ∃ s', s' = st.view.put i
      { din with size := (st.view.mem i).size + p.length }
      (marked st'.freeblock st'.disk) := ⟨_, rfl⟩
  have hmem : ∀ j, j ≠ i → s'.mem j = st.view.mem j := by
    intro j hj
    rw [hs', put_mem_of_ne hj]
  have hself : s'.mem i = { din with size := (st.view.mem i).size + p.length } := by
    rw [hs', put_mem_self]
  have hdisk : s'.disk = iupdate sb i (s'.mem i) (marked st1.freeblock st1.disk) := by
    rw [hself, hs', put_disk, hst]
    exact marked_iupdate hi'
  have hsize : max din.size ((st.view.mem i).size + p.length) =
      (st.view.mem i).size + p.length := by
    rw [haddrs]
    exact Nat.max_eq_right (Nat.le_add_right _ _)
  obtain ⟨hkept, hcontents⟩ := hg.written.finish sb_valid h.consistent view_synced him
    (Nat.le_refl _) hg.bounded hmem (by rw [hself, hsize]) hdisk
  have hview : st'.view = s' := by
    refine view_eq (by rw [hs', put_disk]) hkept.synced ?_
    intro j hj
    rw [hmem j (by omega), view_mem_of_le hj]
  -- `winode` writes below the blocks of the files
  have hhigh : ∀ x, 46 ≤ x → s'.disk x = marked st1.freeblock st1.disk x := by
    intro x hx
    have := iblock_bounds hi'
    rw [hdisk]
    exact iupdate_of_ne (by omega)
  have hrefs : refs inodes s' =
      refs inodes (st.view.put i din (marked st1.freeblock st1.disk)) := by
    refine hcons.refs_eq ?_ hhigh
    intro j _ pl
    by_cases hj : j = i
    · rw [hj, hself, put_mem_self]
      rfl
    · rw [hmem j hj, put_mem_of_ne hj]
  constructor
  · constructor
    · rw [hview]
      exact hkept.consistent
    · rw [hview, hst]
      exact hg.ordered.congr hrefs hhigh
    · intro j hj bn hbn
      rw [hview, hrefs] at hbn
      rw [hview]
      by_cases hji : j = i
      · subst hji
        rw [hself]
        exact hg.data bn hbn
      rw [hg.written.touches.foreign _ hji] at hbn
      rw [hmem j hji]
      exact h.data j hj bn hbn
    · intro j hj hind
      rw [hview, hrefs] at hind
      rw [hview]
      by_cases hji : j = i
      · subst hji
        rw [hself]
        exact hg.indirect hind
      rw [hg.written.touches.foreign _ hji] at hind
      rw [hmem j hji]
      exact h.indirect j hj hind
    · rw [hst]
      exact hg.freeinode ▸ h.bounded
    · intro j hj
      rw [hst] at hj
      have hinum := hg.freeinode
      rw [hview, hmem j (by dsimp only at hj; omega)]
      exact h.free j (by dsimp only at hj; omega)
  · rw [hst]
    exact hg.freeinode
  · have hold : (st.view.mem i).size = (st.view.contents i).length := length_contents.symm
    rw [hview, hcontents, map_range_getD, hold, splice_end]
  · rw [hview]
    exact hkept.others
  · intro j
    rw [hview]
    by_cases hj : j = i
    · rw [hj, hself, haddrs]
    · rw [hmem j hj]
  · rw [hst]
    exact hg.count
  · intro x hx
    have hblock := iblock_bounds hi'
    have hsame := hg.written.touches.inodes x (by rw [sb_bmapstart]; omega)
    rw [put_disk, marked_of_ne (by omega)] at hsame
    rw [hst]
    dsimp only
    rw [iupdate_of_ne (by omega), hsame]
    exact marked_of_ne (by omega)

/-- `iappend`: there is room for the bytes, or it fails. -/
lemma iappend_spec (h : Built st) (hi : i < st.freeinode) :
    (Room st (st.view.mem i).size ((st.view.mem i).size + p.length) ∧
      ∃ st', iappend i p st = some st' ∧ Appended i p st st') ∨
    (¬ Room st (st.view.mem i).size ((st.view.mem i).size + p.length) ∧
      iappend i p st = none) := by
  have hi' : i < 200 := Nat.lt_of_lt_of_le hi h.bounded
  have him : i ∈ inodes := mem_inodes.mpr hi'
  have hloop := (h.growing him fun k => p.getD k 0).loop h.consistent him (Nat.zero_le _)
    (Nat.sub_le p.length 0)
  simp only [Nat.add_zero, drop_zero] at hloop
  rw [iappend, rinode_eq hi', ← view_mem hi']
  rcases hloop with ⟨hroom, din, st1, heq, hg⟩ | ⟨hroom, heq⟩
  · refine .inl ⟨hroom, _, ?_, hg.finish h hi rfl⟩
    simp only [bind_eq_bind, bind_some, heq, winode_eq hi']
    rfl
  · refine .inr ⟨hroom, ?_⟩
    simp only [bind_eq_bind, bind_some, heq, bind_none]

end

end CshellXv6.Fs.Mkfs
