import CshellXv6.Fs.Contents

/-! # Truncation

`itrunc` frees the direct blocks, the blocks of the indirect block and the
indirect block itself. It is one list of blocks that are freed one after the
other: the addresses of all places of the inode, in the order of the loops.
-/

namespace CshellXv6.Fs

open Lib Function List Option

/-- Free the blocks one after the other. -/
def freeAll (sb : Superblock) (d : Disk) (bs : List Nat) : Option Disk := bs.foldlM (bfree sb) d

/-- The places of an inode, as `itrunc` goes through them. -/
def places : List Place :=
  (List.range 12).map .data ++ (List.range 256).map (fun j => .data (12 + j)) ++ [.indirect]

/-- The blocks of an inode. -/
def Inode.blocks (ip : Inode) (d : Disk) : List Nat :=
  (places.map (ip.ref d)).filter (· ≠ 0)

section

variable {sb : Superblock} {files : Finset Nat} {s s' : FsState} {i j : Nat} {d d' : Disk}
variable {bs bs' js : List Nat} {ip : Inode} {b x : Nat} {ks : List (Fin 13)} {a : Block}
  {k : Fin 13} {pl : Place}

@[simp] lemma freeAll_cons :
    freeAll sb d (b :: bs) = (bfree sb d b).bind fun d => freeAll sb d bs := rfl

lemma freeAll_append :
    freeAll sb d (bs ++ bs') = (freeAll sb d bs).bind fun d => freeAll sb d bs' := by
  simp [freeAll, foldlM_append]

lemma bfree_eq_some (h : bit sb d b = true) : bfree sb d b = some (clearBit sb d b) := by
  rw [bfree, if_neg (by simp [h])]

/-- Different blocks that are marked can be freed. -/
lemma freeAll_spec (hnodup : bs.Nodup) (hbits : ∀ b ∈ bs, bit sb d b = true) :
    ∃ d', freeAll sb d bs = some d' ∧ (∀ c, bit sb d' c = (decide (c ∉ bs) && bit sb d c)) := by
  induction bs generalizing d with
  | nil => exact ⟨d, rfl, fun c => by simp⟩
  | cons b bs ih =>
    rw [nodup_cons] at hnodup
    have hrest : ∀ c ∈ bs, bit sb (clearBit sb d b) c = true := by
      intro c hc
      have hne : c ≠ b := by
        rintro rfl
        exact hnodup.1 hc
      rw [bit_clearBit, decide_eq_true hne, hbits c (mem_cons_of_mem b hc)]
      rfl
    obtain ⟨d', heq, hd'⟩ := ih hnodup.2 hrest
    refine ⟨d', ?_, fun c => ?_⟩
    · rw [freeAll_cons, bfree_eq_some (hbits b mem_cons_self), bind_some, heq]
    rw [hd' c, bit_clearBit]
    by_cases hcb : c = b
    all_goals simp [hcb]

/-- Only the bitmap changes. -/
lemma freeAll_same (h : freeAll sb d bs = some d')
    (hx : ∀ b ∈ bs, x ≠ bblock sb b) : d' x = d x := by
  induction bs generalizing d with
  | nil =>
    cases h
    rfl
  | cons b bs ih =>
    rw [freeAll_cons] at h
    obtain ⟨d1, hfree, hrest⟩ := bind_eq_some_iff.mp h
    rw [ih hrest fun c hc => hx c (mem_cons_of_mem b hc)]
    rw [bfree] at hfree
    split at hfree
    · cases hfree
    · cases hfree
      exact setByte_of_ne (hx b mem_cons_self)

/-! ## The loops of `itrunc` -/

/-- The addresses `ks` of an inode are set to 0. -/
def Inode.clear (ip : Inode) (ks : List (Fin 13)) : Inode :=
  ks.foldl (fun ip k => ip.setAddr k 0) ip

lemma itruncDirect_eq (h : ks.Nodup) :
    itruncDirect sb ip d ks =
      (freeAll sb d ((ks.map ip.addrs).filter (· ≠ 0))).map fun d => (ip.clear ks, d) := by
  induction ks generalizing ip d with
  | nil => rfl
  | cons k ks ih =>
    rw [nodup_cons] at h
    have hkeep : ks.map (ip.setAddr k 0).addrs = ks.map ip.addrs := by
      refine map_congr_left ?_
      intro k' hk'
      refine update_of_ne ?_ _ _
      rintro rfl
      exact h.1 hk'
    have hclear : (ip.clear (k :: ks)) = (ip.setAddr k 0).clear ks := rfl
    rw [itruncDirect]
    split
    next hne =>
      rw [map_cons, filter_cons_of_pos (by simpa using hne), freeAll_cons, hclear]
      cases bfree sb d (ip.addrs k) with
      | none => rfl
      | some d1 => rw [bind_some, bind_some, ih h.2, hkeep]
    next hzero =>
      have hzero' : ip.addrs k = 0 := not_not.mp hzero
      have hsame : ip.setAddr k 0 = ip := by
        rw [Inode.setAddr, ← hzero', update_eq_self]
      rw [map_cons, filter_cons_of_neg (by simp [hzero']), hclear, hsame, ih h.2]

lemma itruncEntries_eq :
    itruncEntries sb a d js = freeAll sb d ((js.map (word a)).filter (· ≠ 0)) := by
  induction js generalizing d with
  | nil => rfl
  | cons j js ih =>
    rw [itruncEntries]
    split
    next hne =>
      rw [map_cons, filter_cons_of_pos (by simpa using hne), freeAll_cons]
      cases bfree sb d (word a j) with
      | none => rfl
      | some d1 => rw [bind_some, bind_some, ih]
    next hzero =>
      rw [map_cons, filter_cons_of_neg (by simpa using hzero), ih]

/-- The blocks that `itrunc` frees when it has come to the indirect block. -/
def Inode.indirectBlocks (ip : Inode) (d : Disk) : List Nat :=
  if ip.addrs 12 = 0 then []
  else ((List.range 256).map (word (d (ip.addrs 12)))).filter (· ≠ 0) ++ [ip.addrs 12]

lemma itruncIndirect_eq :
    itruncIndirect sb ip d =
      (freeAll sb d (ip.indirectBlocks d)).map fun d => (ip.setAddr 12 0, d) := by
  unfold itruncIndirect Inode.indirectBlocks
  by_cases h12 : ip.addrs 12 = 0
  · have hsame : ip.setAddr 12 0 = ip := by
      rw [Inode.setAddr, ← h12, update_eq_self]
    rw [if_neg (not_not.mpr h12), if_pos h12, hsame]
    rfl
  rw [if_pos h12, if_neg h12, itruncEntries_eq, freeAll_append, Option.map_bind]
  congr 1
  funext d'
  rw [comp_apply, freeAll_cons]
  cases bfree sb d' (ip.addrs 12) with
  | none | some d'' => rfl

/-- An inode without blocks. -/
def Inode.empty (ip : Inode) : Inode := { ip with size := 0, addrs := fun _ => 0 }

lemma nodup_direct : direct.Nodup := by decide

lemma mem_direct : k ∈ direct ↔ k ≠ 12 := by
  revert k
  decide

lemma Inode.clear_eq (ip : Inode) (ks : List (Fin 13)) :
    ip.clear ks = { ip with addrs := fun k => if k ∈ ks then 0 else ip.addrs k } := by
  induction ks generalizing ip with
  | nil => simp [Inode.clear]
  | cons k ks ih =>
    rw [Inode.clear, foldl_cons, ← Inode.clear, ih]
    simp only [Inode.setAddr, Inode.mk.injEq, true_and]
    funext k'
    by_cases hk' : k' ∈ ks
    · simp [hk']
    by_cases heq : k' = k
    · simp [heq]
    · simp [hk', heq]

/-- The addresses of the direct blocks come first. -/
lemma map_direct : ((List.range 12).map .data).map (ip.ref d) = direct.map ip.addrs := by
  rw [List.map_map, direct, List.map_map]
  apply ext_getElem
  · simp
  intro k hk _
  have hk' : k < 12 := by simpa using hk
  simp [Inode.ref, Inode.block, hk']

/-- The entries of the indirect block follow, if there is one. -/
lemma map_entries :
    ((List.range 256).map fun j => .data (12 + j)).map (ip.ref d) =
      (List.range 256).map fun j => if ip.addrs 12 = 0 then 0 else word (d (ip.addrs 12)) j := by
  rw [List.map_map]
  refine map_congr_left ?_
  intro j hj
  have hj' : j < 256 := mem_range.mp hj
  simp only [comp_apply, Inode.ref, Inode.block]
  rw [dif_neg (by omega), Nat.add_sub_cancel_left]
  split
  next hpos => rw [if_neg hpos.2]
  next hneg => rw [if_pos (by simpa [hj'] using hneg)]

/-- The blocks of an inode, in the order of `itrunc`. -/
lemma Inode.blocks_eq :
    ip.blocks d = (direct.map ip.addrs).filter (· ≠ 0) ++ ip.indirectBlocks d := by
  rw [Inode.blocks, places, map_append, map_append, filter_append,
    filter_append, map_direct, map_entries, append_assoc]
  congr 1
  unfold Inode.indirectBlocks
  by_cases h12 : ip.addrs 12 = 0
  · have hnone : ∀ bs : List Nat, (∀ b ∈ bs, b = 0) → bs.filter (· ≠ 0) = [] := by
      intro bs hbs
      rw [filter_eq_nil_iff]
      intro b hb
      simp [hbs b hb]
    rw [if_pos h12, hnone, hnone]
    · rfl
    · intro b hb
      rw [mem_singleton.mp hb]
      exact h12
    intro b hb
    obtain ⟨j, -, rfl⟩ := List.mem_map.mp hb
    exact if_pos h12
  · simp only [h12, if_false]
    rw [map_singleton, Inode.ref, filter_cons_of_pos (by simpa using h12), filter_nil]

/-- `itrunc` frees the blocks of the inode, if the indirect block is not in the
bitmap. -/
lemma itrunc_eq (hind : ip.addrs 12 ≠ 0 → ∀ b ∈ ip.blocks d, ip.addrs 12 ≠ bblock sb b) :
    itrunc sb i ip d =
      (freeAll sb d (ip.blocks d)).map fun d => (ip.empty, iupdate sb i ip.empty d) := by
  have h12 : (ip.clear direct).addrs 12 = ip.addrs 12 := by
    rw [Inode.clear_eq]
    simp [mem_direct]
  have hempty : { (ip.clear direct).setAddr 12 0 with size := 0 } = ip.empty := by
    rw [Inode.clear_eq]
    simp only [Inode.setAddr, Inode.empty, Inode.mk.injEq, true_and]
    funext k
    by_cases hk : k = 12
    · simp [hk]
    · simp [hk, mem_direct]
  rw [itrunc, itruncDirect_eq nodup_direct, Inode.blocks_eq, freeAll_append]
  cases hfree : freeAll sb d ((direct.map ip.addrs).filter (· ≠ 0)) with
  | none => rfl
  | some d1 =>
    -- the indirect block is as before
    have hrest : (ip.clear direct).indirectBlocks d1 = ip.indirectBlocks d := by
      unfold Inode.indirectBlocks
      rw [h12]
      split
      · rfl
      next hne =>
        have hsame : d1 (ip.addrs 12) = d (ip.addrs 12) := by
          refine freeAll_same hfree ?_
          intro b hb
          refine hind hne b ?_
          rw [Inode.blocks_eq]
          exact mem_append_left _ hb
        rw [hsame]
    simp only [map_some, bind_some, itruncIndirect_eq, hrest, Option.map_map, comp_def, hempty]

/-! ## `itrunc` on a consistent disk -/

lemma nodup_places : places.Nodup := by
  have hdata : Function.Injective Place.data := fun _ _ h => Place.data.inj h
  have hentry : Function.Injective fun j => Place.data (12 + j) :=
    fun _ _ h => Nat.add_left_cancel (hdata h)
  rw [places, nodup_append, nodup_append]
  refine ⟨⟨nodup_range.map hdata, nodup_range.map hentry, ?_⟩, nodup_singleton _, ?_⟩
  · intro p hp q hq
    obtain ⟨k, hk, rfl⟩ := List.mem_map.mp hp
    obtain ⟨j, -, rfl⟩ := List.mem_map.mp hq
    rw [mem_range] at hk
    intro heq
    have := hdata heq
    omega
  · intro p hp q hq
    rw [mem_singleton.mp hq]
    rintro rfl
    simp at hp

lemma Inode.mem_places (h : ip.ref d pl ≠ 0) : pl ∈ places := by
  cases pl with
  | indirect => simp [places]
  | data bn =>
    have hbn : bn < 268 := by
      by_contra hge
      refine h ?_
      rw [Inode.ref, Inode.block, dif_neg (by omega), if_neg (by omega)]
    simp only [places, mem_append, List.mem_map, mem_range]
    by_cases h12 : bn < 12
    · exact .inl (.inl ⟨bn, h12, rfl⟩)
    · exact .inl (.inr ⟨bn - 12, by omega, by congr 1; omega⟩)

/-- The blocks of a file are those that can be reached from its inode. -/
lemma mem_blocks (hi : i ∈ files) :
    b ∈ (s.mem i).blocks s.disk ↔ b ≠ 0 ∧ ∃ pl, refs files s (i, pl) = b := by
  simp only [refs_of_mem hi, Inode.blocks, mem_filter, List.mem_map, decide_eq_true_eq]
  constructor
  · rintro ⟨⟨pl, -, rfl⟩, hne⟩
    exact ⟨hne, pl, rfl⟩
  · rintro ⟨hne, pl, rfl⟩
    exact ⟨⟨pl, Inode.mem_places hne, rfl⟩, hne⟩

lemma Consistent.nodup_blocks (h : Consistent sb files s) (hi : i ∈ files) :
    ((s.mem i).blocks s.disk).Nodup := by
  rw [Inode.blocks, List.filter_map]
  refine List.Nodup.map_on ?_ (nodup_places.filter _)
  intro p hp q _ heq
  have hne : refs files s (i, p) ≠ 0 := by
    rw [refs_of_mem hi]
    simpa using (mem_filter.mp hp).2
  have := h.exclusive (i, p) (i, q) hne (by rw [refs_of_mem hi, refs_of_mem hi, heq])
  exact (Prod.mk.inj this).2

lemma Inode.ref_empty : ip.empty.ref d pl = 0 := by
  cases pl with
  | indirect => rfl
  | data bn => simp [Inode.ref, Inode.block, Inode.empty]

/-- The inode of file `i` lets go of all its blocks, and these are freed. -/
lemma Consistent.release (hv : sb.Valid) (h : Consistent sb files s) (hi : i ∈ files)
    (hmem : ∀ j, j ≠ i → s'.mem j = s.mem j) (hself : s'.mem i = (s.mem i).empty)
    (hbits : ∀ b, b < sb.size →
      bit sb s'.disk b = (decide (b ∉ (s.mem i).blocks s.disk) && bit sb s.disk b))
    (hdata : ∀ x, sb.dataStart ≤ x → s'.disk x = s.disk x) :
    Consistent sb files s' ∧ ∀ j ∈ files, j ≠ i → s'.contents j = s.contents j := by
  have hnone : ∀ pl, refs files s' (i, pl) = 0 := by
    intro pl
    rw [refs_of_mem hi, hself, Inode.ref_empty]
  have hsame : ∀ q : Nat × Place, q.1 ≠ i → refs files s' q = refs files s q := by
    intro q hq
    refine refs_congr (hmem _ hq) ?_
    intro hne
    exact hdata _ (h.used _ hne).1
  refine ⟨?_, ?_⟩
  · constructor
    · refine h.exclusive.release fun ⟨j, pl⟩ => ?_
      by_cases hj : j = i
      · subst hj
        exact .inr (hnone pl)
      · exact .inl (hsame (j, pl) hj)
    · rintro ⟨j, pl⟩ hne
      have hj : j ≠ i := by
        rintro rfl
        exact hne (hnone pl)
      rw [hsame (j, pl) hj] at hne ⊢
      obtain ⟨h1, h2, h3⟩ := h.used _ hne
      refine ⟨h1, h2, ?_⟩
      -- a block of another file is not freed
      have hnot : refs files s (j, pl) ∉ (s.mem i).blocks s.disk := by
        intro hmem
        obtain ⟨-, pl', heq⟩ := (mem_blocks hi).mp hmem
        exact hj (Prod.mk.inj (h.exclusive _ _ hne heq.symm)).1
      rw [hbits _ h2, decide_eq_true hnot, h3]
      rfl
    · intro b hb
      have hnot : b ∉ (s.mem i).blocks s.disk := by
        intro hmem
        obtain ⟨hne, pl, rfl⟩ := (mem_blocks hi).mp hmem
        have := (h.used _ hne).1
        omega
      rw [hbits b (Nat.lt_of_lt_of_le hb hv.data), decide_eq_true hnot, h.reserved b hb]
      rfl
    · intro j hj bn hbn
      by_cases hji : j = i
      · subst hji
        rw [hself] at hbn
        exact absurd hbn (Nat.not_lt_zero _)
      rw [hmem j hji] at hbn
      rw [hsame _ hji]
      exact h.filled j hj bn hbn
    · intro j hj
      by_cases hji : j = i
      · subst hji
        rw [hself]
        exact Nat.zero_le _
      · rw [hmem j hji]
        exact h.bounded j hj
  · intro j hj hji
    refine contents_congr (by rw [hmem j hji]) ?_
    intro o ho
    have hne := h.ref_ne_zero hj ho
    rw [byte_eq hj, byte_eq hj, hsame _ hji, hdata _ (h.used _ hne).1]

/-- `itrunc` does not panic, the file is empty then, and its blocks have been
freed, and no others. -/
lemma itrunc_spec (hv : sb.Valid) (h : Consistent sb files s) (hsync : Synced sb files s)
    (hi : i ∈ files) :
    ∃ d, itrunc sb i (s.mem i) s.disk = some ((s.mem i).empty, d) ∧
      Kept sb files i s (s.put i (s.mem i).empty d) ∧
      (s.put i (s.mem i).empty d).contents i = [] ∧
      ∀ b, b < sb.size → (bit sb d b = false ↔
        bit sb s.disk b = false ∨ (b ≠ 0 ∧ ∃ pl, refs files s (i, pl) = b)) := by
  have hn := (hsync i hi).1
  have hblock := iblock_lt hv hn
  have hblocks : ∀ b ∈ (s.mem i).blocks s.disk, sb.dataStart ≤ b ∧ b < sb.size ∧
      bit sb s.disk b = true := by
    intro b hb
    obtain ⟨hne, pl, rfl⟩ := (mem_blocks hi).mp hb
    exact h.used _ hne
  obtain ⟨d, hfree, hbits⟩ :=
    freeAll_spec (h.nodup_blocks hi) fun b hb => (hblocks b hb).2.2
  -- the bitmap is neither among the inodes nor among the data
  have hframe : ∀ x, x < sb.bmapstart ∨ sb.dataStart ≤ x → d x = s.disk x := by
    intro x hx
    refine freeAll_same hfree fun b hb => ?_
    have h1 := bblock_lt (hblocks b hb).2.1
    have h2 : sb.bmapstart ≤ bblock sb b := le_bblock
    omega
  have hind : (s.mem i).addrs 12 ≠ 0 →
      ∀ b ∈ (s.mem i).blocks s.disk, (s.mem i).addrs 12 ≠ bblock sb b := by
    intro hne b hb
    have hplace : refs files s (i, .indirect) = (s.mem i).addrs 12 := refs_of_mem hi _
    have h1 := (h.used (i, .indirect) (hplace ▸ hne)).1
    have h2 := bblock_lt (hblocks b hb).2.1
    omega
  have hfits : (s.mem i).empty.Fits := by
    have hold : (s.mem i).Fits := (hsync i hi).2 ▸ dinode_fits
    exact ⟨hold.type, hold.major, hold.minor, hold.nlink, Nat.two_pow_pos 32,
      fun _ => Nat.two_pow_pos 32⟩
  have hbit : ∀ b, bit sb (iupdate sb i (s.mem i).empty d) b =
      (decide (b ∉ (s.mem i).blocks s.disk) && bit sb s.disk b) := by
    intro b
    have hmap : sb.bmapstart ≤ bblock sb b := le_bblock
    rw [← hbits b]
    exact bit_congr (iupdate_of_ne (by omega))
  have hinodes : ∀ j, j < sb.ninodes → j ≠ i →
      dinode sb (iupdate sb i (s.mem i).empty d) j = dinode sb s.disk j := by
    intro j hj hji
    rw [dinode_iupdate_of_ne hji]
    exact dinode_congr (hframe _ (.inl (iblock_lt hv hj)))
  have hdata : ∀ x, sb.dataStart ≤ x → iupdate sb i (s.mem i).empty d x = s.disk x := by
    intro x hx
    have := sb.bmapstart_lt
    rw [iupdate_of_ne (by omega)]
    exact hframe x (.inr hx)
  have hrelease : Consistent sb files (s.put i (s.mem i).empty
      (iupdate sb i (s.mem i).empty d)) ∧ _ :=
    h.release hv hi (fun j hj => put_mem_of_ne hj) put_mem_self (fun b _ => hbit b) hdata
  obtain ⟨hcons, hothers⟩ := hrelease
  refine ⟨iupdate sb i (s.mem i).empty d, ?_, ⟨hcons, ?_, hothers, ?_, ?_, hinodes⟩, ?_, ?_⟩
  · rw [itrunc_eq hind, hfree]
    rfl
  · refine hsync.iupdate hinodes (fun j _ hj => put_mem_of_ne hj) ?_
    rw [put_mem_self, put_disk]
    exact dinode_iupdate_self hfits
  · intro j hj
    exact put_mem_of_ne hj
  · exact ⟨0, fun _ => 0, put_mem_self⟩
  · rw [FsState.contents, put_mem_self]
    rfl
  · intro b _
    rw [hbit, Bool.and_eq_false_iff, decide_eq_false_iff_not, not_not, mem_blocks hi, or_comm]

end

end CshellXv6.Fs
