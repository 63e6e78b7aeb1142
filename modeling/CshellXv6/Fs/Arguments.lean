import CshellXv6.Fs.Append

/-! # The files of mkfs

What `mkfs` has built after each argument: the root directory lists the files so far, and
each of them has its bytes (`Holds`). An argument is added, or it fails an assertion or
the blocks do not suffice, and which of these is known from its name and its length
(`Accepts`).
-/

namespace CshellXv6.Fs.Mkfs

open Lib Function List Option

/-! ## `ialloc` -/

/-- An inode of type `type` has been made. -/
structure Created (type : Int) (st st' : State) : Prop where
  built : Built st'
  freeinode : st'.freeinode = st.freeinode + 1
  freeblock : st'.freeblock = st.freeblock
  contents : ∀ j ∈ inodes, st'.view.contents j = st.view.contents j
  type : (st'.view.mem st.freeinode).type = type
  others : ∀ j, j ≠ st.freeinode → (st'.view.mem j).type = (st.view.mem j).type
  low : ∀ x, x < 33 → st'.disk x = st.disk x

section

variable {st st' st'' : State} {i n m : Nat} {p q : List UInt8}

lemma ialloc_spec (type : Int) (h : Built st) (hlt : st.freeinode < 200)
    (htype : -2 ^ 15 ≤ type ∧ type < 2 ^ 15) :
    ∃ st', ialloc type st = some (st.freeinode, st') ∧ Created type st st' := by
  obtain ⟨ip, hip⟩ : ∃ ip : Inode, ip = { blank with type := type, nlink := 1 } := ⟨_, rfl⟩
  obtain ⟨st', hst⟩ : ∃ st' : State, st' = { st with
      disk := iupdate sb st.freeinode ip st.disk
      freeinode := st.freeinode + 1 } := ⟨_, rfl⟩
  have hfits : ip.Fits := by
    rw [hip]
    constructor
    · exact htype
    all_goals simp [blank]
  have hself : st'.view.mem st.freeinode = ip := by
    rw [view_mem hlt, hst, dinode_iupdate_self hfits]
  have hmem : ∀ j, j ≠ st.freeinode → st'.view.mem j = st.view.mem j := by
    intro j hj
    by_cases hj' : j < 200
    · rw [view_mem hj', view_mem hj', hst, dinode_iupdate_of_ne hj]
    · rw [view_mem_of_le (by omega), view_mem_of_le (by omega)]
  have hblank := h.free st.freeinode (Nat.le_refl _)
  have hblock := iblock_bounds hlt
  have hhigh : ∀ x, 46 ≤ x → st'.view.disk x = st.view.disk x := by
    intro x hx
    have hdisk : st'.view.disk = iupdate sb st.freeinode ip st.view.disk := by
      rw [hst]
      exact marked_iupdate hlt
    rw [hdisk]
    exact iupdate_of_ne (by omega)
  -- a blank inode has no blocks, and neither has the new one
  have hrefs : refs inodes st'.view = refs inodes st.view := by
    refine h.consistent.refs_eq ?_ hhigh
    intro j _ pl
    by_cases hj : j = st.freeinode
    · rw [hj, hself, hblank, hip]
      rfl
    · rw [hmem j hj]
  have hsize : ∀ j, (st'.view.mem j).size = (st.view.mem j).size := by
    intro j
    by_cases hj : j = st.freeinode
    · rw [hj, hself, hblank, hip]
    · rw [hmem j hj]
  refine ⟨st', ?_, ?_⟩
  · rw [ialloc, winode_eq hlt, hst, hip]
    rfl
  constructor
  · constructor
    · refine h.consistent.congr sb_valid hrefs ?_ fun j _ => hsize j
      intro c _
      exact bit_congr (hhigh _ (Nat.le_add_left _ _))
    · rw [hst] at hrefs hhigh ⊢
      exact h.ordered.congr hrefs hhigh
    · intro j hj bn
      rw [hrefs, hsize]
      exact h.data j hj bn
    · intro j hj
      rw [hrefs, hsize]
      exact h.indirect j hj
    · rw [hst]
      exact hlt
    intro j hj
    rw [hst] at hj
    dsimp only at hj
    rw [hmem j (by omega)]
    exact h.free j (by omega)
  · rw [hst]
  · rw [hst]
  · intro j hj
    refine contents_congr (hsize j) ?_
    intro o ho
    have hne := h.consistent.ref_ne_zero hj ho
    have hdata := (h.consistent.used _ hne).1
    rw [sb_dataStart] at hdata
    rw [byte_eq hj, byte_eq hj, hrefs, hhigh _ (by omega)]
  · rw [hself, hip]
  · intro j hj
    rw [hmem j hj]
  · intro x hx
    rw [hst]
    exact iupdate_of_ne (by omega)

/-! ## Copying a file -/

lemma Appended.refl (h : Built st) : Appended i [] st st where
  built := h
  freeinode := rfl
  contents := (append_nil _).symm
  others := fun _ _ _ => rfl
  type := fun _ => rfl
  count := rfl
  low := fun _ _ => rfl

lemma Appended.size (h : Appended i p st st') :
    (st'.view.mem i).size = (st.view.mem i).size + p.length := by
  rw [← length_contents, h.contents, length_append, length_contents]

lemma Appended.trans (h : Appended i p st st') (h' : Appended i q st' st'') :
    Appended i (p ++ q) st st'' := by
  constructor
  · exact h'.built
  · rw [h'.freeinode, h.freeinode]
  · rw [h'.contents, h.contents, append_assoc]
  · intro j hj hji
    rw [h'.others j hj hji, h.others j hj hji]
  · intro j
    rw [h'.type, h.type]
  · have h1 := h.count
    have h2 := h'.count
    rw [h.size, Nat.add_assoc] at h2
    rw [length_append]
    omega
  · intro x hx
    rw [h'.low x hx, h.low x hx]

/-- Having room for two parts is having room for one after the other. -/
lemma Appended.room (h : Appended i p st st') :
    Room st' (st'.view.mem i).size ((st'.view.mem i).size + n) ↔
      Room st (st.view.mem i).size ((st.view.mem i).size + (p.length + n)) := by
  have hcount := h.count
  rw [h.size]
  unfold Room
  rw [Nat.add_assoc]
  omega

lemma Built.room (h : Built st) (hi : i ∈ inodes) :
    Room st (st.view.mem i).size (st.view.mem i).size :=
  ⟨h.consistent.bounded i hi, Nat.add_le_add_right h.ordered.fits _⟩

lemma Room.mono (h : Room st i n) (hmn : m ≤ n) : Room st i m := by
  have := blocksFor_mono hmn
  unfold Room at h ⊢
  omega

/-- All chunks are appended, or there is no room for them. -/
lemma copyFile_spec (bufs : List (List UInt8)) (h : Built st) (hi : i < st.freeinode) :
    (Room st (st.view.mem i).size ((st.view.mem i).size + bufs.flatten.length) ∧
      ∃ st', copyFile i bufs st = some st' ∧ Appended i bufs.flatten st st') ∨
    (¬ Room st (st.view.mem i).size ((st.view.mem i).size + bufs.flatten.length) ∧
      copyFile i bufs st = none) := by
  induction bufs generalizing st with
  | nil =>
    have hi' := Nat.lt_of_lt_of_le hi h.bounded
    exact .inl ⟨h.room (mem_inodes.mpr hi'), st, rfl, Appended.refl h⟩
  | cons buf bufs ih =>
    rw [copyFile, flatten_cons, length_append]
    rcases iappend_spec (p := buf) h hi with ⟨hroom, st1, heq, ha⟩ | ⟨hroom, heq⟩
    · rw [heq, bind_some]
      have hrest := ih ha.built (ha.freeinode.symm ▸ hi)
      rw [ha.room] at hrest
      rcases hrest with ⟨hroom', st2, heq', ha'⟩ | hfail
      · exact .inl ⟨hroom', st2, heq', ha.trans ha'⟩
      · exact .inr hfail
    · right
      rw [heq, bind_none]
      exact ⟨fun hall => hroom (hall.mono (by omega)), rfl⟩

end

/-! ## The loop over the arguments -/

/-- The bytes of a file. -/
def Input.bytes (f : Input) : List UInt8 := (f.reads.getD []).flatten

/-- The file can be opened, and its name passes the assertions. -/
def Input.Passes (f : Input) : Prop :=
  slash ∉ f.shortname ∧ f.reads.isSome ∧ f.name.length ≤ 14

/-- The root directory with entries for `files`, of which the first is inode 2. -/
def listing (files : List Input) : List UInt8 :=
  dirent rootIno dot ++ dirent rootIno dotdot ++
    (files.mapIdx fun k f => dirent (k + 2) f.name).flatten

/-- The data blocks that `files` and the root directory take. -/
def blocksOf (files : List Input) : Nat :=
  blocksFor (16 * (files.length + 2)) + (files.map fun f => blocksFor f.bytes.length).sum

/-- `mkfs` gets through: the files pass the assertions, that of `iappend` on `MAXFILE`
among them, and there are blocks for them. -/
structure Accepted (files : List Input) : Prop where
  passes : ∀ f ∈ files, f.Passes
  sizes : ∀ f ∈ files, f.bytes.length ≤ 268 * 1024
  fits : nmeta + blocksOf files ≤ fsSize

/-- What there is after the arguments `files`. -/
structure Holds (files : List Input) (st : State) : Prop where
  built : Built st
  freeinode : st.freeinode = files.length + 2
  root : st.view.contents rootIno = listing files
  contents : ∀ k (hk : k < files.length), st.view.contents (k + 2) = files[k].bytes
  rootType : (st.view.mem rootIno).type = tDir
  types : ∀ k, k < files.length → (st.view.mem (k + 2)).type = tFile
  count : st.freeblock = nmeta + blocksOf files
  superblock : st.disk 1 = superblockBuf

variable {p : List UInt8} {x i : Nat} {st : State}

section

variable {files fs : List Input} {f : Input} {st : State}

lemma fsSize_eq : fsSize = 2000 := rfl

lemma rootIno_eq : rootIno = 1 := rfl

@[simp] lemma length_dirent (inum : Nat) (name : List UInt8) : (dirent inum name).length = 16 := by
  simp [dirent, Dirent.toBytes, length_strncpy]

lemma listing_concat :
    listing (files ++ [f]) = listing files ++ dirent (files.length + 2) f.name := by
  simp [listing, mapIdx_concat]

lemma length_listing : (listing files).length = 16 * (files.length + 2) := by
  induction files using List.reverseRecOn with
  | nil => simp [listing]
  | append_singleton files f ih =>
    rw [listing_concat, length_append, ih, length_dirent, length_append, length_singleton]
    omega

lemma blocksOf_concat : blocksOf (files ++ [f]) + blocksFor (16 * (files.length + 2)) =
    blocksOf files + blocksFor (16 * (files.length + 2) + 16) + blocksFor f.bytes.length := by
  have hnext : 16 * (files.length + 1 + 2) = 16 * (files.length + 2) + 16 := by omega
  simp only [blocksOf, length_append, length_singleton, map_append,
    map_singleton, sum_append, sum_singleton, hnext]
  omega

lemma blocksOf_le_append : blocksOf files ≤ blocksOf (files ++ fs) := by
  have hmono : blocksFor (16 * (files.length + 2)) ≤ blocksFor (16 * ((files ++ fs).length + 2)) :=
    blocksFor_mono (by rw [length_append]; omega)
  simp only [blocksOf, map_append, sum_append]
  omega

lemma blocksFor_zero : blocksFor 0 = 0 := rfl

section

variable {st1 st2 st3 : State} {bufs : List (List UInt8)}

lemma Holds.root_size (h : Holds files st) (hc : Created tFile st st1) :
    (st1.view.mem rootIno).size = 16 * (files.length + 2) := by
  have hroot : rootIno ∈ inodes := by decide
  rw [← length_contents, hc.contents _ hroot, h.root, length_listing]

/-- The new inode is empty until the file is copied. -/
lemma Holds.new_empty (h : Holds files st) (hlen : files.length < 198) (hc : Created tFile st st1)
    (hr : Appended rootIno p st1 st2) : st2.view.contents st.freeinode = [] := by
  have hinum := h.freeinode
  have hin : st.freeinode ∈ inodes := mem_inodes.mpr (by omega)
  have hne : st.freeinode ≠ rootIno := by
    rw [rootIno_eq]
    omega
  rw [hr.others _ hin hne, hc.contents _ hin, FsState.contents, h.built.free _ (Nat.le_refl _)]
  rfl

lemma Holds.new_size (h : Holds files st) (hlen : files.length < 198) (hc : Created tFile st st1)
    (hr : Appended rootIno p st1 st2) : (st2.view.mem st.freeinode).size = 0 := by
  rw [← length_contents, h.new_empty hlen hc hr, length_nil]

/-- The blocks in use when the entry of the new file has been written. -/
lemma Holds.freeblock (h : Holds files st) (hc : Created tFile st st1)
    (hr : Appended rootIno (dirent st.freeinode f.name) st1 st2) :
    st2.freeblock + blocksFor f.bytes.length = nmeta + blocksOf (files ++ [f]) := by
  have h1 := hr.count
  have h2 := h.count
  have h3 := @blocksOf_concat files f
  rw [h.root_size hc, length_dirent, hc.freeblock] at h1
  omega

/-- The entry is in the root directory, and the bytes are in the file. -/
lemma Holds.add (h : Holds files st) (hlen : files.length < 198) (hbytes : f.bytes = bufs.flatten)
    (hc : Created tFile st st1) (hr : Appended rootIno (dirent st.freeinode f.name) st1 st2)
    (hf : Appended st.freeinode bufs.flatten st2 st3) : Holds (files ++ [f]) st3 := by
  have hinum := h.freeinode
  have hroot : rootIno ∈ inodes := by decide
  have hne : rootIno ≠ st.freeinode := by
    rw [rootIno_eq]
    omega
  have hmem : ∀ k, k ≤ files.length → k + 2 ∈ inodes := fun k hk => mem_inodes.mpr (by omega)
  constructor
  · exact hf.built
  · rw [hf.freeinode, hr.freeinode, hc.freeinode, hinum, length_append, length_singleton]
  · rw [hf.others _ hroot hne, hr.contents, hc.contents _ hroot, h.root, hinum, listing_concat]
  · intro k hk
    rw [length_append, length_singleton] at hk
    by_cases hlast : k = files.length
    · subst hlast
      have hcontents := hf.contents
      rw [h.new_empty hlen hc hr, hinum, nil_append] at hcontents
      rw [hcontents, getElem_concat_length rfl, hbytes]
    have hk' : k < files.length := by omega
    rw [hf.others _ (hmem k hk'.le) (by omega),
      hr.others _ (hmem k hk'.le) (by rw [rootIno_eq]; omega), hc.contents _ (hmem k hk'.le),
      h.contents k hk', getElem_append_left hk']
  · rw [hf.type, hr.type, hc.others _ hne, h.rootType]
  · intro k hk
    rw [length_append, length_singleton] at hk
    rw [hf.type, hr.type]
    by_cases hlast : k = files.length
    · rw [hlast, ← hinum, hc.type]
    · rw [hc.others _ (by omega), h.types k (by omega)]
  · have hcount := hf.count
    rw [h.new_size hlen hc hr, Nat.zero_add, blocksFor_zero, ← hbytes] at hcount
    rw [← h.freeblock hc hr, ← hcount, Nat.add_zero]
  · rw [hf.low 1 (by decide), hr.low 1 (by decide), hc.low 1 (by decide), h.superblock]

end

/-- What the loop asks of one more file. -/
def Accepts (files : List Input) (f : Input) : Prop :=
  f.Passes ∧ f.bytes.length ≤ 268 * 1024 ∧ nmeta + blocksOf (files ++ [f]) ≤ fsSize

/-- One more file, or it is not accepted. -/
lemma addFile_spec (h : Holds files st) (hlen : files.length < 198) :
    (Accepts files f ∧ ∃ st', addFile f st = some st' ∧ Holds (files ++ [f]) st') ∨
    (¬ Accepts files f ∧ addFile f st = none) := by
  rw [addFile]
  by_cases hslash : slash ∈ f.shortname
  · rw [if_pos hslash]
    exact .inr ⟨fun hok => hok.1.1 hslash, rfl⟩
  rw [if_neg hslash]
  cases hreads : f.reads with
  | none =>
    refine .inr ⟨fun hok => ?_, rfl⟩
    have := hok.1.2.1
    rw [hreads] at this
    cases this
  | some bufs =>
    rw [bind_some]
    by_cases hname : f.name.length ≤ 14
    · rw [if_pos hname]
      have hpasses : f.Passes := ⟨hslash, by rw [hreads]; rfl, hname⟩
      have hbytes : f.bytes = bufs.flatten := by rw [Input.bytes, hreads, getD_some]
      have hinum := h.freeinode
      obtain ⟨st1, heq, hc⟩ := ialloc_spec tFile h.built (by omega) (by decide)
      have hinum1 := hc.freeinode
      rw [heq, bind_some]
      dsimp only
      have hroot : rootIno < st1.freeinode := by
        rw [rootIno_eq]
        omega
      rcases iappend_spec (p := dirent st.freeinode f.name) hc.built hroot with
        ⟨-, st2, heq2, hr⟩ | ⟨hroom, heq2⟩
      · rw [heq2, bind_some]
        have hinum2 := hr.freeinode
        have hblocks := h.freeblock hc hr
        rcases copyFile_spec bufs hr.built (by omega : st.freeinode < st2.freeinode)
          with ⟨hroom, st3, heq3, hf⟩ | ⟨hroom, heq3⟩
        · have hnext := h.add hlen hbytes hc hr hf
          rw [h.new_size hlen hc hr, Nat.zero_add, ← hbytes] at hroom
          refine .inl ⟨⟨hpasses, hroom.1, ?_⟩, st3, heq3, hnext⟩
          rw [← hnext.count]
          exact hnext.built.ordered.fits
        refine .inr ⟨fun hok => hroom ?_, heq3⟩
        rw [h.new_size hlen hc hr, Nat.zero_add, ← hbytes]
        refine ⟨hok.2.1, ?_⟩
        rw [hblocks]
        exact hok.2.2
      · -- there is no block for the entry, so there is none for the file either
        right
        rw [heq2, bind_none]
        refine ⟨fun hok => hroom ?_, rfl⟩
        have h1 := h.count
        have h2 := @blocksOf_concat files f
        have h3 := hok.2.2
        rw [fsSize_eq] at h3
        rw [h.root_size hc, length_dirent]
        refine ⟨by omega, ?_⟩
        rw [hc.freeblock]
        omega
    · rw [if_neg hname]
      exact .inr ⟨fun hok => hname hok.1.2.2, rfl⟩

/-- All files, or one of them is not accepted. -/
lemma addFiles_spec (fs : List Input) (h : Holds files st) (hlen : files.length + fs.length ≤ 198) :
    (((∀ f ∈ fs, f.Passes ∧ f.bytes.length ≤ 268 * 1024) ∧
        nmeta + blocksOf (files ++ fs) ≤ fsSize) ∧
      ∃ st', addFiles fs st = some st' ∧ Holds (files ++ fs) st') ∨
    (¬ ((∀ f ∈ fs, f.Passes ∧ f.bytes.length ≤ 268 * 1024) ∧
        nmeta + blocksOf (files ++ fs) ≤ fsSize) ∧
      addFiles fs st = none) := by
  induction fs generalizing files st with
  | nil =>
    left
    rw [append_nil]
    refine ⟨⟨forall_mem_nil _, ?_⟩, st, rfl, h⟩
    rw [← h.count]
    exact h.built.ordered.fits
  | cons f fs ih =>
    rw [length_cons] at hlen
    have happend : files ++ f :: fs = (files ++ [f]) ++ fs := by simp
    rw [addFiles, happend, forall_mem_cons]
    rcases addFile_spec (f := f) h (by omega) with ⟨hok, st1, heq, hnext⟩ | ⟨hbad, heq⟩
    · rw [heq, bind_some]
      have hrest := ih hnext (by rw [length_append, length_singleton]; omega)
      simp only [hok.1, hok.2.1, true_and]
      exact hrest
    right
    rw [heq, bind_none]
    refine ⟨fun hall => hbad ⟨hall.1.1.1, hall.1.1.2, ?_⟩, rfl⟩
    exact (Nat.add_le_add_left blocksOf_le_append _).trans hall.2

end

/-! ## The root directory -/

lemma getInode_zero (o : Nat) : getInode Bytes.zero o = blank := by
  simp [getInode, Bytes.load_zero, asShort, blank]

lemma start_disk_eq : start.disk = update (fun _ => Bytes.zero) 1 superblockBuf := rfl

lemma start_disk (hx : x ≠ 1) : start.disk x = Bytes.zero := by
  rw [start_disk_eq, update_of_ne hx]

lemma start_mem (j : Nat) : start.view.mem j = blank := by
  by_cases hj : j < 200
  · have hblock := iblock_bounds hj
    rw [view_mem hj, dinode, start_disk (by omega), getInode_zero]
  · exact view_mem_of_le (by omega)

lemma start_refs (q : Nat × Place) : refs inodes start.view q = 0 := by
  obtain ⟨j, pl⟩ := q
  by_cases hj : j ∈ inodes
  · rw [refs_of_mem hj, start_mem]
    cases pl with
    | indirect => rfl
    | data bn => simp [Inode.ref, Inode.block, blank]
  · exact refs_of_notMem hj pl

lemma start_bit (hx : x < 8192) : bit sb start.view.disk x = decide (x < 47) :=
  bit_marked (by decide) hx

lemma start_built : Built start := by
  constructor
  · constructor
    · intro q r hq
      exact absurd (start_refs q) hq
    · intro q hq
      exact absurd (start_refs q) hq
    · intro b hb
      rw [sb_dataStart] at hb
      rw [start_bit (by omega), decide_eq_true hb]
    · intro i _ bn hbn
      rw [start_mem] at hbn
      cases hbn
    intro i _
    rw [start_mem]
    exact Nat.zero_le _
  · constructor
    · exact Nat.le_refl 47
    · exact (by decide : 47 ≤ 2000)
    · intro x hx
      exact start_bit hx
    · intro x hx hx'
      have : x < 47 := hx'
      omega
    intro x hx _
    have : 47 ≤ x := hx
    have hsame : start.view.disk x = start.disk x := marked_of_ne (by omega)
    rw [hsame, start_disk (by omega)]
  · intro i _ bn hne
    exact absurd (start_refs _) hne
  · intro i _ hne
    exact absurd (start_refs _) hne
  · exact (by decide : 1 ≤ 200)
  · intro j _
    exact start_mem j

lemma iappend_of_room (h : Built st) (hi : i < st.freeinode)
    (hroom : Room st (st.view.mem i).size ((st.view.mem i).size + p.length)) :
    ∃ st', iappend i p st = some st' ∧ Appended i p st st' := by
  rcases iappend_spec (p := p) h hi with ⟨-, hok⟩ | ⟨hfull, -⟩
  · exact hok
  · exact absurd hroom hfull

/-- Before the first argument. -/
lemma makeRoot_spec : ∃ st, makeRoot start = some st ∧ Holds [] st := by
  have hroot : rootIno ∈ inodes := by decide
  obtain ⟨st1, heq, hc⟩ := ialloc_spec tDir start_built (by decide) (by decide)
  have hinum1 : st1.freeinode = 2 := hc.freeinode
  have hblock1 : st1.freeblock = 47 := hc.freeblock
  have hempty : st1.view.contents rootIno = [] := by
    rw [hc.contents _ hroot, FsState.contents, start_mem]
    rfl
  have hsize1 : (st1.view.mem rootIno).size = 0 := by
    rw [← length_contents, hempty, length_nil]
  obtain ⟨st2, heq2, ha⟩ := iappend_of_room (i := rootIno) (p := dirent rootIno dot) hc.built
    (by rw [hinum1]; decide) (by rw [hsize1, length_dirent, Room, hblock1]; decide)
  have hinum2 : st2.freeinode = 2 := ha.freeinode.trans hinum1
  have hsize2 : (st2.view.mem rootIno).size = 16 := by
    rw [ha.size, hsize1, length_dirent]
  have hblock2 : st2.freeblock = 48 := by
    have hcount := ha.count
    rw [hsize1, length_dirent, hblock1] at hcount
    exact hcount
  obtain ⟨st3, heq3, hb⟩ := iappend_of_room (i := rootIno) (p := dirent rootIno dotdot) ha.built
    (by rw [hinum2]; decide) (by rw [hsize2, length_dirent, Room, hblock2]; decide)
  refine ⟨st3, ?_, ?_⟩
  · have hfirst : start.freeinode = rootIno := rfl
    rw [makeRoot, heq, bind_some]
    dsimp only
    rw [if_pos hfirst, hfirst, heq2, bind_some, heq3]
  constructor
  · exact hb.built
  · exact hb.freeinode.trans hinum2
  · rw [hb.contents, ha.contents, hempty]
    simp [listing]
  · intro k hk
    cases hk
  · rw [hb.type, ha.type]
    exact hc.type
  · intro k hk
    cases hk
  · have hcount := hb.count
    have h16 : blocksFor 16 = 1 := rfl
    have h32 : blocksFor (16 + 16) = 1 := rfl
    have hnil : nmeta + blocksOf [] = 48 := rfl
    rw [hsize2, length_dirent, hblock2] at hcount
    omega
  · rw [hb.low 1 (by decide), ha.low 1 (by decide), hc.low 1 (by decide), start_disk_eq,
      update_self]

end CshellXv6.Fs.Mkfs
