import CshellXv6.Fs.Truncate
import CshellXv6.Lib.Rules

/-! # Files are byte arrays

A machine whose steps are calls of `writei`, `readi` and `itrunc`, on any of the
files and in any order. Next to it stands what the calls are for: a file is an
array of bytes, and a call changes the array of its file, or looks at it
(`Behaves`). From a consistent disk, no call of the machine panics, and each does
what it does to the arrays.
-/

namespace CshellXv6.Fs.Files

open Lib List Option

/-- The calls; `src` are the bytes to be written. -/
inductive Call where
  | writei (inum : Nat) (src : Nat → UInt8) (off n : Nat)
  | readi (inum off n : Nat)
  | itrunc (inum : Nat)

/-- What the caller gets: the number of bytes written or -1, the bytes that were
read, or nothing. -/
inductive Reply where
  | count (r : Int)
  | bytes (data : List UInt8)
  | none
deriving DecidableEq

/-- One call, on the inode in memory. -/
def call (sb : Superblock) (s : FsState) : Call → Option (Reply × FsState)
  | .writei inum src off n =>
    (writei sb inum (s.mem inum) src off n s.disk).map fun (r, ip, d) =>
      (.count r, s.put inum ip d)
  | .readi inum off n =>
    (readi sb (s.mem inum) off n s.disk).map fun (data, ip, d) =>
      (.bytes data, s.put inum ip d)
  | .itrunc inum =>
    (itrunc sb inum (s.mem inum) s.disk).map fun (ip, d) => (.none, s.put inum ip d)

def step (sb : Superblock) (c : Call) (s : FsState) : Option FsState := (call sb s c).map Prod.snd

/-- The call is for one of the files, and its arguments are `uint`s. -/
def Call.Ok (files : Finset Nat) : Call → Prop
  | .writei inum _ off n => inum ∈ files ∧ off < 2 ^ 32 ∧ n < 2 ^ 32
  | .readi inum off n => inum ∈ files ∧ off < 2 ^ 32 ∧ n < 2 ^ 32
  | .itrunc inum => inum ∈ files

/-- The arrays of the files other than `inum` are the same. -/
def SameOthers (files : Finset Nat) (inum : Nat) (s s' : FsState) : Prop :=
  ∀ j ∈ files, j ≠ inum → s'.contents j = s.contents j

/-- What a call does to the arrays. -/
def Behaves (sb : Superblock) (files : Finset Nat) (s s' : FsState) : Call → Reply → Prop
  | .writei inum src off n, .count r =>
    (r = -1 ∧ s' = s ∧ ((s.mem inum).size < off ∨ 268 * 1024 < off + n)) ∨
    ∃ t : Nat, r = t ∧ t ≤ n ∧ (t < n → Full sb s'.disk) ∧
      s'.contents inum = splice (s.contents inum) off ((List.range t).map src) ∧
      (s'.mem inum).size = max (s.mem inum).size (off + t) ∧
      SameOthers files inum s s'
  | .readi inum off n, .bytes data =>
    s' = s ∧ data = if off + n < 2 ^ 32 then ((s.contents inum).drop off).take n else []
  | .itrunc inum, .none =>
    s'.contents inum = [] ∧ SameOthers files inum s s' ∧
      -- the blocks of the file are free now, and no others
      ∀ b, b < sb.size → (bit sb s'.disk b = false ↔
        bit sb s.disk b = false ∨ (b ≠ 0 ∧ ∃ pl, refs files s (inum, pl) = b))
  | _, _ => False

section

variable {sb : Superblock} {files : Finset Nat} {s0 s s' : FsState} {c : Call} {cs : List Call}
  {off : Nat}

lemma length_splice {old new : List UInt8} (h : off ≤ old.length) :
    (splice old off new).length = max old.length (off + new.length) := by
  simp [splice]
  omega

/-- One call: it returns, the disk is consistent again, and the arrays are what
they should be. -/
lemma call_spec (hv : sb.Valid) (h : Consistent sb files s) (hsync : Synced sb files s)
    (hc : c.Ok files) :
    ∃ reply s', call sb s c = some (reply, s') ∧
      (Consistent sb files s' ∧ Synced sb files s') ∧ Behaves sb files s s' c reply := by
  cases c with
  | writei inum src off n =>
    obtain ⟨hi, hoff, hn⟩ := hc
    rcases writei_spec hv h hsync hi hoff hn src with ⟨heq, hbad⟩ |
      ⟨t, ip, d, heq, ht, ⟨hstart, -⟩, hkept, hcontents, hstop⟩
    · refine ⟨.count (-1), s, ?_, ⟨h, hsync⟩, .inl ⟨rfl, rfl, hbad⟩⟩
      simp only [call, heq, map_some, put_self]
    refine ⟨.count t, s.put inum ip d, ?_, ⟨hkept.consistent, hkept.synced⟩, .inr ?_⟩
    · rw [call, heq, map_some]
    refine ⟨t, rfl, ht, fun hlt => (hstop hlt).full, hcontents, ?_, hkept.others⟩
    rw [← length_contents, hcontents, length_splice (by rwa [length_contents]),
      length_contents, length_map, length_range]
  | readi inum off n =>
    obtain ⟨hi, -, hn⟩ := hc
    refine ⟨.bytes (if off + n < 2 ^ 32 then ((s.contents inum).drop off).take n else []), s,
      ?_, ⟨h, hsync⟩, rfl, rfl⟩
    simp only [call, readi_spec h hi hn, map_some, put_self]
  | itrunc inum =>
    obtain ⟨d, heq, hkept, hcontents, hbits⟩ := itrunc_spec hv h hsync hc
    refine ⟨.none, _, ?_, ⟨hkept.consistent, hkept.synced⟩, hcontents, hkept.others, hbits⟩
    rw [call, heq, map_some]

lemma step_consistent (hv : sb.Valid) (hc : c.Ok files) (hstep : step sb c s = some s')
    (h : Consistent sb files s ∧ Synced sb files s) :
    Consistent sb files s' ∧ Synced sb files s' := by
  obtain ⟨reply, s1, heq, hgood, -⟩ := call_spec hv h.1 h.2 hc
  rw [step, heq] at hstep
  cases hstep
  exact hgood

/-- After any sequence of calls, no block is reachable from two places or free while
it is reachable, and every further call behaves as the arrays say. -/
theorem files_are_arrays (hv : sb.Valid) (h : Consistent sb files s0)
    (hsync : Synced sb files s0) (hrun : Run (step sb) (fun c _ => c.Ok files) s0 cs s) :
    (∀ q q', refs files s q ≠ 0 → refs files s q = refs files s q' → q = q') ∧
    (∀ q, refs files s q ≠ 0 → bit sb s.disk (refs files s q) = true) ∧
    ∀ c : Call, c.Ok files →
      ∃ reply s', call sb s c = some (reply, s') ∧ Behaves sb files s s' c reply := by
  obtain ⟨hcons, hsync⟩ := Run.invariant (fun s => Consistent sb files s ∧ Synced sb files s)
    ⟨h, hsync⟩ (fun c s s' hc hstep => step_consistent hv hc hstep) hrun
  refine ⟨hcons.exclusive, fun q hq => (hcons.used q hq).2.2, ?_⟩
  intro c hc
  obtain ⟨reply, s', heq, -, hbehaves⟩ := call_spec hv hcons hsync hc
  exact ⟨reply, s', heq, hbehaves⟩

end

/-! ## A small disk -/

/-- Ten blocks, two inodes. -/
def smallDisk : Superblock := ⟨10, 2, 2, 4⟩

/-- A file of two bytes, in block 6. -/
def twoBytes : Inode where
  type := 2
  major := 0
  minor := 0
  nlink := 1
  size := 2
  addrs := fun k => if k = 0 then 6 else 0

/-- The blocks up to 6 are marked, and inode 1 is the file. -/
def smallState : FsState where
  mem := fun _ => twoBytes
  disk := iupdate smallDisk 1 twoBytes fun x =>
    if x = 4 then Bytes.zero.put 0 (fun _ => 127) 1 else Bytes.zero

lemma smallDisk_valid : smallDisk.Valid := by
  constructor <;> decide

lemma twoBytes_fits : twoBytes.Fits := by
  constructor <;> decide

variable {s : FsState} {q : Nat × Place} {b : Nat}

/-- An inode with one block. -/
lemma refs_oneBlock (haddrs : (s.mem 1).addrs = fun k => if k = 0 then 6 else 0)
    (h : refs {1} s q ≠ 0) : q = (1, .data 0) ∧ refs {1} s q = 6 := by
  obtain ⟨i, pl⟩ := q
  by_cases hi : i ∈ ({1} : Finset Nat)
  · rw [refs_of_mem hi] at h ⊢
    rw [Finset.mem_singleton] at hi
    subst hi
    cases pl with
    | indirect =>
      rw [Inode.ref, haddrs] at h
      exact absurd rfl h
    | data bn =>
      rw [Inode.ref, Inode.block, haddrs] at h ⊢
      by_cases hbn : bn = 0
      · subst hbn
        exact ⟨rfl, rfl⟩
      refine absurd ?_ h
      split
      · exact if_neg fun h => hbn (congrArg Fin.val h)
      · exact if_neg fun h => h.2 rfl
  · exact absurd (refs_of_notMem hi pl) h

lemma consistent_oneBlock {sb : Superblock}
    (haddrs : (s.mem 1).addrs = fun k => if k = 0 then 6 else 0) (hsize : (s.mem 1).size ≤ 1024)
    (hstart : sb.dataStart ≤ 6) (hend : 6 < sb.size)
    (hbits : ∀ b, b < 7 → bit sb s.disk b = true) : Consistent sb {1} s := by
  constructor
  · intro q r hq hqr
    have hr : refs {1} s r ≠ 0 := hqr ▸ hq
    rw [(refs_oneBlock haddrs hq).1, (refs_oneBlock haddrs hr).1]
  · intro q hq
    rw [(refs_oneBlock haddrs hq).2]
    exact ⟨hstart, hend, hbits 6 (by decide)⟩
  · intro b hb
    exact hbits b (by omega)
  · intro i hi bn hbn
    rw [refs_of_mem hi]
    rw [Finset.mem_singleton.mp hi] at hbn ⊢
    have hzero : bn = 0 := by omega
    rw [hzero, Inode.ref, Inode.block, haddrs]
    exact Nat.succ_ne_zero 5
  · intro i hi
    rw [Finset.mem_singleton.mp hi]
    omega

lemma bit_smallState (hb : b < 7) : bit smallDisk smallState.disk b = true := by
  have hmap : bblock smallDisk b = 4 := by
    simp [bblock, smallDisk]
    omega
  have hblock : smallState.disk 4 = Bytes.zero.put 0 (fun _ => 127) 1 := rfl
  rw [bit, hmap, hblock]
  decide +revert

lemma smallState_consistent : Consistent smallDisk {1} smallState :=
  consistent_oneBlock rfl (by decide) (by decide) (by decide) fun _ => bit_smallState

lemma smallState_synced : Synced smallDisk {1} smallState := by
  intro i hi
  rw [Finset.mem_singleton.mp hi]
  exact ⟨by decide, dinode_iupdate_self twoBytes_fits⟩

/-- Bytes are written at the end of the file, and the calls behave after that. -/
theorem files_are_arrays_small : ∃ s', Run (step smallDisk) (fun c _ => c.Ok {1}) smallState
    [.writei 1 (fun _ => 7) 2 5000] s' ∧
    ∀ c : Call, c.Ok {1} →
      ∃ reply s'', call smallDisk s' c = some (reply, s'') ∧
        Behaves smallDisk {1} s' s'' c reply := by
  have hok : (Call.writei 1 (fun _ => 7) 2 5000).Ok {1} := ⟨by decide, by decide, by decide⟩
  obtain ⟨-, -, hcalls⟩ :=
    files_are_arrays smallDisk_valid smallState_consistent smallState_synced Run.nil
  obtain ⟨reply, s', heq, -⟩ := hcalls _ hok
  have hstep : step smallDisk (.writei 1 (fun _ => 7) 2 5000) smallState = some s' := by
    rw [step, heq]
    rfl
  have hrun : Run (step smallDisk) (fun c _ => c.Ok {1}) smallState
      [.writei 1 (fun _ => 7) 2 5000] s' := Run.snoc Run.nil hok hstep
  obtain ⟨-, -, hcalls'⟩ :=
    files_are_arrays smallDisk_valid smallState_consistent smallState_synced hrun
  exact ⟨s', hrun, hcalls'⟩

/-- A read whose end does not fit a `uint` gives no bytes, although the file has one
in its range. -/
theorem read_past_uint_max : Consistent smallDisk {1} smallState ∧ Synced smallDisk {1} smallState ∧
    (call smallDisk smallState (.readi 1 1 (2 ^ 32 - 1))).map Prod.fst = some (.bytes []) ∧
    ((smallState.contents 1).drop 1).take (2 ^ 32 - 1) ≠ [] := by
  refine ⟨smallState_consistent, smallState_synced, ?_, ?_⟩
  · rw [call, readi_spec smallState_consistent (by decide) (by decide), if_neg (by decide)]
    rfl
  intro hnil
  have hlen := congrArg List.length hnil
  rw [length_take, length_drop, length_contents] at hlen
  exact absurd hlen (by decide)

end CshellXv6.Fs.Files
