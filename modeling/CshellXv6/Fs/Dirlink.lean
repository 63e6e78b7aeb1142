import CshellXv6.Fs.Lookup

/-! # Writing directories and allocating inodes

`dirlink` puts an entry into the first slot of a directory that is not in use, or at
its end; there may be no room left. `ialloc` takes a free inode.
-/

namespace CshellXv6.Fs

open Lib Function List

section

variable {sb : Superblock} {s s' : State} {r : Multiset Nat} {i dp ip cap : Nat}
variable {allowed : Panic → Prop} {n : Node} {k inum : Nat} {type : Int}

/-- A directory stays locked if it stays a directory. -/
lemma LockedDir.of_image (hd : LockedDir sb s dp) (hkeeps : Keeps r s s')
    (hdp : dp ∈ r) (hheld : dp ∈ s'.refs) (himage : image sb s'.disk dp = some n)
    (hdir : n.type = tDir) : LockedDir sb s' dp := by
  obtain ⟨-, rfl⟩ := mem_files_of_image himage
  exact ⟨hheld, hkeeps.valid dp hdp hd.valid, hdir⟩

/-- 16 bytes are written into a slot of the directory, or behind its last one. -/
lemma writeInode_spec {new : List UInt8} (hv : sb.Valid) (hg : Good sb s)
    (hd : LockedDir sb s dp) (hk : k ≤ (dirEntries sb s.disk dp).length) (hnew : new.length = 16) :
    Meets allowed (writeInode sb dp new (16 * k)) s fun res s' =>
      Good sb s' ∧ s'.refs = s.refs ∧ Keeps s.refs s s' ∧
      ((res = 16 ∧ image sb s'.disk = update (image sb s.disk) dp
          (some { node sb s.disk dp with
            entries := setSlot (dirEntries sb s.disk dp) k (entry new) })) ∨
       (res ≠ 16 ∧ k = (dirEntries sb s.disk dp).length ∧
          image sb s'.disk = image sb s.disk)) := by
  have hused := hg.used dp hd.held
  have hcopy := hg.coherent dp hd.held hd.valid
  have haligned := hg.sane.aligned dp hused hd.dir
  have hlen := length_dirEntries sb s.disk dp
  obtain ⟨res, inode, d, heq, hself, hcases⟩ :=
    hg.sane.write hv hused hd.dir (k := k) (by omega) hnew
  unfold writeInode
  refine meets_get ?_
  rw [hcopy, heq]
  have hgood : ∀ n, Changed sb dp (some n) s.disk d →
      Good sb { s with mem := update s.mem dp inode, disk := d } := by
    intro n hc
    refine hg.of_changed hc (fun _ h => h) (fun _ => Option.some_ne_none n) ?_ ?_
    · intro _ _
      simp only [update_self]
      exact hself.symm
    · intro j _ hj hvalid
      exact ⟨hvalid, update_of_ne hj _ _⟩
  have hkeeps : Keeps s.refs s { s with mem := update s.mem dp inode, disk := d } :=
    ⟨fun _ _ h => h, rfl, rfl⟩
  rcases hcases with ⟨hres, hc⟩ | ⟨hres, hsize, hc⟩
  · refine ⟨hgood _ hc, rfl, hkeeps, .inl ⟨hres, ?_⟩⟩
    rw [← node_entries hd.dir]
    exact hc.image
  refine ⟨hgood _ hc, rfl, hkeeps, .inr ⟨hres, by omega, ?_⟩⟩
  have himage := hc.image
  rwa [← image_of_mem hused, update_eq_self] at himage

/-- What `dirlink` has done when it succeeds: an entry for `inum` is in slot `k`. -/
structure Entered (sb : Superblock) (s s' : State) (dp : Nat) (name : List UInt8) (inum k : Nat) :
    Prop where
  slot : k ≤ (dirEntries sb s.disk dp).length
  before : ∀ j e, j < k → (dirEntries sb s.disk dp)[j]? = some e → e.inum ≠ 0
  dead : ∀ e, (dirEntries sb s.disk dp)[k]? = some e → e.inum = 0
  fresh : ∀ e ∈ dirEntries sb s.disk dp, e.inum ≠ 0 → e.name ≠ cname name
  image : image sb s'.disk = update (image sb s.disk) dp
    (some { node sb s.disk dp with
      entries := setSlot (dirEntries sb s.disk dp) k ⟨inum, cname name⟩ })

lemma dirlink_spec {name : List UInt8} (hv : sb.Valid) (hg : Good sb s)
    (hd : LockedDir sb s dp) (hinum : inum < 2 ^ 16)
    (htargets : ∀ e ∈ dirEntries sb s.disk dp, e.inum ≠ 0 →
      e.inum ∈ files sb s.disk ∧ (dinode sb s.disk e.inum).nlink ≠ 0)
    (hcap : s.refs.toFinset.card ≤ cap) :
    Meets (TableFull cap) (dirlink sb dp name inum) s fun res s' =>
      Good sb s' ∧ s'.refs = s.refs ∧ Keeps s.refs s s' ∧
      ((res = -1 ∧ image sb s'.disk = image sb s.disk) ∨
       (res = 0 ∧ ∃ k, Entered sb s s' dp name inum k)) := by
  unfold dirlink
  refine (dirlookup_spec hg hd (fun e he hne => (htargets e he hne).1) hcap).bind ?_
  rintro (_ | ⟨found, off⟩) s1 ⟨hg1, hdisk1, hkeeps1, hres⟩
  · obtain ⟨hrefs1, hfresh⟩ := hres
    have hd1 : LockedDir sb s1 dp :=
      ⟨hrefs1.symm ▸ hd.held, hkeeps1.valid dp hd.held hd.valid, hdisk1.symm ▸ hd.dir⟩
    refine (scan_spec (fun e => decide (e.inum = 0)) hg1 hd1 (fun _ => rfl) (Nat.zero_le _)).bind ?_
    rintro ⟨off, de⟩ s2 ⟨rfl, k, rfl, hbefore, hfound⟩
    rw [hdisk1] at hbefore hfound
    have hslot : k ≤ (dirEntries sb s.disk dp).length := by
      rcases hfound with ⟨_, e, -, he, -, -⟩ | ⟨-, hk⟩
      · exact (List.getElem?_eq_some_iff.mp he).1.le
      · exact hk.le
    have hlength : (Dirent.toBytes ⟨inum, strncpy 14 name⟩).length = 16 := by
      simp [Dirent.toBytes, length_strncpy]
    refine (writeInode_spec hv hg1 hd1 (by rw [hdisk1]; exact hslot) hlength).bind ?_
    rintro res s3 ⟨hg3, hrefs3, hkeeps3, hwritten⟩
    rw [hrefs1] at hrefs3 hkeeps3
    rw [hdisk1, entry_toBytes hinum] at hwritten
    have hkeeps := hkeeps1.trans hkeeps3
    rcases hwritten with ⟨hres, himage⟩ | ⟨hres, -, himage⟩
    · rw [if_neg (not_not.mpr hres)]
      refine meets_pure ⟨hg3, hrefs3, hkeeps, .inr ⟨rfl, k, ?_⟩⟩
      refine ⟨hslot, ?_, ?_, hfresh, himage⟩
      · intro j e hj he
        exact of_decide_eq_false (hbefore j e (Nat.zero_le j) hj he)
      intro e he
      rcases hfound with ⟨_, e', -, he', hdead, -⟩ | ⟨-, hk⟩
      · rw [he] at he'
        cases he'
        exact of_decide_eq_true hdead
      · rw [hk, List.getElem?_eq_none (le_refl _)] at he
        cases he
    · rw [if_pos hres]
      exact meets_pure ⟨hg3, hrefs3, hkeeps, .inl ⟨rfl, himage⟩⟩
  · obtain ⟨hrefs1, k, -, hne, hget⟩ := hres
    have hlinks := (htargets _ (mem_of_getElem? hget) hne).2
    refine (iput_keep hg1 hrefs1 (.inr (hdisk1.symm ▸ hlinks))).bind ?_
    rintro - s2 ⟨hg2, hdisk2, hrefs2, hkeeps2⟩
    refine meets_pure ⟨hg2, hrefs2, hkeeps1.trans hkeeps2, .inl ⟨rfl, ?_⟩⟩
    rw [hdisk2, hdisk1]

/-- `isdirempty` looks at the entries behind `.` and `..`. -/
lemma isdirempty_spec (hg : Good sb s) (hd : LockedDir sb s dp)
    (hlen : 2 ≤ (dirEntries sb s.disk dp).length) :
    Meets allowed (isdirempty sb dp) s fun res s' => s' = s ∧
      (res = true → ∀ e ∈ (dirEntries sb s.disk dp).drop 2, e.inum = 0) := by
  unfold isdirempty
  refine (scan_spec (k := 2) (fun e => decide (e.inum ≠ 0)) hg hd (fun _ => rfl) hlen).bind ?_
  rintro ⟨off, found⟩ s' ⟨rfl, k, -, hbefore, ⟨de, e, hfound, -, -, -⟩ | ⟨hfound, hk⟩⟩
  · simp only at hfound
    subst hfound
    exact meets_pure ⟨rfl, fun h => absurd h (by decide)⟩
  simp only at hfound
  subst hfound
  refine meets_pure ⟨rfl, fun _ e he => ?_⟩
  obtain ⟨j, hj, hget⟩ := getElem_of_mem he
  rw [getElem_drop] at hget
  rw [length_drop] at hj
  have hfalse := hbefore (2 + j) e (by omega) (by omega)
    (List.getElem?_eq_some_iff.mpr ⟨by omega, hget⟩)
  simpa using hfalse

/-- `ialloc` finds a free inode, if there is one. -/
lemma ialloc_spec (hv : sb.Valid) (hg : Good sb s) (htype : type ≠ 0)
    (hshort : -2 ^ 15 ≤ type ∧ type < 2 ^ 15) (hcap : s.refs.toFinset.card ≤ cap) :
    Meets (TableFull cap) (ialloc sb type) s fun res s' =>
      match res with
      | none => s' = s
      | some ip => Good sb s' ∧ s'.refs = ip ::ₘ s.refs ∧ Keeps s.refs s s' ∧
          (ip ≠ 0 ∧ ip < sb.ninodes ∧ image sb s.disk ip = none) ∧
          image sb s'.disk = update (image sb s.disk) ip (some ⟨type, 0, []⟩) := by
  unfold ialloc
  refine meets_get ?_
  cases hfree : freeInode sb s.disk with
  | none => exact meets_pure rfl
  | some ip =>
    have hmem := List.mem_of_find?_eq_some hfree
    obtain ⟨k, hk, hget⟩ := getElem_of_mem hmem
    simp only [length_drop, length_range, getElem_drop, getElem_range] at hk hget
    have hzero : (dinode sb s.disk ip).type = 0 := by
      simpa using List.find?_some hfree
    have hn : ip < sb.ninodes := by omega
    have hnot : ip ∉ files sb s.disk := fun h => (mem_files.mp h).2 hzero
    have hc := hg.sane.alloc hv hn htype hshort
    have hrefs : ip ∉ s.refs := fun h => hnot (hg.used ip h)
    have hg' : Good sb { s with disk := iupdate sb ip (Inode.fresh type) s.disk } := by
      refine hg.of_changed hc (fun _ h => h) (fun h => absurd h hrefs) (fun h => absurd h hrefs) ?_
      intro j _ _ hvalid
      exact ⟨hvalid, rfl⟩
    have hused : ip ∈ files sb (iupdate sb ip (Inode.fresh type) s.disk) := by
      by_contra hnone
      have himage := image_of_notMem hnone
      rw [hc.image, update_self] at himage
      cases himage
    refine meets_set ((iget_spec hg' hused hcap).bind ?_)
    rintro - s' ⟨hg'', hdisk, hrefs', hkeeps⟩
    refine meets_pure ⟨hg'', hrefs', ⟨hkeeps.valid, hkeeps.ftable, hkeeps.procs⟩,
      ⟨by omega, hn, image_of_notMem hnot⟩, ?_⟩
    rw [hdisk]
    exact hc.image

end

end CshellXv6.Fs
