import CshellXv6.Fs.Dirlink
import CshellXv6.Fs.Unlinks

/-! # The system calls keep the link counts

Each call is followed through its branches, with the image of the disk at every point.
`img` is the image at the beginning of the call, and `r` are the references that are
held by others. A call that fails leaves `img`; one that succeeds has added an entry to
it or taken one away.
-/

namespace CshellXv6.Fs

open Lib Function List

section

variable {sb : Superblock} {s s' : State} {r : Multiset Nat} {i dp ip cap pid : Nat}
variable {allowed : Panic → Prop} {img : Image} {n nd : Node} {d : Disk} {N k : Nat} {c : Prop}
  {s'' : State} {res : Int}

lemma Links.walkable (h : Links N img) : Walkable img :=
  fun _ _ hd hlive _ he hne => h.target hd hlive he hne

lemma Links.nlink_nonneg (h : Links N img) (hi : img i = some n) : 0 ≤ n.nlink := by
  by_cases hdir : n.type = tDir
  · by_cases hzero : n.nlink = 0
    · omega
    · have := h.counts i n hi ⟨hdir, hzero⟩
      omega
  · have := h.files i n hi hdir
    omega

/-- The inode of a node of the image. -/
lemma dinode_of_image (h : image sb d i = some n) :
    (dinode sb d i).type = n.type ∧ (dinode sb d i).nlink = n.nlink := by
  obtain ⟨-, rfl⟩ := mem_files_of_image h
  exact ⟨rfl, rfl⟩

lemma dirEntries_of_image (h : image sb d i = some n) (hdir : n.type = tDir) :
    dirEntries sb d i = n.entries := by
  obtain ⟨-, rfl⟩ := mem_files_of_image h
  exact (node_entries hdir).symm

/-- The link count of an inode is set. -/
lemma modifyNlink_spec (f : Int → Int) (hv : sb.Valid) (hg : Good sb s) (hi : i ∈ s.refs)
    (hvalid : s.valid i = true) (himage : image sb s.disk i = some n)
    (hshort : -2 ^ 15 ≤ f n.nlink ∧ f n.nlink < 2 ^ 15) :
    Meets allowed (modifyInode sb i fun inode => { inode with nlink := f inode.nlink }) s
      fun _ s' => Good sb s' ∧ image sb s'.disk = update (image sb s.disk) i
        (some { n with nlink := f n.nlink }) ∧ s'.refs = s.refs ∧ Keeps s.refs s s' := by
  obtain ⟨-, rfl⟩ := mem_files_of_image himage
  have hfits : (dinode sb s.disk i).Fits := dinode_fits
  exact modifyInode_spec hv hg hi hvalid
    ⟨hfits.type, hfits.major, hfits.minor, hshort, hfits.size, hfits.addrs⟩
    (fun _ => rfl) (fun _ => rfl) (fun _ => rfl)

/-- The link count of a directory is set under a condition. -/
lemma ifThenNlink_spec [Decidable c] (f : Int → Int) (hv : sb.Valid) (hg : Good sb s)
    (hlocked : LockedDir sb s dp) (hdp : image sb s.disk dp = some nd)
    (hshort : c → -2 ^ 15 ≤ f nd.nlink ∧ f nd.nlink < 2 ^ 15) :
    Meets allowed
      (ifThen c (modifyInode sb dp fun inode => { inode with nlink := f inode.nlink })) s
      fun _ s' => Good sb s' ∧ image sb s'.disk = update (image sb s.disk) dp
        (some { nd with nlink := if c then f nd.nlink else nd.nlink }) ∧ s'.refs = s.refs ∧
        Keeps s.refs s s' := by
  unfold ifThen
  split
  next hpos => exact modifyNlink_spec f hv hg hlocked.held hlocked.valid hdp (hshort hpos)
  · refine meets_pure ⟨hg, ?_, rfl, Keeps.refl⟩
    rw [← hdp, update_eq_self]

/-- The situation in which a call is made: the counts of `img` are right, and the
references `r` leave room for two more inodes in a table of `cap`. -/
structure Calling (sb : Superblock) (r : Multiset Nat) (img : Image) (cap : Nat) : Prop where
  valid : sb.Valid
  small : sb.ninodes ≤ 2 ^ 16
  links : Links sb.ninodes img
  orphans : ∀ j m, img j = some m → m.nlink = 0 → j ∈ r
  held : ∀ j ∈ r, img j ≠ none
  room : r.toFinset.card + 2 ≤ cap

lemma Calling.unchanged (hc : Calling sb r img cap) : Relinked sb.ninodes (· ∈ r) img img :=
  ⟨hc.links, hc.orphans, fun _ _ => rfl⟩

/-- How a call ends that returns -1 or 0. -/
def Finished (sb : Superblock) (r : Multiset Nat) (img : Image) (s : State) (res : Int)
    (s' : State) : Prop :=
  Good sb s' ∧ s'.refs = r ∧ Keeps r s s' ∧
    ((res = -1 ∧ image sb s'.disk = img) ∨
     (res = 0 ∧ Relinked sb.ninodes (· ∈ r) img (image sb s'.disk)))

lemma Finished.after (h : Finished sb r img s' res s'')
    (hkeeps : Keeps r s s') : Finished sb r img s res s'' :=
  ⟨h.1, h.2.1, hkeeps.trans h.2.2.1, h.2.2.2⟩

lemma Finished.unchanged (hg : Good sb s) (hrefs : s.refs = r) (himage : image sb s.disk = img) :
    Finished sb r img s (-1) s := ⟨hg, hrefs, Keeps.refl, .inl ⟨rfl, himage⟩⟩

/-- The call gives up; it lets go of inode `i`. -/
lemma fail_spec (hg : Good sb s) (hrefs : s.refs = i ::ₘ r)
    (hkeep : i ∈ r ∨ (dinode sb s.disk i).nlink ≠ 0) (himage : image sb s.disk = img) :
    Meets allowed (iput sb i >>= fun _ => pure (-1)) s (Finished sb r img s) := by
  refine (iput_keep hg hrefs hkeep).bind ?_
  rintro - s' ⟨hg', hdisk, hrefs', hkeeps⟩
  exact meets_pure ⟨hg', hrefs', hkeeps, .inl ⟨rfl, hdisk.symm ▸ himage⟩⟩

/-- The root is there, in an image that is as `img` at the root. -/
lemma root_live (h : Links N img) (himage : image sb d rootIno = img rootIno) :
    rootIno ∈ files sb d ∧ (node sb d rootIno).Live := by
  obtain ⟨n, hn, hlive⟩ := h.root
  obtain ⟨hmem, rfl⟩ := mem_files_of_image (himage.trans hn)
  exact ⟨hmem, hlive⟩

/-- A directory that a path has led to is locked. -/
lemma ilockDir_spec (hg : Good sb s) (hrefs : s.refs = dp ::ₘ r)
    (hlive : (node sb s.disk dp).Live) :
    Meets allowed (ilock sb dp) s fun _ s' =>
      Good sb s' ∧ s'.disk = s.disk ∧ s'.refs = dp ::ₘ r ∧ LockedDir sb s' dp ∧
        Keeps (dp ::ₘ r) s s' := by
  have hheld : dp ∈ s.refs := mem_refs_of_eq hrefs
  refine (ilock_spec hg hheld).mono ?_
  rintro - s' ⟨hg', hdisk, hrefs', hvalid, hkeeps⟩
  rw [hrefs] at hkeeps
  exact ⟨hg', hdisk, hrefs'.trans hrefs, ⟨hrefs'.symm ▸ hheld, hvalid, hdisk.symm ▸ hlive.1⟩,
    hkeeps⟩

/-! ## `sys_link` -/

/-- The image while `sys_link` holds a link that has no entry yet. -/
def raised (img : Image) (ip : Nat) (n : Node) : Image :=
  update img ip (some { n with nlink := n.nlink + 1 })

lemma raised_walkable (h : Links N img) (hn : img ip = some n) (hfile : n.type ≠ tDir) :
    Walkable (raised img ip n) := by
  intro d m hd hlive e he hne
  have hnonneg := h.nlink_nonneg hn
  have hdip : d ≠ ip := by
    rintro rfl
    rw [raised, update_self] at hd
    cases hd
    exact hfile hlive.1
  rw [raised, update_of_ne hdip] at hd
  by_cases hip : e.inum = ip
  · refine ⟨_, by rw [hip, raised, update_self], ?_⟩
    simp only
    omega
  · rw [raised, update_of_ne hip]
    exact h.target hd hlive he hne

/-- The label `bad` takes the link back. -/
lemma linkBad_spec (hv : sb.Valid) (hg : Good sb s) (hrefs : s.refs = ip ::ₘ r)
    (hn : img ip = some n) (hshort : 0 ≤ n.nlink ∧ n.nlink < 32767)
    (hkeep : ip ∈ r ∨ n.nlink ≠ 0) (himage : image sb s.disk = raised img ip n) :
    Meets allowed (linkBad sb ip) s fun res s' =>
      res = -1 ∧ Good sb s' ∧ image sb s'.disk = img ∧ s'.refs = r ∧ Keeps r s s' := by
  have hheld : ip ∈ s.refs := mem_refs_of_eq hrefs
  unfold linkBad
  refine (ilock_spec hg hheld).bind ?_
  rintro - s1 ⟨hg1, hdisk1, hrefs1, hvalid1, hkeeps1⟩
  have himage1 : image sb s1.disk ip = some { n with nlink := n.nlink + 1 } := by
    rw [hdisk1, himage, raised, update_self]
  refine (modifyNlink_spec (fun x => x - 1) hv hg1 (hrefs1.symm ▸ hheld) hvalid1 himage1 ?_).bind ?_
  · simp only
    omega
  rintro - s2 ⟨hg2, himage2, hrefs2, hkeeps2⟩
  have hback : image sb s2.disk = img := by
    rw [himage2, hdisk1, himage, raised, update_idem]
    simp only [add_sub_cancel_right]
    rw [← hn, update_eq_self]
  rw [hrefs1] at hkeeps2 hrefs2
  have hlinks : (dinode sb s2.disk ip).nlink = n.nlink :=
    (dinode_of_image (by rw [hback, hn])).2
  refine (iput_keep hg2 (hrefs2.trans hrefs) (hlinks.symm ▸ hkeep)).bind ?_
  rintro - s3 ⟨hg3, hdisk3, hrefs3, hkeeps3⟩
  rw [hrefs] at hkeeps1 hkeeps2
  exact meets_pure ⟨rfl, hg3, hdisk3.symm ▸ hback, hrefs3,
    (hkeeps1.trans hkeeps2).tail.trans hkeeps3⟩

/-- An entry of `dirlink` is an entry more in the image. -/
lemma Entered.adds {name : List UInt8} (ni nd' : Node) (h : Links N img)
    (he : Entered sb s s' dp name ip k) (hdp : img dp = some (node sb s.disk dp))
    (hlive : (node sb s.disk dp).Live) (hip : ip ≠ 0 ∧ ip < N) (hdiff : ip ≠ dp)
    (hentries : nd'.entries = setSlot (dirEntries sb s.disk dp) k ⟨ip, cname name⟩)
    (htype : nd'.type = tDir)
    (hnlink : nd'.nlink = (node sb s.disk dp).nlink + if ni.type = tDir then 1 else 0)
    (htarget : (∃ n, img ip = some n ∧ n.type ≠ tDir ∧ ni = { n with nlink := n.nlink + 1 }) ∨
      (img ip = none ∧ ni.nlink = 1 ∧ (ni.type = tDir → ni.entries = [⟨ip, dot⟩, ⟨dp, dotdot⟩]))) :
    Adds N img dp ip (node sb s.disk dp) ni nd' := by
  have hes : (node sb s.disk dp).entries = dirEntries sb s.disk dp := node_entries hlive.1
  obtain ⟨p, rest, hdots⟩ := h.dots dp _ hdp hlive.1
  obtain ⟨m, hm, -, -⟩ := h.parent dp _ p rest hdp hlive hdots
  -- `.` and `..` are in use
  have hk : 2 ≤ k := by
    rw [hes] at hdots
    by_contra hlt
    have hcases : k = 0 ∨ k = 1 := by omega
    rcases hcases with rfl | rfl
    · exact h.ne_zero hdp (he.dead ⟨dp, dot⟩ (by rw [hdots]; rfl))
    · exact h.ne_zero hm (he.dead ⟨p, dotdot⟩ (by rw [hdots]; rfl))
  refine ⟨hdp, hlive, hip, hdiff, ?_, htype, hnlink, htarget⟩
  refine ⟨(dirEntries sb s.disk dp).take k, (dirEntries sb s.disk dp)[k]?.toList,
    (dirEntries sb s.disk dp).drop (k + 1), cname name, ?_, ?_, ?_, ?_, ?_⟩
  · rw [hes, ← List.drop_eq_getElem?_toList_append, take_append_drop]
  · rw [hentries, setSlot]
  · rw [length_take]
    have := he.slot
    omega
  · intro e hmem
    exact he.dead e (by simpa using hmem)
  intro hmem
  obtain ⟨e, hfilter, hname⟩ := mem_map.mp hmem
  obtain ⟨hin, hne⟩ := mem_filter.mp hfilter
  exact he.fresh e (hes ▸ hin) (by simpa using hne) hname

/-- `sys_link`, with the parent directory locked. -/
lemma dirlinkOld_spec {name : List UInt8} (hc : Calling sb r img cap) (hg : Good sb s)
    (hrefs : s.refs = dp ::ₘ ip ::ₘ r) (hlocked : LockedDir sb s dp)
    (hlive : (node sb s.disk dp).Live) (hn : img ip = some n) (hfile : n.type ≠ tDir)
    (himage : image sb s.disk = raised img ip n) :
    Meets (TableFull cap) (dirlink sb dp name ip) s fun res s' =>
      Good sb s' ∧ s'.refs = dp ::ₘ ip ::ₘ r ∧ Keeps (dp ::ₘ ip ::ₘ r) s s' ∧
      (dinode sb s'.disk dp).nlink ≠ 0 ∧
      ((res = -1 ∧ image sb s'.disk = raised img ip n) ∨
       (res = 0 ∧ (dinode sb s'.disk ip).nlink ≠ 0 ∧
          Relinked sb.ninodes (· ∈ r) img (image sb s'.disk))) := by
  have hw : Walkable (image sb s.disk) := himage.symm ▸ raised_walkable hc.links hn hfile
  have hused := hg.used dp hlocked.held
  have hdp : image sb s.disk dp = some (node sb s.disk dp) := image_of_mem hused
  have hdiff : ip ≠ dp := by
    rintro rfl
    rw [himage, raised, update_self] at hdp
    have hnode := Option.some.inj hdp
    exact hfile ((congrArg Node.type hnode).trans hlive.1)
  have hcard1 := card_cons_le ip r
  have hcard2 := card_cons_le dp (ip ::ₘ r)
  have hroom := hc.room
  refine (dirlink_spec hc.valid hg hlocked ((hc.links.bound ip n hn).trans_le hc.small)
    (fun _ he hne => hw.target hused hlive he hne) ?_).mono ?_
  · rw [hrefs]
    omega
  rintro res s' ⟨hg', hrefs', hkeeps, hdone⟩
  rw [hrefs] at hrefs' hkeeps
  rcases hdone with ⟨rfl, himage'⟩ | ⟨rfl, k, hentered⟩
  · have hdp' : image sb s'.disk dp = some (node sb s.disk dp) := by rw [himage', hdp]
    refine ⟨hg', hrefs', hkeeps, ?_, .inl ⟨rfl, himage'.trans himage⟩⟩
    rw [(dinode_of_image hdp').2]
    exact hlive.2
  rw [himage, raised, update_of_ne (Ne.symm hdiff)] at hdp
  have hadds := hentered.adds { n with nlink := n.nlink + 1 }
    { node sb s.disk dp with
      entries := setSlot (dirEntries sb s.disk dp) k ⟨ip, cname name⟩ }
    hc.links hdp hlive ⟨hc.links.ne_zero hn, hc.links.bound ip n hn⟩ hdiff rfl hlive.1
    (by simp [hfile]) (.inl ⟨n, hn, hfile, rfl⟩)
  have himage' := hentered.image
  rw [himage, raised, ← added] at himage'
  refine ⟨hg', hrefs', hkeeps, ?_, .inr ⟨rfl, ?_, ?_⟩⟩
  · rw [(dinode_of_image (himage' ▸ added_dir)).2]
    exact hlive.2
  · have hnonneg := hc.links.nlink_nonneg hn
    rw [(dinode_of_image (himage' ▸ added_target hdiff)).2]
    simp only
    omega
  · rw [himage']
    exact hadds.relinked hc.links hc.orphans hc.held

lemma linkInto_spec {new : List UInt8} (hc : Calling sb r img cap) (hg : Good sb s)
    (hrefs : s.refs = ip ::ₘ r) (hcwd : (s.procs pid).cwd ∈ r) (hn : img ip = some n)
    (hfile : n.type ≠ tDir) (hshort : n.nlink < 32767) (hkeep : ip ∈ r ∨ n.nlink ≠ 0)
    (himage : image sb s.disk = raised img ip n) :
    Meets (TableFull cap) (linkInto sb pid new ip) s (Finished sb r img s) := by
  have hw : Walkable (image sb s.disk) := himage.symm ▸ raised_walkable hc.links hn hfile
  have hroot : rootIno ≠ ip := by
    rintro rfl
    obtain ⟨m, hm, hlive⟩ := hc.links.root
    rw [hn] at hm
    cases hm
    exact hfile hlive.1
  obtain ⟨hmem, hrootLive⟩ := root_live hc.links
    (himage ▸ update_of_ne hroot _ _ : image sb s.disk rootIno = img rootIno)
  -- whatever has failed, the link is taken back
  have hbad : ∀ s1, Good sb s1 → s1.refs = ip ::ₘ r → image sb s1.disk = raised img ip n →
      Keeps (ip ::ₘ r) s s1 →
      Meets (TableFull cap) (linkBad sb ip) s1 (Finished sb r img s) := by
    intro s1 hg1 hrefs1 himage1 hkeeps1
    refine (linkBad_spec hc.valid hg1 hrefs1 hn ⟨hc.links.nlink_nonneg hn, hshort⟩ hkeep
      himage1).mono ?_
    rintro res s2 ⟨hres, hg2, himage2, hrefs2, hkeeps2⟩
    exact ⟨hg2, hrefs2, hkeeps1.tail.trans hkeeps2, .inl ⟨hres, himage2⟩⟩
  unfold linkInto nameiparent
  refine (namex_spec hg hw hmem hrootLive (hrefs.symm ▸ Multiset.mem_cons_of_mem hcwd) ?_).bind ?_
  · have hcard := card_cons_le ip r
    have hroom := hc.room
    rw [hrefs]
    omega
  rintro (_ | ⟨dp, name⟩) s1 ⟨hg1, hdisk1, hkeeps1, hres⟩
  all_goals rw [hrefs] at hkeeps1 hres
  · exact hbad s1 hg1 hres (hdisk1.symm ▸ himage) hkeeps1
  obtain ⟨hrefs1, -, hparent⟩ := hres
  have hlive : (node sb s1.disk dp).Live := hdisk1.symm ▸ hparent rfl
  refine (ilockDir_spec hg1 hrefs1 hlive).bind ?_
  rintro - s2 ⟨hg2, hdisk2, hrefs2, hlocked, hkeeps2⟩
  rw [← hdisk2] at hlive
  rw [hdisk1] at hdisk2
  have hkeeps := hkeeps1.trans hkeeps2.tail
  have hnlink : (dinode sb s2.disk dp).nlink ≠ 0 := hlive.2
  refine meets_get ?_
  rw [hg2.coherent dp hlocked.held hlocked.valid, if_neg hnlink]
  refine (dirlinkOld_spec hc hg2 hrefs2 hlocked hlive hn hfile (hdisk2.symm ▸ himage)).bind ?_
  rintro res s3 ⟨hg3, hrefs3, hkeeps3, hnlink3, hdone⟩
  replace hkeeps3 := hkeeps.trans hkeeps3.tail
  rcases hdone with ⟨rfl, himage3⟩ | ⟨rfl, hlinksIp, hrelinked⟩
  · rw [if_pos (by decide)]
    refine (iput_keep hg3 hrefs3 (.inr hnlink3)).bind ?_
    rintro - s4 ⟨hg4, hdisk4, hrefs4, hkeeps4⟩
    exact hbad s4 hg4 hrefs4 (hdisk4 ▸ himage3) (hkeeps3.trans hkeeps4)
  rw [if_neg (by decide)]
  refine (iput_keep hg3 hrefs3 (.inr hnlink3)).bind ?_
  rintro - s4 ⟨hg4, hdisk4, hrefs4, hkeeps4⟩
  refine (iput_keep hg4 hrefs4 (.inr (hdisk4.symm ▸ hlinksIp))).bind ?_
  rintro - s5 ⟨hg5, hdisk5, hrefs5, hkeeps5⟩
  refine meets_pure ⟨hg5, hrefs5, ?_, .inr ⟨rfl, ?_⟩⟩
  · exact (hkeeps3.trans hkeeps4).tail.trans hkeeps5
  · rw [hdisk5, hdisk4]
    exact hrelinked

lemma sysLink_spec {old new : Option (List UInt8)} (hc : Calling sb s.refs (image sb s.disk) cap)
    (hg : Good sb s) (hcwd : (s.procs pid).cwd ∈ s.refs) :
    Meets (TableFull cap) (sysLink sb pid old new) s (Finished sb s.refs (image sb s.disk) s) := by
  obtain ⟨hmem, hrootLive⟩ := root_live hc.links (rfl : image sb s.disk rootIno = _)
  have hroom := hc.room
  unfold sysLink
  split
  · refine (namei_spec hg hc.links.walkable hmem hrootLive hcwd (by omega)).bind ?_
    rintro (_ | ip) s1 ⟨hg1, hdisk1, hkeeps1, hres⟩
    · exact meets_pure ⟨hg1, hres, hkeeps1, .inl ⟨rfl, by rw [hdisk1]⟩⟩
    obtain ⟨hrefs1, hkeep, -⟩ := hres
    have hheld1 : ip ∈ s1.refs := mem_refs_of_eq hrefs1
    refine (ilock_spec hg1 hheld1).bind ?_
    rintro - s2 ⟨hg2, hdisk2, hrefs2, hvalid2, hkeeps2⟩
    have hheld2 : ip ∈ s2.refs := hrefs2.symm ▸ hheld1
    rw [hrefs1] at hrefs2 hkeeps2
    rw [hdisk1] at hdisk2
    have hkeeps : Keeps s.refs s s2 :=
      hkeeps1.trans hkeeps2.tail
    have hfail : Meets (TableFull cap) (iput sb ip >>= fun _ => pure (-1)) s2
        (Finished sb s.refs (image sb s.disk) s) :=
      (fail_spec hg2 hrefs2 (hdisk2.symm ▸ hkeep) (by rw [hdisk2])).mono fun _ _ h => h.after hkeeps
    refine meets_get ?_
    rw [hg2.coherent ip hheld2 hvalid2]
    split
    · exact hfail
    next hfile =>
      split
      · exact hfail
      next hmax =>
        have hnode := image_of_mem (hg2.used ip hheld2)
        have hnonneg : 0 ≤ (node sb s2.disk ip).nlink := by
          rw [hdisk2] at hnode ⊢
          exact hc.links.nlink_nonneg hnode
        have hlt : (node sb s2.disk ip).nlink < 32767 := Int.not_le.mp hmax
        refine (modifyNlink_spec (fun x => x + 1) hc.valid hg2 hheld2 hvalid2 hnode ?_).bind ?_
        · omega
        rintro - s3 ⟨hg3, himage3, hrefs3, hkeeps3⟩
        rw [hrefs2] at hrefs3 hkeeps3
        rw [hdisk2] at himage3 hnode hlt hfile
        replace hkeeps := hkeeps.trans hkeeps3.tail
        refine (linkInto_spec hc hg3 hrefs3 (hkeeps.procs ▸ hcwd) hnode hfile hlt hkeep
          himage3).mono fun _ _ h => h.after hkeeps
  · exact meets_pure (Finished.unchanged hg rfl rfl)

end

end CshellXv6.Fs
