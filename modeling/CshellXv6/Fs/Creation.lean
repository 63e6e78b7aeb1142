import CshellXv6.Fs.Calls

/-! # `create` keeps the link counts

`create` takes a free inode, makes `.` and `..` in it if it is to be a directory, and
only then the entry in the parent directory. Until there is that entry the inode is
nobody's business: when a step fails, the inode is freed, and the image is what it was.
-/

namespace CshellXv6.Fs

open Lib Function List

section

variable {sb : Superblock} {s s' : State} {r : Multiset Nat} {i dp ip cap pid k inum : Nat}
variable {allowed : Panic → Prop} {img : Image} {n n' nd : Node} {name : List UInt8}
variable {type major minor : Int} {es : List Dirent} {res : Option Nat} {s'' s0 : State}
  {e : Dirent} {short : Prop} {omode : UInt32}

/-- How `create` ends: without an inode, and then nothing has happened, or with a locked
inode, a new one or a file that was there. -/
def Created (sb : Superblock) (r : Multiset Nat) (img : Image) (type : Int) (s : State)
    (res : Option Nat) (s' : State) : Prop :=
  Good sb s' ∧ Keeps r s s' ∧
    match res with
    | none => s'.refs = r ∧ image sb s'.disk = img
    | some ip => s'.refs = ip ::ₘ r ∧ s'.valid ip = true ∧
        Relinked sb.ninodes (· ∈ r) img (image sb s'.disk) ∧
        ∃ n, image sb s'.disk ip = some n ∧ n.nlink ≠ 0 ∧
          ((image sb s'.disk = img ∧ type = tFile ∧ n.type ≠ tDir) ∨
            (img ip = none ∧ n.type = type))

lemma Created.after (h : Created sb r img type s' res s'')
    (hkeeps : Keeps r s s') : Created sb r img type s res s'' :=
  ⟨h.1, hkeeps.trans h.2.1, h.2.2⟩

/-- `create` gives up; it lets go of inode `i`. -/
lemma createNone_spec (hg : Good sb s) (hrefs : s.refs = i ::ₘ r)
    (hlinks : (dinode sb s.disk i).nlink ≠ 0) (himage : image sb s.disk = img) :
    Meets allowed (iput sb i >>= fun _ => pure none) s (Created sb r img type s) := by
  refine (iput_keep hg hrefs (.inr hlinks)).bind ?_
  rintro - s' ⟨hg', hdisk, hrefs', hkeeps⟩
  exact meets_pure ⟨hg', hkeeps, hrefs', hdisk.symm ▸ himage⟩

/-- Where `create` may make an entry: in the directory `dp`, for the free inode `ip`. -/
structure Spot (sb : Superblock) (img : Image) (dp ip : Nat) (nd : Node) : Prop where
  dir : img dp = some nd
  live : nd.Live
  free : img ip = none
  inum : ip ≠ 0 ∧ ip < sb.ninodes

lemma Spot.diff (h : Spot sb img dp ip nd) : ip ≠ dp := by
  rintro rfl
  have hdir := h.dir
  rw [h.free] at hdir
  cases hdir

/-- The state while inode `ip` is being made, with nothing that names it. -/
structure Making (sb : Superblock) (r : Multiset Nat) (img : Image) (dp ip : Nat) (n : Node)
    (s : State) : Prop where
  good : Good sb s
  refs : s.refs = ip ::ₘ dp ::ₘ r
  valid : s.valid ip = true
  locked : LockedDir sb s dp
  image : image sb s.disk = update img ip (some n)

lemma Making.held (hm : Making sb r img dp ip n s) : ip ∈ s.refs := by
  rw [hm.refs]
  exact Multiset.mem_cons_self ..

lemma Making.image_self (hm : Making sb r img dp ip n s) : Fs.image sb s.disk ip = some n := by
  rw [hm.image, update_self]

lemma Making.image_dir (hm : Making sb r img dp ip n s) (hp : Spot sb img dp ip nd) :
    Fs.image sb s.disk dp = some nd := by
  rw [hm.image, update_of_ne (Ne.symm hp.diff), hp.dir]

/-- The inode that is being made has changed. -/
lemma Making.next (hm : Making sb r img dp ip n s) (hp : Spot sb img dp ip nd)
    (hg : Good sb s') (hrefs : s'.refs = s.refs) (hkeeps : Keeps s.refs s s')
    (himage : Fs.image sb s'.disk = update (Fs.image sb s.disk) ip (some n')) :
    Making sb r img dp ip n' s' := by
  have himage' : Fs.image sb s'.disk = update img ip (some n') := by
    rw [himage, hm.image, update_idem]
  refine ⟨hg, hrefs.trans hm.refs, hkeeps.valid ip hm.held hm.valid, ?_, himage'⟩
  refine hm.locked.of_image hkeeps hm.locked.held (hrefs.symm ▸ hm.locked.held) ?_ hp.live.1
  rw [himage', update_of_ne (Ne.symm hp.diff), hp.dir]

/-- What was held by others stays as it was. -/
lemma Making.keeps (hm : Making sb r img dp ip n s) (hkeeps : Keeps s.refs s s') :
    Keeps r s s' := by
  rw [hm.refs] at hkeeps
  exact hkeeps.tail.tail

lemma Making.card_le (hm : Making sb r img dp ip n s) (hc : Calling sb r img cap) :
    s.refs.toFinset.card ≤ cap := by
  have hcard1 := card_cons_le dp r
  have hcard2 := card_cons_le ip (dp ::ₘ r)
  have hroom := hc.room
  rw [hm.refs]
  omega

/-- The label `fail`. -/
lemma createFail_spec (hc : Calling sb r img cap) (hp : Spot sb img dp ip nd)
    (hm : Making sb r img dp ip n s) :
    Meets allowed (createFail sb dp ip) s (Created sb r img type s) := by
  have hnot : ip ∉ dp ::ₘ r := by
    intro h
    rcases Multiset.mem_cons.mp h with h | h
    · exact hp.diff h
    · exact hc.held ip h hp.free
  unfold createFail
  refine (modifyNlink_spec (fun _ => 0) hc.valid hm.good hm.held hm.valid hm.image_self
    (by decide)).bind ?_
  rintro - s1 ⟨hg1, himage1, hrefs1, hkeeps1⟩
  have hm1 := hm.next hp hg1 hrefs1 hkeeps1 himage1
  have hzero : (dinode sb s1.disk ip).nlink = 0 := (dinode_of_image hm1.image_self).2
  refine (iput_free hc.valid hg1 hm1.refs hnot hm1.valid hzero).bind ?_
  rintro - s2 ⟨hg2, himage2, hrefs2, hkeeps2⟩
  have hback : image sb s2.disk = img := by
    rw [himage2, hm1.image, update_idem, ← hp.free, update_eq_self]
  have hlinks : (dinode sb s2.disk dp).nlink ≠ 0 := by
    rw [(dinode_of_image (hback.symm ▸ hp.dir)).2]
    exact hp.live.2
  refine (createNone_spec hg2 hrefs2 hlinks hback).mono fun _ _ h => h.after ?_
  exact (hm.keeps hkeeps1).trans hkeeps2.tail

/-! ## `.` and `..` -/

/-- A directory with no slot that is free grows. -/
lemma setSlot_of_full (hk : k ≤ es.length) (hdead : ∀ e, es[k]? = some e → e.inum = 0)
    (hfull : ∀ e ∈ es, e.inum ≠ 0) : setSlot es k e = es ++ [e] := by
  have hend : k = es.length := by
    by_contra hne
    have hlt : k < es.length := by omega
    have hget := List.getElem?_eq_getElem hlt
    exact hfull _ (getElem_mem hlt) (hdead _ hget)
  rw [setSlot, hend, take_length, drop_eq_nil_of_le (by omega)]

/-- `dirlink` into the new directory, which names at most itself. -/
lemma dirlinkNew_spec (hc : Calling sb r img cap) (hp : Spot sb img dp ip nd)
    (hm : Making sb r img dp ip ⟨tDir, 1, es⟩ s) (hself : ∀ e ∈ es, e.inum = ip)
    (hinum : inum < sb.ninodes) :
    Meets (TableFull cap) (dirlink sb ip name inum) s fun res s' => Keeps r s s' ∧
      ((res = -1 ∧ Making sb r img dp ip ⟨tDir, 1, es⟩ s') ∨
       (res = 0 ∧ Making sb r img dp ip ⟨tDir, 1, es ++ [⟨inum, cname name⟩]⟩ s')) := by
  have hes : dirEntries sb s.disk ip = es := dirEntries_of_image hm.image_self rfl
  have hinode := dinode_of_image hm.image_self
  have hlocked : LockedDir sb s ip := ⟨hm.held, hm.valid, hinode.1⟩
  refine (dirlink_spec hc.valid hm.good hlocked (hinum.trans_le hc.small) ?_ (hm.card_le hc)).mono
    ?_
  · intro e he _
    rw [hself e (hes ▸ he)]
    refine ⟨(mem_files_of_image hm.image_self).1, ?_⟩
    rw [hinode.2]
    exact Int.one_ne_zero
  rintro res s' ⟨hg', hrefs', hkeeps, ⟨hres, himage⟩ | ⟨hres, k, hentered⟩⟩
  · refine ⟨hm.keeps hkeeps, .inl ⟨hres, hm.next hp hg' hrefs' hkeeps ?_⟩⟩
    rw [himage, ← hm.image_self, update_eq_self]
  refine ⟨hm.keeps hkeeps, .inr ⟨hres, hm.next hp hg' hrefs' hkeeps ?_⟩⟩
  obtain ⟨hslot, -, hdead, -, himage⟩ := hentered
  rw [hes] at hslot hdead himage
  have hnode := (mem_files_of_image hm.image_self).2
  rw [himage, ← hnode, setSlot_of_full hslot hdead]
  intro e he
  rw [hself e he]
  exact hp.inum.1

lemma dirlinkDots_spec (hc : Calling sb r img cap) (hp : Spot sb img dp ip nd)
    (hm : Making sb r img dp ip ⟨type, 1, []⟩ s) :
    Meets (TableFull cap) (dirlinkDots sb dp ip type) s fun res s' => Keeps r s s' ∧
      ∃ es, Making sb r img dp ip ⟨type, 1, es⟩ s' ∧
        (¬ res < 0 → type = tDir → es = [⟨ip, dot⟩, ⟨dp, dotdot⟩]) := by
  unfold dirlinkDots
  split
  next hdir =>
    subst hdir
    refine (dirlinkNew_spec hc hp hm (fun e he => absurd he not_mem_nil) hp.inum.2).bind ?_
    rintro res s1 ⟨hkeeps1, ⟨rfl, hm1⟩ | ⟨rfl, hm1⟩⟩
    · rw [if_pos (by decide)]
      exact meets_pure ⟨hkeeps1, [], hm1, fun h => absurd (by decide) h⟩
    rw [if_neg (by decide)]
    have hself : ∀ e ∈ ([] ++ [⟨ip, cname dot⟩] : List Dirent), e.inum = ip := by
      intro e he
      rw [nil_append, mem_singleton] at he
      rw [he]
    refine (dirlinkNew_spec hc hp hm1 hself (hc.links.bound dp nd hp.dir)).mono ?_
    rintro res s2 ⟨hkeeps2, ⟨rfl, hm2⟩ | ⟨rfl, hm2⟩⟩
    · exact ⟨hkeeps1.trans hkeeps2, _, hm2, fun h => absurd (by decide) h⟩
    · exact ⟨hkeeps1.trans hkeeps2, _, hm2, fun _ _ => rfl⟩
  next hdir => exact meets_pure ⟨Keeps.refl, [], hm, fun _ h => absurd h hdir⟩

/-! ## The entry in the parent directory -/

/-- `create` has made the inode, and the entry in the parent directory. -/
lemma createEntry_spec (hc : Calling sb r img cap) (hp : Spot sb img dp ip nd)
    (hm : Making sb r img dp ip ⟨type, 1, es⟩ s) (hmax : type = tDir → nd.nlink < 32767)
    (hdots : type = tDir → es = [⟨ip, dot⟩, ⟨dp, dotdot⟩]) :
    Meets (TableFull cap) (do
      let r ← dirlink sb dp name ip
      if r < 0 then createFail sb dp ip
      else
        ifThen (type = tDir)
          (modifyInode sb dp fun inode => { inode with nlink := inode.nlink + 1 })
        iput sb dp
        return some ip) s (Created sb r img type s) := by
  have hdp := hm.image_dir hp
  have hnode : node sb s.disk dp = nd := (mem_files_of_image hdp).2.symm
  have hes : dirEntries sb s.disk dp = nd.entries := dirEntries_of_image hdp hp.live.1
  refine (dirlink_spec hc.valid hm.good hm.locked (hp.inum.2.trans_le hc.small) ?_
    (hm.card_le hc)).bind ?_
  · intro e he hne
    obtain ⟨m, hi, hlinks⟩ := hc.links.target hp.dir hp.live (hes ▸ he) hne
    have hold : e.inum ≠ ip := by
      intro h
      rw [h, hp.free] at hi
      cases hi
    have himage : image sb s.disk e.inum = some m := by
      rw [hm.image, update_of_ne hold, hi]
    refine ⟨(mem_files_of_image himage).1, ?_⟩
    rw [(dinode_of_image himage).2]
    exact hlinks
  rintro res s1 ⟨hg1, hrefs1, hkeeps1, ⟨rfl, himage1⟩ | ⟨rfl, k, hentered⟩⟩
  · rw [if_pos (by decide)]
    have hm1 : Making sb r img dp ip ⟨type, 1, es⟩ s1 := by
      refine hm.next hp hg1 hrefs1 hkeeps1 ?_
      rw [himage1, ← hm.image_self, update_eq_self]
    exact (createFail_spec hc hp hm1).mono fun _ _ h => h.after (hm.keeps hkeeps1)
  rw [if_neg (by decide)]
  have himage1 := hentered.image
  have hdp1 := congrFun himage1 dp
  rw [update_self, hnode] at hdp1
  have hlocked1 := hm.locked.of_image hkeeps1 hm.locked.held (hrefs1.symm ▸ hm.locked.held)
    hdp1 hp.live.1
  have hnonneg := hc.links.nlink_nonneg hp.dir
  refine (ifThenNlink_spec (fun x => x + 1) hc.valid hg1 hlocked1 hdp1 ?_).bind ?_
  · intro hdir
    have := hmax hdir
    simp only
    omega
  rintro - s2 ⟨hg2, himage2, hrefs2, hkeeps2⟩
  rw [hrefs1] at hrefs2 hkeeps2
  have hkeeps := hkeeps1.trans hkeeps2
  -- the parent directory with its new entry, and its new link if that is a directory
  have hadds := hentered.adds ⟨type, 1, es⟩
    { nd with
      entries := setSlot nd.entries k ⟨ip, cname name⟩
      nlink := if type = tDir then nd.nlink + 1 else nd.nlink }
    hc.links (hnode.symm ▸ hp.dir) (hnode.symm ▸ hp.live) hp.inum hp.diff
    (by rw [hes]) hp.live.1 (by rw [hnode]; simp only; split <;> simp)
    (.inr ⟨hp.free, rfl, hdots⟩)
  rw [himage1, update_idem, hm.image, hes, ← added] at himage2
  have hlinks : (dinode sb s2.disk dp).nlink ≠ 0 := by
    rw [(dinode_of_image (himage2 ▸ added_dir)).2]
    exact (hadds.live' hc.links).2
  have hvalid2 := hkeeps.valid ip hm.held hm.valid
  rw [hm.refs, Multiset.cons_swap] at hrefs2
  refine (iput_keep hg2 hrefs2 (.inr hlinks)).bind ?_
  rintro - s3 ⟨hg3, hdisk3, hrefs3, hkeeps3⟩
  rw [← hdisk3] at himage2
  refine meets_pure ⟨hg3, (hm.keeps hkeeps).trans
    hkeeps3.tail, hrefs3,
    hkeeps3.valid ip (Multiset.mem_cons_self ip r) hvalid2, ?_, ⟨type, 1, es⟩, ?_, ?_,
    .inr ⟨hp.free, rfl⟩⟩
  · rw [himage2]
    exact hadds.relinked hc.links hc.orphans hc.held
  · rw [himage2]
    exact added_target hp.diff
  · exact Int.one_ne_zero

lemma createNew_spec (hc : Calling sb r img cap) (hp : Spot sb img dp ip nd) (hg : Good sb s)
    (hrefs : s.refs = ip ::ₘ dp ::ₘ r) (hlocked : LockedDir sb s dp)
    (himage : image sb s.disk = update img ip (some ⟨type, 0, []⟩))
    (hmax : type = tDir → nd.nlink < 32767) (hmajor : -2 ^ 15 ≤ major ∧ major < 2 ^ 15)
    (hminor : -2 ^ 15 ≤ minor ∧ minor < 2 ^ 15) :
    Meets (TableFull cap) (createNew sb dp name ip type major minor) s
      (Created sb r img type s) := by
  have hheld : ip ∈ s.refs := mem_refs_of_eq hrefs
  unfold createNew
  refine (ilock_spec hg hheld).bind ?_
  rintro - s1 ⟨hg1, hdisk1, hrefs1, hvalid1, hkeeps1⟩
  have hm1 : Making sb r img dp ip ⟨type, 0, []⟩ s1 := by
    refine ⟨hg1, hrefs1.trans hrefs, hvalid1, ?_, hdisk1.symm ▸ himage⟩
    exact ⟨hrefs1.symm ▸ hlocked.held, hkeeps1.valid dp hlocked.held hlocked.valid,
      hdisk1.symm ▸ hlocked.dir⟩
  have hfits : (dinode sb s1.disk ip).Fits := dinode_fits
  have hone : -2 ^ 15 ≤ (1 : Int) ∧ (1 : Int) < 2 ^ 15 := by decide
  refine (modifyInode_spec
    (f := fun inode => { inode with major := major, minor := minor, nlink := 1 }) hc.valid hg1
    hm1.held hvalid1 ⟨hfits.type, hmajor, hminor, hone, hfits.size, hfits.addrs⟩
    (fun _ => rfl) (fun _ => rfl) (fun _ => rfl)).bind ?_
  rintro - s2 ⟨hg2, himage2, hrefs2, hkeeps2⟩
  have hm2 : Making sb r img dp ip ⟨type, 1, []⟩ s2 := by
    refine hm1.next hp hg2 hrefs2 hkeeps2 ?_
    rw [himage2, ← (mem_files_of_image hm1.image_self).2]
  rw [hrefs] at hkeeps1
  have hkeeps : Keeps r s s2 :=
    hkeeps1.tail.tail.trans
      (hm1.keeps hkeeps2)
  refine (dirlinkDots_spec hc hp hm2).bind ?_
  rintro res s3 ⟨hkeeps3, es, hm3, hdots⟩
  replace hkeeps3 := hkeeps.trans hkeeps3
  split
  · exact (createFail_spec hc hp hm3).mono fun _ _ h => h.after hkeeps3
  next hres =>
    exact (createEntry_spec hc hp hm3 hmax (hdots hres)).mono fun _ _ h => h.after hkeeps3

/-- The name is there already: `open` takes a file or a device, the others nothing. -/
lemma createOld_spec (hc : Calling sb r img cap) (hg : Good sb s) (hrefs : s.refs = ip ::ₘ r)
    (himage : image sb s.disk = img) (hip : img ip = some n) (hlinks : n.nlink ≠ 0) :
    Meets allowed (createOld sb ip type) s (Created sb r img type s) := by
  have hheld : ip ∈ s.refs := mem_refs_of_eq hrefs
  unfold createOld
  refine (ilock_spec hg hheld).bind ?_
  rintro - s1 ⟨hg1, hdisk1, hrefs1, hvalid1, hkeeps1⟩
  have hheld1 : ip ∈ s1.refs := hrefs1.symm ▸ hheld
  rw [hrefs] at hrefs1 hkeeps1
  replace hkeeps1 := hkeeps1.tail
  have himage1 : image sb s1.disk = img := hdisk1.symm ▸ himage
  have hinode := dinode_of_image (himage1.symm ▸ hip)
  refine meets_get ?_
  rw [hg1.coherent ip hheld1 hvalid1, hinode.1]
  split
  next hopen =>
    refine meets_pure ⟨hg1, hkeeps1, hrefs1, hvalid1, ?_, n, himage1.symm ▸ hip, hlinks,
      .inl ⟨himage1, hopen.1, ?_⟩⟩
    · rw [himage1]
      exact hc.unchanged
    intro hdir
    rw [hdir] at hopen
    exact absurd hopen.2 (by decide)
  · exact (createNone_spec hg1 hrefs1 (hinode.2.symm ▸ hlinks) himage1).mono
      fun _ _ h => h.after hkeeps1

/-- `create`, with the parent directory locked. -/
lemma createIn_spec (hc : Calling sb r img cap) (hg : Good sb s) (hrefs : s.refs = dp ::ₘ r)
    (himage : image sb s.disk = img) (hlocked : LockedDir sb s dp) (hdp : img dp = some nd)
    (hlive : nd.Live) (htype : type ≠ 0 ∧ -2 ^ 15 ≤ type ∧ type < 2 ^ 15)
    (hmax : type = tDir → nd.nlink < 32767) (hmajor : -2 ^ 15 ≤ major ∧ major < 2 ^ 15)
    (hminor : -2 ^ 15 ≤ minor ∧ minor < 2 ^ 15) :
    Meets (TableFull cap) (do
      match ← dirlookup sb dp name with
      | some (ip, _) => do
          iput sb dp
          createOld sb ip type
      | none => do
          match ← ialloc sb type with
          | none => do
              iput sb dp
              return none
          | some ip => createNew sb dp name ip type major minor) s (Created sb r img type s) := by
  have hes : dirEntries sb s.disk dp = nd.entries :=
    dirEntries_of_image (himage.symm ▸ hdp) hlive.1
  have hlinks : (dinode sb s.disk dp).nlink ≠ 0 := by
    rw [(dinode_of_image (himage.symm ▸ hdp)).2]
    exact hlive.2
  have hcap : s.refs.toFinset.card ≤ cap := by
    have hcard := card_cons_le dp r
    have hroom := hc.room
    rw [hrefs]
    omega
  refine (dirlookup_spec hg hlocked ?_ hcap).bind ?_
  · rw [hes]
    intro e he hne
    obtain ⟨m, hm, -⟩ := hc.links.target hdp hlive he hne
    exact (mem_files_of_image (himage.symm ▸ hm)).1
  rintro (_ | ⟨ip, off⟩) s1 ⟨hg1, hdisk1, hkeeps1, hres⟩
  · have himage1 : image sb s1.disk = img := hdisk1.symm ▸ himage
    have hlocked1 : LockedDir sb s1 dp :=
      ⟨hres.1.symm ▸ hlocked.held, hkeeps1.valid dp hlocked.held hlocked.valid,
        hdisk1.symm ▸ hlocked.dir⟩
    have hrefs1 := hres.1.trans hrefs
    rw [hrefs] at hkeeps1
    replace hkeeps1 := hkeeps1.tail
    refine (ialloc_spec hc.valid hg1 htype.1 htype.2 (hres.1.symm ▸ hcap)).bind ?_
    rintro (_ | ip) s2 hnew
    · simp only at hnew
      subst hnew
      exact (createNone_spec hg1 hrefs1 (hdisk1.symm ▸ hlinks) himage1).mono
        fun _ _ h => h.after hkeeps1
    obtain ⟨hg2, hrefs2, hkeeps2, ⟨hne, hlt, hfree⟩, himage2⟩ := hnew
    rw [himage1] at hfree himage2
    have hp : Spot sb img dp ip nd := ⟨hdp, hlive, hfree, hne, hlt⟩
    have hlocked2 : LockedDir sb s2 dp := by
      refine hlocked1.of_image hkeeps2 hlocked1.held ?_ ?_ hlive.1
      · rw [hrefs2]
        exact Multiset.mem_cons_of_mem hlocked1.held
      · rw [himage2, update_of_ne (Ne.symm hp.diff), hdp]
    rw [hrefs1] at hrefs2 hkeeps2
    refine (createNew_spec hc hp hg2 hrefs2 hlocked2 himage2 hmax hmajor hminor).mono
      fun _ _ h => h.after ?_
    exact hkeeps1.trans hkeeps2.tail
  · obtain ⟨hrefs1, k, -, hne, hget⟩ := hres
    rw [hes] at hget
    rw [hrefs] at hrefs1 hkeeps1
    rw [Multiset.cons_swap] at hrefs1
    obtain ⟨ni, hip, hnlink⟩ := hc.links.target hdp hlive (mem_of_getElem? hget) hne
    refine (iput_keep hg1 hrefs1 (.inr (hdisk1.symm ▸ hlinks))).bind ?_
    rintro - s2 ⟨hg2, hdisk2, hrefs2, hkeeps2⟩
    rw [hdisk1] at hdisk2
    refine (createOld_spec hc hg2 hrefs2 (hdisk2.symm ▸ himage) hip hnlink).mono
      fun _ _ h => h.after ?_
    exact hkeeps1.tail.trans
      hkeeps2.tail

lemma create_spec {path : List UInt8} (hc : Calling sb s.refs (image sb s.disk) cap)
    (hg : Good sb s) (hcwd : (s.procs pid).cwd ∈ s.refs)
    (htype : type ≠ 0 ∧ -2 ^ 15 ≤ type ∧ type < 2 ^ 15)
    (hmajor : -2 ^ 15 ≤ major ∧ major < 2 ^ 15) (hminor : -2 ^ 15 ≤ minor ∧ minor < 2 ^ 15) :
    Meets (TableFull cap) (create sb pid path type major minor) s
      (Created sb s.refs (image sb s.disk) type s) := by
  obtain ⟨hmem, hrootLive⟩ := root_live hc.links (rfl : image sb s.disk rootIno = _)
  have hroom := hc.room
  unfold create nameiparent
  refine (namex_spec hg hc.links.walkable hmem hrootLive hcwd (by omega)).bind ?_
  rintro (_ | ⟨dp, name⟩) s1 ⟨hg1, hdisk1, hkeeps1, hres⟩
  · exact meets_pure ⟨hg1, hkeeps1, hres, by rw [hdisk1]⟩
  obtain ⟨hrefs1, -, hparent⟩ := hres
  have hlive := hparent rfl
  refine (ilockDir_spec hg1 hrefs1 (hdisk1.symm ▸ hlive)).bind ?_
  rintro - s2 ⟨hg2, hdisk2, hrefs2, hlocked, hkeeps2⟩
  rw [hdisk1] at hdisk2
  have hkeeps := hkeeps1.trans hkeeps2.tail
  have hused := hg2.used dp hlocked.held
  have hlinks : (dinode sb s2.disk dp).nlink ≠ 0 := hdisk2.symm ▸ hlive.2
  refine meets_get ?_
  rw [hg2.coherent dp hlocked.held hlocked.valid, if_neg hlinks]
  split
  · exact (createNone_spec hg2 hrefs2 hlinks (by rw [hdisk2])).mono fun _ _ h => h.after hkeeps
  next hmax =>
    have hlt : type = tDir → (node sb s.disk dp).nlink < 32767 := by
      intro hdir
      rw [hdisk2] at hmax
      exact Int.not_le.mp fun h => hmax ⟨hdir, h⟩
    rw [hdisk2] at hused
    exact (createIn_spec hc hg2 hrefs2 (by rw [hdisk2]) hlocked (image_of_mem hused) hlive
      htype hlt hmajor hminor).mono fun _ _ h => h.after hkeeps

/-! ## The calls -/

lemma makeInode_spec {path : Option (List UInt8)}
    (hc : Calling sb s.refs (image sb s.disk) cap) (hg : Good sb s)
    (hcwd : (s.procs pid).cwd ∈ s.refs) (htype : type ≠ 0 ∧ -2 ^ 15 ≤ type ∧ type < 2 ^ 15)
    (hmajor : -2 ^ 15 ≤ major ∧ major < 2 ^ 15) (hminor : -2 ^ 15 ≤ minor ∧ minor < 2 ^ 15) :
    Meets (TableFull cap) (makeInode sb pid path type major minor) s
      (Finished sb s.refs (image sb s.disk) s) := by
  unfold makeInode
  split
  · exact meets_pure (Finished.unchanged hg rfl rfl)
  refine (create_spec hc hg hcwd htype hmajor hminor).bind ?_
  rintro (_ | ip) s1 ⟨hg1, hkeeps1, hres⟩
  · exact meets_pure ⟨hg1, hres.1, hkeeps1, .inl ⟨rfl, hres.2⟩⟩
  obtain ⟨hrefs1, -, hrelinked, n, hip, hlinks, -⟩ := hres
  rw [← (dinode_of_image hip).2] at hlinks
  refine (iput_keep hg1 hrefs1 (.inr hlinks)).bind ?_
  rintro - s2 ⟨hg2, hdisk2, hrefs2, hkeeps2⟩
  exact meets_pure ⟨hg2, hrefs2, hkeeps1.trans hkeeps2, .inr ⟨rfl, hdisk2.symm ▸ hrelinked⟩⟩

/-- There is a file that was not there before. -/
def NewFile (sb : Superblock) (s s' : State) : Prop :=
  ∃ i n, image sb s.disk i = none ∧ image sb s'.disk i = some n ∧ n.type = tFile

/-- How any of the calls ends. A call that returns -1 has not changed the image, unless
it came `short` of something when it had made its file. -/
structure Called (sb : Superblock) (short : Prop) (s : State) (res : Int) (s' : State) :
    Prop where
  good : Good sb s'
  relinked : Relinked sb.ninodes (· ∈ s.refs) (image sb s.disk) (image sb s'.disk)
  refs : ∀ i ∈ s.refs, i ∈ s'.refs
  opened : ∀ i ∈ s'.refs, i ∈ s.refs ∨ isDir (image sb s'.disk) i = false
  cwd : ∀ p, (s'.procs p).cwd = (s.procs p).cwd
  failed : res < 0 → image sb s'.disk = image sb s.disk ∨ (short ∧ NewFile sb s s')

lemma Finished.called {res : Int} (hc : Calling sb s.refs (image sb s.disk) cap)
    (h : Finished sb s.refs (image sb s.disk) s res s') : Called sb short s res s' := by
  obtain ⟨hg, hrefs, hkeeps, hres⟩ := h
  refine ⟨hg, ?_, fun _ hi => hrefs.symm ▸ hi, fun _ hi => .inl (hrefs ▸ hi),
    fun p => by rw [hkeeps.procs], ?_⟩
  · rcases hres with ⟨-, himage⟩ | ⟨-, hrelinked⟩
    · rw [himage]
      exact hc.unchanged
    · exact hrelinked
  intro hneg
  rcases hres with ⟨-, himage⟩ | ⟨hzero, -⟩
  · exact .inl himage
  · omega

/-- The contents of a file are not in the image. -/
lemma truncInode_spec (hv : sb.Valid) (hg : Good sb s) (hi : i ∈ s.refs)
    (hvalid : s.valid i = true) (hfile : (dinode sb s.disk i).type ≠ tDir) :
    Meets allowed (truncInode sb i) s fun _ s' =>
      Good sb s' ∧ image sb s'.disk = image sb s.disk ∧ s'.refs = s.refs ∧ Keeps s.refs s s' := by
  have hused := hg.used i hi
  obtain ⟨inode, d, heq, hself, hc⟩ := hg.sane.trunc hv hused hfile
  have himage := hc.image
  rw [← image_of_mem hused, update_eq_self] at himage
  unfold truncInode
  refine meets_get ?_
  rw [hg.coherent i hi hvalid, heq]
  refine ⟨hg.of_changed hc (fun _ h => h) (fun _ => Option.some_ne_none _) ?_ ?_, himage, rfl,
    ⟨fun _ _ h => h, rfl, rfl⟩⟩
  · intro _ _
    simp only [update_self]
    exact hself.symm
  · intro j _ hji hv'
    exact ⟨hv', update_of_ne hji _ _⟩

/-- `sys_open`, when `create` has given it inode `ip`. -/
lemma openInode_spec (hv : sb.Valid)
    (h : Created sb s0.refs (image sb s0.disk) tFile s0 (some ip) s) :
    Meets allowed (openInode sb pid ip omode) s
      (Called sb (filealloc s0 = none ∨ fdalloc s0 pid = none) s0) := by
  obtain ⟨hg, hkeeps, hrefs, hvalid, hrelinked, n, hip, hlinks, hkind⟩ := h
  have hfile : n.type ≠ tDir := by
    rcases hkind with ⟨-, -, hfile⟩ | ⟨-, htype⟩
    · exact hfile
    · rw [htype]
      decide
  have hinode := dinode_of_image hip
  have hheld : ip ∈ s.refs := mem_refs_of_eq hrefs
  have hmade : image sb s.disk = image sb s0.disk ∨ NewFile sb s0 s :=
    hkind.imp And.left fun hnew => ⟨ip, n, hnew.1, hip, hnew.2⟩
  -- the file is closed again
  have hclose : ∀ short : Prop,
      (image sb s.disk = image sb s0.disk ∨ (short ∧ NewFile sb s0 s)) →
      Meets allowed (iput sb ip >>= fun _ => pure (-1)) s (Called sb short s0) := by
    intro short hshort
    refine (iput_keep hg hrefs (.inr (hinode.2.symm ▸ hlinks))).bind ?_
    rintro - s1 ⟨hg1, hdisk1, hrefs1, hkeeps1⟩
    refine meets_pure ⟨hg1, hdisk1.symm ▸ hrelinked, fun _ hi => hrefs1.symm ▸ hi,
      fun _ hi => .inl (hrefs1 ▸ hi), fun p => ?_, fun _ => ?_⟩
    · rw [hkeeps1.procs, hkeeps.procs]
    · rw [NewFile, hdisk1]
      exact hshort
  unfold openInode
  refine meets_get ?_
  rw [hg.coherent ip hheld hvalid, hinode.1]
  split
  next hdevice =>
    refine hclose _ (.inl ?_)
    rcases hkind with ⟨himage, -⟩ | ⟨-, htype⟩
    · exact himage
    · rw [htype] at hdevice
      exact absurd hdevice.1 (by decide)
  · have halloc : filealloc s = filealloc s0 := by
      rw [filealloc, filealloc, hkeeps.ftable]
    have hfdalloc : fdalloc s pid = fdalloc s0 pid := by
      rw [fdalloc, fdalloc, hkeeps.procs]
    rw [halloc, hfdalloc]
    rcases hf : filealloc s0 with _ | f
    · exact hclose _ (hmade.imp_right fun hnew => ⟨.inl rfl, hnew⟩)
    rcases hfd : fdalloc s0 pid with _ | fd
    · exact hclose _ (hmade.imp_right fun hnew => ⟨.inr rfl, hnew⟩)
    refine meets_set ?_
    have hdone : ∀ s1 : State, Good sb s1 → image sb s1.disk = image sb s.disk →
        s1.refs = s.refs → (∀ p, (s1.procs p).cwd = (s.procs p).cwd) →
        Called sb (some f = none ∨ some fd = none) s0 fd.val s1 := by
      intro s1 hg1 himage1 hrefs1 hcwd1
      rw [hrefs] at hrefs1
      refine ⟨hg1, himage1.symm ▸ hrelinked, ?_, ?_, ?_, fun hneg => by omega⟩
      · intro i hi
        rw [hrefs1]
        exact Multiset.mem_cons_of_mem hi
      · intro i hi
        rw [hrefs1] at hi
        rcases Multiset.mem_cons.mp hi with rfl | hi
        · right
          rw [isDir, himage1, hip]
          simpa using hfile
        · exact .inl hi
      · intro p
        rw [hcwd1, hkeeps.procs]
    have hcwd : ∀ p, (update s.procs pid { s.procs pid with
        ofile := update (s.procs pid).ofile fd (some f) } p).cwd =
        (s.procs p).cwd := by
      intro p
      by_cases hp : p = pid
      · subst hp
        rw [update_self]
      · rw [update_of_ne hp]
    have hg' : Good sb { s with
        ftable := update s.ftable f (some (openFile ip (dinode sb s.disk ip) omode))
        procs := update s.procs pid { s.procs pid with
          ofile := update (s.procs pid).ofile fd (some f) } } :=
      ⟨hg.sane, hg.used, hg.coherent⟩
    unfold ifThen
    split
    · refine (truncInode_spec hv hg' hheld hvalid (hinode.1.symm ▸ hfile)).bind ?_
      rintro - s1 ⟨hg1, himage1, hrefs1, hkeeps1⟩
      refine meets_pure (hdone s1 hg1 himage1 hrefs1 fun p => ?_)
      rw [hkeeps1.procs]
      exact hcwd p
    · exact meets_pure (hdone _ hg' rfl rfl hcwd)

/-- `sys_open` with `O_CREATE`. -/
lemma sysOpen_spec {path : Option (List UInt8)} (hcreate : omode &&& oCreate ≠ 0)
    (hc : Calling sb s.refs (image sb s.disk) cap) (hg : Good sb s)
    (hcwd : (s.procs pid).cwd ∈ s.refs) :
    Meets (TableFull cap) (sysOpen sb pid path omode) s
      (Called sb (filealloc s = none ∨ fdalloc s pid = none) s) := by
  unfold sysOpen
  split
  · exact meets_pure ((Finished.unchanged hg rfl rfl).called hc)
  rw [if_pos hcreate]
  refine (create_spec hc hg hcwd (by decide) (by decide) (by decide)).bind ?_
  rintro (_ | ip) s1 hcreated
  · obtain ⟨hg1, hkeeps1, hrefs1, himage1⟩ := hcreated
    exact meets_pure (Finished.called hc ⟨hg1, hrefs1, hkeeps1, .inl ⟨rfl, himage1⟩⟩)
  · exact openInode_spec hc.valid hcreated

end

end CshellXv6.Fs
