import CshellXv6.Fs.Calls

/-! # `sys_unlink` keeps the link counts

When `sys_unlink` has found the entry and the inode behind it can go, it clears the
entry, lowers the two counts, and lets go of the two inodes. The inode is freed by the
last `iput` if nobody else holds it.
-/

namespace CshellXv6.Fs

open Lib Function List

section

variable {sb : Superblock} {s s' : State} {r : Multiset Nat} {i dp ip cap pid k : Nat}
variable {allowed : Panic → Prop} {img : Image} {n nd ni nd' : Node} {name : List UInt8} {N : Nat}

/-- The last `iput`: the inode has one link less, and is freed if it can be. -/
lemma unlinkLast_spec (hc : Calling sb r img cap) (hg : Good sb s)
    (hrefs : s.refs = ip ::ₘ r) (hvalid : s.valid ip = true)
    (hr : ∀ ni', (ni' = some { ni with nlink := ni.nlink - 1 } ∨ (ni' = none ∧ ni.nlink = 1)) →
      Removes img dp ip nd ni nd' ni')
    (himage : image sb s.disk = update img dp (some nd')) :
    Meets allowed (do
      modifyInode sb ip fun inode => { inode with nlink := inode.nlink - 1 }
      iput sb ip
      return 0) s (Finished sb r img s) := by
  have hr1 := hr _ (.inl rfl)
  have hheld : ip ∈ s.refs := mem_refs_of_eq hrefs
  have hip : image sb s.disk ip = some ni := by
    rw [himage, update_of_ne hr1.diff, hr1.target]
  have hnonneg := hc.links.nlink_nonneg hr1.target
  have hfits : (dinode sb s.disk ip).Fits := dinode_fits
  have hshort := hfits.nlink
  rw [(dinode_of_image hip).2] at hshort
  refine (modifyNlink_spec (fun x => x - 1) hc.valid hg hheld hvalid hip (by omega)).bind ?_
  rintro - s1 ⟨hg1, himage1, hrefs1, hkeeps1⟩
  have hheld1 : ip ∈ s1.refs := hrefs1.symm ▸ hheld
  have hvalid1 := hkeeps1.valid ip hheld hvalid
  rw [hrefs] at hrefs1 hkeeps1
  rw [himage, ← dropped] at himage1
  have hnlink : (dinode sb s1.disk ip).nlink = ni.nlink - 1 :=
    (dinode_of_image (himage1 ▸ dropped_target)).2
  have hkeeps := hkeeps1.tail
  by_cases hstay : ip ∈ r ∨ ni.nlink - 1 ≠ 0
  · refine (iput_keep hg1 hrefs1 (hnlink.symm ▸ hstay)).bind ?_
    rintro - s2 ⟨hg2, hdisk2, hrefs2, hkeeps2⟩
    refine meets_pure ⟨hg2, hrefs2, hkeeps.trans hkeeps2, .inr ⟨rfl, ?_⟩⟩
    rw [hdisk2, himage1]
    refine hr1.relinked hc.links hc.orphans (fun h => absurd h (Option.some_ne_none _)) ?_
    intro m hm hzero
    cases hm
    exact hstay.resolve_right (not_not.mpr hzero)
  have hnot : ip ∉ r := fun h => hstay (.inl h)
  have hone : ni.nlink = 1 := by
    by_contra hne
    exact hstay (.inr (by omega))
  refine (iput_free hc.valid hg1 hrefs1 hnot hvalid1 (by rw [hnlink, hone]; rfl)).bind ?_
  rintro - s2 ⟨hg2, himage2, hrefs2, hkeeps2⟩
  refine meets_pure ⟨hg2, hrefs2, hkeeps.trans hkeeps2, .inr ⟨rfl, ?_⟩⟩
  have hr2 := hr none (.inr ⟨rfl, hone⟩)
  have hfreed := hr2.relinked hc.links hc.orphans (fun _ => hnot) (fun _ h => by cases h)
  rw [himage2, himage1, dropped, update_idem]
  exact hfreed

lemma unlinkEntry_spec (hc : Calling sb r img cap) (hg : Good sb s)
    (hrefs : s.refs = ip ::ₘ dp ::ₘ r) (himage : image sb s.disk = img)
    (hlocked : LockedDir sb s dp) (hdp : img dp = some nd) (hlive : nd.Live)
    (hip : img ip = some ni) (hvalid : s.valid ip = true) (hdiff : ip ≠ dp)
    (hget : nd.entries[k]? = some ⟨ip, name⟩) (hk : 2 ≤ k)
    (hempty : ni.type = tDir → ∀ e ∈ ni.proper, e.inum = 0) :
    Meets allowed (unlinkEntry sb dp ip (16 * k)) s (Finished sb r img s) := by
  have hes : dirEntries sb s.disk dp = nd.entries :=
    dirEntries_of_image (himage.symm ▸ hdp) hlive.1
  have hlt : k < nd.entries.length := (List.getElem?_eq_some_iff.mp hget).1
  have hheld : ip ∈ s.refs := mem_refs_of_eq hrefs
  unfold unlinkEntry
  refine (writeInode_spec hc.valid hg hlocked (hes ▸ hlt.le) length_replicate).bind ?_
  rintro res s1 ⟨hg1, hrefs1, hkeeps1, hwritten⟩
  rw [hes] at hwritten
  rcases hwritten with ⟨hres, himage1⟩ | ⟨-, hend, -⟩
  · rw [if_neg (not_not.mpr hres)]
    have hnode : node sb s.disk dp = nd := (mem_files_of_image (himage.symm ▸ hdp)).2.symm
    rw [himage, hnode] at himage1
    have hip1 : image sb s1.disk ip = some ni := by
      rw [himage1, update_of_ne hdiff, hip]
    have hdp1 := congrFun himage1 dp
    rw [update_self] at hdp1
    have hlocked1 := hlocked.of_image hkeeps1 hlocked.held (hrefs1.symm ▸ hlocked.held) hdp1 hlive.1
    have hnonneg : 0 ≤ nd.nlink := hc.links.nlink_nonneg hdp
    refine meets_get ?_
    rw [hg1.coherent ip (hrefs1.symm ▸ hheld) (hkeeps1.valid ip hheld hvalid),
      (dinode_of_image hip1).1]
    have hfits : (dinode sb s1.disk dp).Fits := dinode_fits
    have hshort := hfits.nlink
    rw [(dinode_of_image hdp1).2] at hshort
    refine (ifThenNlink_spec (fun x => x - 1) hc.valid hg1 hlocked1 hdp1 fun _ => by
      simp only at hshort ⊢
      omega).bind ?_
    rintro - s2 ⟨hg2, himage2, hrefs2, hkeeps2⟩
    rw [hrefs1] at hrefs2 hkeeps2
    have hvalid2 := (hkeeps1.trans hkeeps2).valid ip hheld hvalid
    rw [hrefs] at hrefs2 hkeeps1 hkeeps2
    rw [himage1, update_idem] at himage2
    -- the entry is gone, and the counts are right but for that of the inode
    have hr : ∀ ni', (ni' = some { ni with nlink := ni.nlink - 1 } ∨
        (ni' = none ∧ ni.nlink = 1)) → Removes img dp ip nd ni
          { nd with
            entries := setSlot nd.entries k (entry (List.replicate 16 0))
            nlink := if ni.type = tDir then nd.nlink - 1 else nd.nlink } ni' := fun ni' hleft =>
      { dir := hdp
        live := hlive
        target := hip
        diff := hdiff
        entries := ⟨nd.entries.take k, ⟨ip, name⟩, entry (List.replicate 16 0),
          nd.entries.drop (k + 1), by
            have hsplit := take_append_drop k nd.entries
            rw [List.drop_eq_getElem?_toList_append, hget] at hsplit
            exact hsplit.symm, rfl, by rw [length_take]; omega, rfl, entry_zero⟩
        type := hlive.1
        nlink := by split <;> simp
        empty := hempty
        left := hleft }
    have hlive' := (hr _ (.inl rfl)).live' hc.links
    have hnlink : (dinode sb s2.disk dp).nlink ≠ 0 := by
      rw [(dinode_of_image (himage2 ▸ update_self ..)).2]
      exact hlive'.2
    rw [Multiset.cons_swap] at hrefs2
    refine (iput_keep hg2 hrefs2 (.inr hnlink)).bind ?_
    rintro - s3 ⟨hg3, hdisk3, hrefs3, hkeeps3⟩
    have hvalid3 := hkeeps3.valid ip (Multiset.mem_cons_self ip r) hvalid2
    refine (unlinkLast_spec hc hg3 hrefs3 hvalid3 hr (hdisk3.symm ▸ himage2)).mono
      fun _ _ h => h.after ?_
    exact (hkeeps1.trans hkeeps2).tail.tail.trans hkeeps3.tail
  · omega

/-- Whether the inode can go: it is no directory, or an empty one. -/
lemma removable_spec (hc : Calling sb r img cap) (hg : Good sb s) (himage : image sb s.disk = img)
    (hip : img ip = some ni) (hheld : ip ∈ s.refs) (hvalid : s.valid ip = true) :
    Meets allowed (removable sb ip ni.type) s fun res s' => s' = s ∧
      (res = true → ni.type = tDir → ∀ e ∈ ni.proper, e.inum = 0) := by
  unfold removable
  split
  next hdir =>
    have hes : dirEntries sb s.disk ip = ni.entries :=
      dirEntries_of_image (himage.symm ▸ hip) hdir
    obtain ⟨p, rest, hdots⟩ := hc.links.dots ip ni hip hdir
    have hlocked : LockedDir sb s ip := by
      refine ⟨hheld, hvalid, ?_⟩
      rw [(dinode_of_image (himage.symm ▸ hip)).1, hdir]
    have hlen : 2 ≤ (dirEntries sb s.disk ip).length := by
      rw [hes, hdots]
      simp
    refine (isdirempty_spec hg hlocked hlen).mono ?_
    rintro res s' ⟨hs, hempty⟩
    rw [hes] at hempty
    exact ⟨hs, fun h _ => hempty h⟩
  next hfile => exact meets_pure ⟨rfl, fun _ h => absurd h hfile⟩

/-- An entry with a name other than `.` and `..` is a proper one. -/
lemma two_le_of_name (h : Links N img) (hdp : img dp = some nd) (hlive : nd.Live)
    (hget : nd.entries[k]? = some ⟨ip, cname name⟩)
    (hname : ¬ (namecmp name dot = 0 ∨ namecmp name dotdot = 0)) : 2 ≤ k := by
  obtain ⟨p, rest, hdots⟩ := h.dots dp nd hdp hlive.1
  by_contra hlt
  have hcases : k = 0 ∨ k = 1 := by omega
  refine hname ?_
  rw [namecmp_eq_zero, namecmp_eq_zero]
  rw [hdots] at hget
  rcases hcases with rfl | rfl
  · left
    exact (congrArg Dirent.name (Option.some.inj hget)).symm
  · right
    exact (congrArg Dirent.name (Option.some.inj hget)).symm

lemma unlinkIn_spec (hc : Calling sb r img cap) (hg : Good sb s) (hrefs : s.refs = dp ::ₘ r)
    (himage : image sb s.disk = img) (hlocked : LockedDir sb s dp) (hdp : img dp = some nd)
    (hlive : nd.Live) : Meets (TableFull cap) (unlinkIn sb dp name) s (Finished sb r img s) := by
  have hes : dirEntries sb s.disk dp = nd.entries :=
    dirEntries_of_image (himage.symm ▸ hdp) hlive.1
  have hnlink : (dinode sb s.disk dp).nlink ≠ 0 := by
    rw [(dinode_of_image (himage.symm ▸ hdp)).2]
    exact hlive.2
  unfold unlinkIn
  split
  · exact fail_spec hg hrefs (.inr hnlink) himage
  next hdot =>
    have hcard := card_cons_le dp r
    have hroom := hc.room
    have hcap : s.refs.toFinset.card ≤ cap := by
      rw [hrefs]
      omega
    refine (dirlookup_spec hg hlocked ?_ hcap).bind ?_
    · rw [hes]
      intro e he hne
      obtain ⟨m, hm, -⟩ := hc.links.target hdp hlive he hne
      exact (mem_files_of_image (himage.symm ▸ hm)).1
    rintro (_ | ⟨ip, off⟩) s1 ⟨hg1, hdisk1, hkeeps1, hres⟩
    all_goals rw [hrefs] at hkeeps1 hres
    · exact (fail_spec hg1 hres.1 (.inr (hdisk1.symm ▸ hnlink))
        (hdisk1.symm ▸ himage)).mono fun _ _ h =>
          h.after hkeeps1.tail
    obtain ⟨hrefs1, k, rfl, hne, hget⟩ := hres
    rw [hes] at hget
    have hmem : (⟨ip, cname name⟩ : Dirent) ∈ nd.entries := mem_of_getElem? hget
    obtain ⟨ni, hip, hlinks⟩ := hc.links.target hdp hlive hmem hne
    have hnonneg := hc.links.nlink_nonneg hip
    have hk := two_le_of_name hc.links hdp hlive hget hdot
    have hheld1 : ip ∈ s1.refs := mem_refs_of_eq hrefs1
    refine (ilock_spec hg1 hheld1).bind ?_
    rintro - s2 ⟨hg2, hdisk2, hrefs2, hvalid2, hkeeps2⟩
    have hheld2 : ip ∈ s2.refs := hrefs2.symm ▸ hheld1
    rw [hrefs1] at hrefs2 hkeeps2
    rw [hdisk1] at hdisk2
    have hkeeps := hkeeps1.trans hkeeps2.tail
    have himage2 : image sb s2.disk = img := hdisk2.symm ▸ himage
    have hip2 : image sb s2.disk ip = some ni := himage2.symm ▸ hip
    have hlocked2 : LockedDir sb s2 dp := by
      refine hlocked.of_image hkeeps (Multiset.mem_cons_self dp r) ?_ (himage2.symm ▸ hdp) hlive.1
      rw [hrefs2]
      exact Multiset.mem_cons_of_mem (Multiset.mem_cons_self dp r)
    replace hkeeps := hkeeps.tail
    refine meets_get ?_
    rw [hg2.coherent ip hheld2 hvalid2, (dinode_of_image hip2).1, (dinode_of_image hip2).2,
      if_neg (by omega)]
    refine (removable_spec hc hg2 himage2 hip hheld2 hvalid2).bind ?_
    rintro res s3 ⟨rfl, hempty⟩
    split
    next hres =>
      have hdiff : ip ≠ dp := by
        -- an empty directory does not name itself
        rintro rfl
        rw [hip] at hdp
        cases hdp
        exact hne (hempty hres hlive.1 _ (Node.mem_proper hget hk))
      exact (unlinkEntry_spec hc hg2 hrefs2 himage2 hlocked2 hdp hlive hip hvalid2 hdiff hget
        hk (hempty hres)).mono fun _ _ h => h.after hkeeps
    · have hkeep : (dinode sb s3.disk ip).nlink ≠ 0 := by
        rw [(dinode_of_image hip2).2]
        exact hlinks
      refine (iput_keep hg2 hrefs2 (.inr hkeep)).bind ?_
      rintro - s4 ⟨hg4, hdisk4, hrefs4, hkeeps4⟩
      rw [hdisk2] at hdisk4
      refine (fail_spec hg4 hrefs4 (.inr (hdisk4.symm ▸ hnlink))
        (hdisk4.symm ▸ himage)).mono fun _ _ h => h.after ?_
      exact hkeeps.trans hkeeps4.tail

lemma sysUnlink_spec {path : Option (List UInt8)} (hc : Calling sb s.refs (image sb s.disk) cap)
    (hg : Good sb s) (hcwd : (s.procs pid).cwd ∈ s.refs) :
    Meets (TableFull cap) (sysUnlink sb pid path) s (Finished sb s.refs (image sb s.disk) s) := by
  obtain ⟨hmem, hrootLive⟩ := root_live hc.links (rfl : image sb s.disk rootIno = _)
  have hroom := hc.room
  unfold sysUnlink
  split
  · exact meets_pure (Finished.unchanged hg rfl rfl)
  unfold nameiparent
  refine (namex_spec hg hc.links.walkable hmem hrootLive hcwd (by omega)).bind ?_
  rintro (_ | ⟨dp, name⟩) s1 ⟨hg1, hdisk1, hkeeps1, hres⟩
  · exact meets_pure ⟨hg1, hres, hkeeps1, .inl ⟨rfl, by rw [hdisk1]⟩⟩
  obtain ⟨hrefs1, -, hparent⟩ := hres
  have hlive := hparent rfl
  refine (ilockDir_spec hg1 hrefs1 (hdisk1.symm ▸ hlive)).bind ?_
  rintro - s2 ⟨hg2, hdisk2, hrefs2, hlocked, hkeeps2⟩
  rw [hdisk1] at hdisk2
  have hused := hg2.used dp hlocked.held
  rw [hdisk2] at hused
  refine (unlinkIn_spec hc hg2 hrefs2 (by rw [hdisk2]) hlocked (image_of_mem hused)
    hlive).mono fun _ _ h => h.after ?_
  exact hkeeps1.trans hkeeps2.tail

end

end CshellXv6.Fs
