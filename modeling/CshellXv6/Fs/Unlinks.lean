import CshellXv6.Fs.Links

/-! # An entry is taken away

The other step: a directory loses a proper entry, and the inode that it named one of
its links. A directory loses its only link; it stays as a removed directory for those
who hold it, or it is freed.
-/

namespace CshellXv6.Fs

open Lib Function List

/-- Directory `d` loses an entry for inode `i`, which is a file or an empty directory,
and is freed if it can be. -/
structure Removes (img : Image) (d i : Nat) (nd ni nd' : Node) (ni' : Option Node) : Prop where
  dir : img d = some nd
  live : nd.Live
  target : img i = some ni
  diff : i ≠ d
  entries : ∃ A e z B, nd.entries = A ++ e :: B ∧ nd'.entries = A ++ z :: B ∧ 2 ≤ A.length ∧
    e.inum = i ∧ z.inum = 0
  type : nd'.type = tDir
  nlink : nd'.nlink = nd.nlink - if ni.type = tDir then 1 else 0
  empty : ni.type = tDir → ∀ e ∈ ni.proper, e.inum = 0
  left : ni' = some { ni with nlink := ni.nlink - 1 } ∨ (ni' = none ∧ ni.nlink = 1)

/-- The image after that. -/
def dropped (img : Image) (d i : Nat) (nd' : Node) (ni' : Option Node) : Image :=
  update (update img d (some nd')) i ni'

section

variable {N i j d x : Nat} {img : Image} {n nd ni nd' m : Node} {ni' : Option Node} {e : Dirent}

lemma dropped_target : dropped img d i nd' ni' i = ni' := update_self ..

variable (h : Links N img) (hr : Removes img d i nd ni nd' ni')

section

include hr

lemma Removes.exchange : Exchange img (dropped img d i nd' ni') d i nd nd' := by
  refine ⟨hr.dir, hr.live, hr.diff, ?_, hr.type, fun j hjd hji => ?_⟩
  · rw [dropped, update_of_ne (Ne.symm hr.diff), update_self]
  · rw [dropped, update_of_ne hji, update_of_ne hjd]

/-- What is left of the inode. -/
lemma Removes.eq_left (hn : ni' = some n) : n = { ni with nlink := ni.nlink - 1 } := by
  rcases hr.left with hsome | ⟨hnone, -⟩
  · exact Option.some.inj (hn.symm.trans hsome)
  · cases hn.symm.trans hnone

lemma Removes.exists_entry : ∃ e ∈ nd.proper, e.inum = i := by
  obtain ⟨A, e, z, B, hold, -, hA, he, -⟩ := hr.entries
  refine ⟨e, ?_, he⟩
  rw [Node.proper_eq hold hA]
  exact mem_append_right _ mem_cons_self

lemma Removes.countP_proper {p : Nat → Bool} (hp : p 0 = false) :
    nd'.proper.countP (fun e => p e.inum) + (if p i then 1 else 0) =
      nd.proper.countP (fun e => p e.inum) := by
  obtain ⟨A, e, z, B, hold, hnew, hA, he, hz⟩ := hr.entries
  rw [Node.proper_eq hold hA, Node.proper_eq hnew hA]
  simp only [countP_append, countP_cons, he, hz, hp]
  simp
  omega

lemma Removes.mem_proper (he : e ∈ nd.proper) (hne : e.inum ≠ i) : e ∈ nd'.proper := by
  obtain ⟨A, e0, z, B, hold, hnew, hA, he0, -⟩ := hr.entries
  exact (Node.mem_proper_exchange (X := [e0]) (Y := [z]) hold hnew hA he).resolve_right
    fun hmem => hne (mem_singleton.mp hmem ▸ he0)

lemma Removes.of_mem_proper (he : e ∈ nd'.proper) (hne : e.inum ≠ 0) : e ∈ nd.proper := by
  obtain ⟨A, e0, z, B, hold, hnew, hA, -, hz⟩ := hr.entries
  exact (Node.mem_proper_exchange (X := [z]) (Y := [e0]) hnew hold hA he).resolve_right
    fun hmem => hne (mem_singleton.mp hmem ▸ hz)

lemma Removes.isDir_target (hdir : ni.type ≠ tDir) :
    isDir (dropped img d i nd' ni') i = isDir img i := by
  rw [isDir, isDir, dropped_target, hr.target]
  rcases hr.left with hsome | ⟨hnone, -⟩
  · rw [hsome]
    rfl
  · simp [hnone, hdir]

end

include h hr

/-! ## The inode that loses a link -/

lemma Removes.links_pos : 0 < links N img i := by
  obtain ⟨e, he, hi⟩ := hr.exists_entry
  exact h.links_pos hr.dir hr.live he hi

lemma Removes.ne_root : i ≠ rootIno := by
  rintro rfl
  obtain ⟨n, hn, hlive⟩ := h.root
  have hpos := hr.links_pos h
  rw [h.dirs _ n hn hlive.1, if_pos (.inl rfl)] at hpos
  exact absurd hpos (lt_irrefl 0)

/-- An empty directory has one link, and one entry names it. -/
lemma Removes.of_dir (hdir : ni.type = tDir) : ni.nlink = 1 ∧ links N img i = 1 := by
  have hpos := hr.links_pos h
  have hlinks := h.dirs i ni hr.target hdir
  have hlive : ni.Live := by
    refine ⟨hdir, fun hzero => ?_⟩
    rw [hlinks, if_pos (.inr hzero)] at hpos
    exact absurd hpos (lt_irrefl 0)
  have hnone : subdirs img ni = 0 := by
    rw [subdirs, countP_eq_zero]
    intro e he
    rw [hr.empty hdir e he, h.isDir_zero]
    decide
  refine ⟨?_, ?_⟩
  · rw [h.counts i ni hr.target hlive, hnone]
    rfl
  · rw [hlinks, if_neg]
    simp [hr.ne_root h, hlive.2]

/-- When the inode is freed or was a directory, that was its last entry. -/
lemma Removes.links_eq_one (hlast : ni.type = tDir ∨ ni' = none) : links N img i = 1 := by
  by_cases hdir : ni.type = tDir
  · exact (hr.of_dir h hdir).2
  have hcount := h.files i ni hr.target hdir
  rcases hr.left with hsome | ⟨-, hone⟩
  · cases hsome.symm.trans (hlast.resolve_left hdir)
  · omega

/-- What is left of the inode names nothing. -/
lemma Removes.not_live (hn : ni' = some n) : ¬ n.Live := by
  rintro ⟨hdir, hne⟩
  cases hr.eq_left hn
  exact hne (by simp [(hr.of_dir h hdir).1])

/-! ## The directory that loses an entry -/

lemma Removes.live' : nd'.Live := by
  refine ⟨hr.type, ?_⟩
  rw [hr.nlink]
  split
  next hdir =>
    -- the inode was one of the subdirectories
    have hcount := hr.countP_proper (p := isDir img) h.isDir_zero
    have htrue : isDir img i = true := isDir_eq_true.mpr ⟨ni, hr.target, hdir⟩
    have hsub : nd.nlink = 1 + subdirs img nd := h.counts d nd hr.dir hr.live
    rw [htrue, if_pos rfl] at hcount
    unfold subdirs at hsub
    omega
  · have := hr.live.2
    omega

lemma Removes.names_nodup : nd'.names.Nodup := by
  obtain ⟨A, e, z, B, hold, hnew, -, -, hz⟩ := hr.entries
  have hnodup := h.names d nd hr.dir hr.live.1
  refine hnodup.sublist ?_
  rw [Node.names, Node.names, hold, hnew, filter_append, filter_append,
    filter_cons_of_neg (by simp [hz])]
  refine List.Sublist.map _ (List.Sublist.append_left ?_ _)
  exact (sublist_cons_self e B).filter _

/-! ## The counts -/

lemma Removes.links_eq (hj : j ≠ 0) :
    links N (dropped img d i nd' ni') j + (if j = i then 1 else 0) = links N img j := by
  have hboth := links_update_update img j (some nd') ni' (h.bound d nd hr.dir)
    (h.bound i ni hr.target) (Ne.symm hr.diff)
  have hnew : naming Node.proper j ni' = 0 := by
    cases hn : ni' with
    | none => rfl
    | some n => exact naming_of_empty fun hlive => absurd hlive (hr.not_live h hn)
  have hold : naming Node.proper j (img i) = 0 := by
    rw [hr.target]
    refine naming_of_empty fun hlive e he => ?_
    rw [hr.empty hlive.1 e he]
    exact Ne.symm hj
  have hcount := hr.countP_proper (p := fun m => decide (m = j)) (by simpa using Ne.symm hj)
  rw [hnew, hold, hr.dir, naming_of_live hr.live, naming_of_live (hr.live' h), ← hcount] at hboth
  unfold dropped
  simp only [decide_eq_true_eq, eq_comm (a := i)] at hboth
  omega

lemma Removes.bound (hj : dropped img d i nd' ni' j = some m) : j < N := by
  rcases hr.exchange.cases hj with ⟨rfl, -⟩ | rfl | ⟨-, -, hold⟩
  · exact h.bound _ nd hr.dir
  · exact h.bound _ ni hr.target
  · exact h.bound j m hold

/-- An inode that has been freed, or is a removed directory, is not named. -/
lemma Removes.not_named (hlast : ni.type = tDir ∨ ni' = none)
    (hx : dropped img d i nd' ni' x = some m) (hlive : m.Live) (he : e ∈ m.proper) :
    e.inum ≠ i := by
  have hone := hr.links_eq_one h hlast
  have hlinks := hr.links_eq h (h.ne_zero hr.target)
  rw [if_pos rfl] at hlinks
  have hzero := links_eq_zero.mp (show links N (dropped img d i nd' ni') i = 0 by omega) x
    (hr.bound h hx)
  rw [hx, naming_of_live hlive, countP_eq_zero] at hzero
  simpa using hzero e he

/-- Of the directories that are left, none had the inode as a subdirectory. -/
lemma Removes.subdirs_eq (hx : dropped img d i nd' ni' x = some m) (hlive : m.Live) :
    subdirs (dropped img d i nd' ni') m = subdirs img m := by
  refine countP_congr fun e he => ?_
  by_cases hei : e.inum = i
  · by_cases hdir : ni.type = tDir
    · exact absurd hei (hr.not_named h (.inl hdir) hx hlive he)
    · rw [hei, hr.isDir_target hdir]
  · rw [hr.exchange.isDir_eq hei]

lemma Removes.edits : Edits N img (dropped img d i nd' ni') d i nd nd' where
  toExchange := hr.exchange
  inum := ⟨h.ne_zero hr.target, h.bound i ni hr.target⟩
  root := hr.ne_root h
  live' := hr.live' h
  entries := by
    obtain ⟨A, e, z, B, hold, hnew, hA, -, -⟩ := hr.entries
    exact ⟨A, [e], [z], B, hold, hnew, hA⟩
  names := hr.names_nodup h
  kept e he _ hei := hr.mem_proper he hei
  empty n hn hlive := by
    cases hr.target.symm.trans hn
    exact hr.empty hlive.1
  links j hj hji := by
    have hlinks := hr.links_eq h hj
    rwa [if_neg hji, Nat.add_zero] at hlinks
  counts := by
    rw [hr.subdirs_eq h hr.exchange.dir' (hr.live' h)]
    have hcount : subdirs img nd' + _ = subdirs img nd :=
      hr.countP_proper (p := isDir img) h.isDir_zero
    have hdir : isDir img i = decide (ni.type = tDir) := by
      rw [isDir, hr.target]
      rfl
    have hbefore := h.counts _ nd hr.dir hr.live
    rw [hr.nlink]
    simp only [hdir, decide_eq_true_eq] at hcount
    split
    next htype =>
      rw [if_pos htype] at hcount
      omega
    next htype =>
      rw [if_neg htype] at hcount
      omega
  subdirs j m hjd hji hold hlive := hr.subdirs_eq h ((hr.exchange.other j hjd hji).trans hold) hlive
  targets j m hj hlive e he hne := by
    -- an inode that is gone is not named
    have hkept : img e.inum ≠ none → dropped img d i nd' ni' e.inum ≠ none := by
      intro hsome
      by_cases hei : e.inum = i
      · intro hnone
        rw [hei, dropped_target] at hnone
        exact hr.not_named h (.inr hnone) hj hlive he hei
      by_cases hed : e.inum = d
      · rw [hed, hr.exchange.dir']
        exact Option.some_ne_none nd'
      · rwa [hr.exchange.other _ hed hei]
    refine hkept ?_
    rcases hr.exchange.cases hj with ⟨rfl, rfl⟩ | rfl | ⟨-, -, hold⟩
    · exact h.targets _ nd hr.dir hr.live e (hr.of_mem_proper he hne) hne
    · exact absurd hlive (hr.not_live h (dropped_target.symm.trans hj))
    · exact h.targets j m hold hlive e he hne

/-- The counts are right again when an entry has been taken away. -/
lemma Removes.links : Links N (dropped img d i nd' ni') := by
  refine (hr.edits h).relinks h fun n hn => ?_
  rw [dropped_target] at hn
  have hnot := hr.not_live h hn
  cases hr.eq_left hn
  have hlinks := hr.links_eq h (h.ne_zero hr.target)
  rw [if_pos rfl] at hlinks
  constructor
  · exact h.dots _ ni hr.target
  · exact h.names _ ni hr.target
  · exact fun hlive => absurd hlive hnot
  · intro hfile
    have hcount := h.files _ ni hr.target hfile
    simp only
    omega
  · intro hdir
    obtain ⟨hone, hlinks1⟩ := hr.of_dir h hdir
    rw [if_pos (by simp [hone])]
    omega
  · exact fun hdir _ => hr.empty hdir

lemma Removes.relinked {held : Nat → Prop}
    (horphans : ∀ j n, img j = some n → n.nlink = 0 → held j) (hfreed : ni' = none → ¬ held i)
    (hkept : ∀ n, ni' = some n → n.nlink = 0 → held i) :
    Relinked N held img (dropped img d i nd' ni') := by
  refine hr.exchange.relinked (hr.links h) (hr.live' h) horphans (fun n hn => ?_) fun hi => ?_
  · exact hkept n (dropped_target.symm.trans hn)
  · rcases hr.left with hsome | ⟨hnone, -⟩
    · rw [isDir, isDir, dropped_target, hr.target, hsome]
      rfl
    · exact absurd hi (hfreed hnone)

end

end CshellXv6.Fs
