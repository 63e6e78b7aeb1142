import CshellXv6.Fs.Image
import CshellXv6.Lib.Totals

/-! # Link counts

What the link counts of an image have to do with its entries (`Links`). A directory
that has been removed while somebody held it has the link count 0, and its entries
do not count. `.` and `..` are the first two entries of a directory; the others are
its proper entries.

The system calls add a proper entry to a directory, or take one away, and make up for
it in the counts of the two inodes. These two steps keep `Links`.
-/

namespace CshellXv6.Fs

open Lib Function List Option

abbrev Image : Type := Nat → Option Node

/-- A directory that has not been removed. -/
def Node.Live (n : Node) : Prop := n.type = tDir ∧ n.nlink ≠ 0

instance (n : Node) : Decidable n.Live := inferInstanceAs (Decidable (_ ∧ _))

/-- The entries other than `.` and `..`. -/
def Node.proper (n : Node) : List Dirent := n.entries.drop 2

/-- The number of entries, of those that count, with which a directory names inode `i`. -/
def naming (entries : Node → List Dirent) (i : Nat) : Option Node → Nat
  | some n => if n.Live then (entries n).countP (·.inum = i) else 0
  | none => 0

/-- The number of such entries in all directories that have not been removed. -/
def entriesNaming (entries : Node → List Dirent) (N : Nat) (img : Image) (i : Nat) : Nat :=
  totalOn (Finset.range N) (naming entries i) img

/-- The number of proper entries that name inode `i`. -/
def links (N : Nat) (img : Image) (i : Nat) : Nat := entriesNaming Node.proper N img i

def isDir (img : Image) (i : Nat) : Bool := (img i).any fun n => n.type = tDir

/-- The number of subdirectories. -/
def subdirs (img : Image) (n : Node) : Nat := n.proper.countP fun e => isDir img e.inum

/-- The names of the entries in use. -/
def Node.names (n : Node) : List (List UInt8) := (n.entries.filter (·.inum ≠ 0)).map (·.name)

structure Links (N : Nat) (img : Image) : Prop where
  zero : img 0 = none
  bound : ∀ i n, img i = some n → i < N
  root : ∃ n, img rootIno = some n ∧ n.Live
  dots : ∀ d n, img d = some n → n.type = tDir →
    ∃ p rest, n.entries = ⟨d, dot⟩ :: ⟨p, dotdot⟩ :: rest
  names : ∀ d n, img d = some n → n.type = tDir → n.names.Nodup
  parent : ∀ d n p rest, img d = some n → n.Live → n.entries = ⟨d, dot⟩ :: ⟨p, dotdot⟩ :: rest →
    ∃ m, img p = some m ∧ m.Live ∧ ((d = rootIno ∧ p = rootIno) ∨ ∃ e ∈ m.proper, e.inum = d)
  targets : ∀ d n, img d = some n → n.Live → ∀ e ∈ n.proper, e.inum ≠ 0 → img e.inum ≠ none
  files : ∀ i n, img i = some n → n.type ≠ tDir → n.nlink = links N img i
  dirs : ∀ i n, img i = some n → n.type = tDir →
    links N img i = if i = rootIno ∨ n.nlink = 0 then 0 else 1
  counts : ∀ i n, img i = some n → n.Live → n.nlink = 1 + subdirs img n
  removed : ∀ i n, img i = some n → n.type = tDir → n.nlink = 0 → ∀ e ∈ n.proper, e.inum = 0

/-- What a system call makes of an image: the counts are right again, an inode without
links is held by somebody, and what is held stays a directory or a file. -/
structure Relinked (N : Nat) (held : Nat → Prop) (img img' : Image) : Prop where
  links : Links N img'
  orphans : ∀ i n, img' i = some n → n.nlink = 0 → held i
  dirs : ∀ i, held i → isDir img' i = isDir img i

section

variable {N i j d k x : Nat} {img : Image} {n nd : Node} {e : Dirent} {X A Y B : List Dirent}

lemma isDir_eq_true : isDir img i = true ↔ ∃ n, img i = some n ∧ n.type = tDir := by
  simp [isDir, Option.any_eq_true]

lemma Links.isDir_zero (h : Links N img) : isDir img 0 = false := by
  rw [isDir, h.zero]
  rfl

lemma Links.ne_zero (h : Links N img) (hj : img j = some n) : j ≠ 0 := by
  rintro rfl
  rw [h.zero] at hj
  cases hj

/-- An entry of a directory is counted. -/
lemma Links.links_pos (h : Links N img) (hd : img d = some nd) (hlive : nd.Live)
    (he : e ∈ nd.proper) (hi : e.inum = i) : 0 < links N img i := by
  have hle : naming Node.proper i (img d) ≤ links N img i :=
    le_totalOn (Finset.mem_range.mpr (h.bound d nd hd))
  have hpos : 0 < naming Node.proper i (img d) := by
    rw [hd, naming, if_pos hlive, countP_pos_iff]
    exact ⟨e, he, by simpa using hi⟩
  omega

lemma links_eq_zero : links N img i = 0 ↔ ∀ d, d < N → naming Node.proper i (img d) = 0 := by
  simp [links, entriesNaming, totalOn_eq_zero]

/-- A free inode is not named. -/
lemma Links.links_of_none (h : Links N img) (hi : img i = none) (hne : i ≠ 0) :
    links N img i = 0 := by
  refine links_eq_zero.mpr fun d _ => ?_
  cases hd : img d with
  | none => rfl
  | some nd =>
    rw [naming]
    split
    next hlive =>
      rw [countP_eq_zero]
      intro e he hei
      have hinum : e.inum = i := by simpa using hei
      exact h.targets d nd hd hlive e he (hinum ▸ hne) (hinum ▸ hi)
    · rfl

/-- Whatever a directory names is there and has links. -/
lemma Links.target (h : Links N img) (hd : img d = some nd) (hlive : nd.Live)
    (he : e ∈ nd.entries) (hne : e.inum ≠ 0) : ∃ m, img e.inum = some m ∧ m.nlink ≠ 0 := by
  obtain ⟨p, rest, hentries⟩ := h.dots d nd hd hlive.1
  have hproper : nd.proper = rest := by
    rw [Node.proper, hentries]
    rfl
  rw [hentries, mem_cons, mem_cons] at he
  rcases he with rfl | rfl | he
  · exact ⟨nd, hd, hlive.2⟩
  · obtain ⟨m, hm, hlive', -⟩ := h.parent d nd p rest hd hlive hentries
    exact ⟨m, hm, hlive'.2⟩
  rw [← hproper] at he
  obtain ⟨m, hm⟩ := ne_none_iff_exists'.mp (h.targets d nd hd hlive e he hne)
  refine ⟨m, hm, ?_⟩
  intro hzero
  have hpos := h.links_pos hd hlive he rfl
  by_cases hdir : m.type = tDir
  · rw [h.dirs _ m hm hdir, if_pos (.inr hzero)] at hpos
    exact absurd hpos (lt_irrefl 0)
  · have hcount := h.files _ m hm hdir
    omega

/-! ## Two inodes are changed -/

lemma Node.proper_eq (h : n.entries = A ++ X) (hA : 2 ≤ A.length) : n.proper = A.drop 2 ++ X := by
  rw [Node.proper, h, drop_append_of_le_length hA]

/-- Entries `X` after the first two are replaced by `Y`. -/
lemma Node.mem_proper_exchange {n' : Node}
    (hX : n.entries = A ++ (X ++ B)) (hY : n'.entries = A ++ (Y ++ B)) (hA : 2 ≤ A.length)
    (he : e ∈ n.proper) : e ∈ n'.proper ∨ e ∈ X := by
  rw [Node.proper_eq hX hA, mem_append, mem_append] at he
  rw [Node.proper_eq hY hA, mem_append, mem_append]
  tauto

lemma Node.mem_proper (h : n.entries[k]? = some e) (hk : 2 ≤ k) : e ∈ n.proper := by
  refine mem_of_getElem? (i := k - 2) ?_
  rw [Node.proper, List.getElem?_drop, ← h]
  congr 1
  omega

lemma naming_of_live (hlive : n.Live) :
    naming Node.proper i (some n) = n.proper.countP (·.inum = i) :=
  if_pos hlive

lemma naming_of_empty (h : n.Live → ∀ e ∈ n.proper, e.inum ≠ i) :
    naming Node.proper i (some n) = 0 := by
  rw [naming]
  split
  next hlive =>
    rw [countP_eq_zero]
    intro e he
    simpa using h hlive e he
  · rfl

/-- The links after a change of two inodes. -/
lemma links_update_update (img : Image) (j : Nat) (x y : Option Node) (hi : i < N) (hd : d < N)
    (hne : i ≠ d) :
    links N (update (update img i x) d y) j + naming Node.proper j (img i) +
        naming Node.proper j (img d) =
      links N img j + naming Node.proper j x + naming Node.proper j y := by
  have h1 := totalOn_update (g := naming Node.proper j) (f := img) (Finset.mem_range.mpr hi) x
  have h2 := totalOn_update (g := naming Node.proper j) (f := update img i x)
    (Finset.mem_range.mpr hd) y
  rw [update_of_ne (Ne.symm hne)] at h2
  unfold links entriesNaming
  omega

/-- Directory `d` becomes `nd'`, inode `i` changes too, and no other one does. -/
structure Exchange (img img' : Image) (d i : Nat) (nd nd' : Node) : Prop where
  dir : img d = some nd
  live : nd.Live
  diff : i ≠ d
  dir' : img' d = some nd'
  type : nd'.type = tDir
  other : ∀ j, j ≠ d → j ≠ i → img' j = img j

section

variable {nd' m : Node} {img' : Image} {p : Nat} {rest : List Dirent}

lemma Exchange.cases (hx : Exchange img img' d i nd nd') (h : img' j = some m) :
    (j = d ∧ m = nd') ∨ j = i ∨ (j ≠ d ∧ j ≠ i ∧ img j = some m) := by
  by_cases hjd : j = d
  · rw [hjd, hx.dir'] at h
    exact .inl ⟨hjd, (Option.some.inj h).symm⟩
  by_cases hji : j = i
  · exact .inr (.inl hji)
  · exact .inr (.inr ⟨hjd, hji, hx.other j hjd hji ▸ h⟩)

lemma Exchange.isDir_eq (hx : Exchange img img' d i nd nd') (hj : j ≠ i) :
    isDir img' j = isDir img j := by
  by_cases hjd : j = d
  · simp [isDir, hjd, hx.dir', hx.dir, hx.type, hx.live.1]
  · rw [isDir, isDir, hx.other j hjd hj]

/-- The entries after `.` and `..` are others, and say the truth about all inodes but `i`. -/
structure Edits (N : Nat) (img img' : Image) (d i : Nat) (nd nd' : Node) : Prop
    extends Exchange img img' d i nd nd' where
  inum : i ≠ 0 ∧ i < N
  root : i ≠ rootIno
  live' : nd'.Live
  entries : ∃ A X Y B, nd.entries = A ++ (X ++ B) ∧ nd'.entries = A ++ (Y ++ B) ∧ 2 ≤ A.length
  names : nd'.names.Nodup
  kept : ∀ e ∈ nd.proper, e.inum ≠ 0 → e.inum ≠ i → e ∈ nd'.proper
  empty : ∀ n, img i = some n → n.Live → ∀ e ∈ n.proper, e.inum = 0
  links : ∀ j, j ≠ 0 → j ≠ i → links N img' j = links N img j
  counts : nd'.nlink = 1 + subdirs img' nd'
  subdirs : ∀ j m, j ≠ d → j ≠ i → img j = some m → m.Live → subdirs img' m = subdirs img m
  targets : ∀ j m, img' j = some m → m.Live → ∀ e ∈ m.proper, e.inum ≠ 0 → img' e.inum ≠ none

/-- What has to be said about inode `i`. -/
structure Edited (N : Nat) (img' : Image) (d i : Nat) (nd' n : Node) : Prop where
  dots : n.type = tDir → ∃ p rest, n.entries = ⟨i, dot⟩ :: ⟨p, dotdot⟩ :: rest
  names : n.type = tDir → n.names.Nodup
  live : n.Live → n.nlink = 1 ∧ n.entries = [⟨i, dot⟩, ⟨d, dotdot⟩] ∧ ∃ e ∈ nd'.proper, e.inum = i
  files : n.type ≠ tDir → n.nlink = links N img' i
  dirs : n.type = tDir → links N img' i = if n.nlink = 0 then 0 else 1
  removed : n.type = tDir → n.nlink = 0 → ∀ e ∈ n.proper, e.inum = 0

/-- `.` and `..` stay. -/
lemma Edits.dots_eq (he : Edits N img img' d i nd nd')
    (h : nd.entries = ⟨d, dot⟩ :: ⟨p, dotdot⟩ :: rest) :
    ∃ rest', nd'.entries = ⟨d, dot⟩ :: ⟨p, dotdot⟩ :: rest' := by
  obtain ⟨A, X, Y, B, hold, hnew, hA⟩ := he.entries
  match A, hA with
  | a :: b :: A, _ =>
    rw [h, cons_append, cons_append, List.cons.injEq, List.cons.injEq] at hold
    exact ⟨A ++ (Y ++ B), by rw [hnew, hold.1, hold.2.1]; rfl⟩

/-- A parent stays a parent. -/
lemma Edits.parent (he : Edits N img img' d i nd nd') (hx : x ≠ 0) (hxi : x ≠ i)
    (hp : img p = some m) (hlive : m.Live)
    (hparent : (x = rootIno ∧ p = rootIno) ∨ ∃ e ∈ m.proper, e.inum = x) :
    ∃ m', img' p = some m' ∧ m'.Live ∧
      ((x = rootIno ∧ p = rootIno) ∨ ∃ e ∈ m'.proper, e.inum = x) := by
  by_cases hpd : p = d
  · subst hpd
    rw [he.dir] at hp
    cases hp
    refine ⟨nd', he.dir', he.live', hparent.imp_right ?_⟩
    rintro ⟨e, hmem, rfl⟩
    exact ⟨e, he.kept e hmem hx hxi, rfl⟩
  by_cases hpi : p = i
  · -- inode `i` is no parent, since it is empty and not the root
    subst hpi
    rcases hparent with ⟨-, hroot⟩ | ⟨e, hmem, rfl⟩
    · exact absurd hroot he.root
    · exact absurd (he.empty m hp hlive e hmem) hx
  · exact ⟨m, by rw [he.other p hpd hpi, hp], hlive, hparent⟩

/-- The counts are right again. -/
lemma Edits.relinks (h : Links N img) (he : Edits N img img' d i nd nd')
    (hi : ∀ n, img' i = some n → Edited N img' d i nd' n) : Links N img' := by
  have hdne := h.ne_zero he.dir
  constructor
  case zero =>
    rw [he.other 0 (Ne.symm hdne) (Ne.symm he.inum.1)]
    exact h.zero
  case bound =>
    intro j m hj
    rcases he.cases hj with ⟨rfl, -⟩ | rfl | ⟨-, -, hold⟩
    · exact h.bound _ nd he.dir
    · exact he.inum.2
    · exact h.bound j m hold
  case root =>
    obtain ⟨n, hn, hlive⟩ := h.root
    by_cases hd : rootIno = d
    · exact ⟨nd', by rw [hd, he.dir'], he.live'⟩
    · exact ⟨n, by rw [he.other _ hd (Ne.symm he.root), hn], hlive⟩
  case dots =>
    intro j m hj hdir
    rcases he.cases hj with ⟨rfl, rfl⟩ | rfl | ⟨-, -, hold⟩
    · obtain ⟨p, rest, hentries⟩ := h.dots _ nd he.dir he.live.1
      obtain ⟨rest', hentries'⟩ := he.dots_eq hentries
      exact ⟨p, rest', hentries'⟩
    · exact (hi m hj).dots hdir
    · exact h.dots j m hold hdir
  case names =>
    intro j m hj hdir
    rcases he.cases hj with ⟨rfl, rfl⟩ | rfl | ⟨-, -, hold⟩
    · exact he.names
    · exact (hi m hj).names hdir
    · exact h.names j m hold hdir
  case parent =>
    intro j m p rest hj hlive hentries
    rcases he.cases hj with ⟨rfl, rfl⟩ | rfl | ⟨-, hji, hold⟩
    · obtain ⟨p', rest', hentries'⟩ := h.dots _ nd he.dir he.live.1
      obtain ⟨rest'', hnew⟩ := he.dots_eq hentries'
      have hp : p' = p := by
        rw [hnew] at hentries
        simp only [List.cons.injEq, Dirent.mk.injEq, and_true, true_and] at hentries
        exact hentries.1
      obtain ⟨m', hm', hlive', hparent⟩ := h.parent _ nd p' rest' he.dir he.live hentries'
      exact he.parent hdne (Ne.symm he.diff) (hp ▸ hm') hlive' (hp ▸ hparent)
    · obtain ⟨-, hnew, hnamed⟩ := (hi m hj).live hlive
      rw [hnew] at hentries
      simp only [List.cons.injEq, Dirent.mk.injEq, and_true, true_and] at hentries
      exact ⟨nd', by rw [← hentries.1, he.dir'], he.live', .inr hnamed⟩
    · obtain ⟨m', hm', hlive', hparent⟩ := h.parent j m p rest hold hlive hentries
      exact he.parent (h.ne_zero hold) hji hm' hlive' hparent
  case targets => exact he.targets
  case files =>
    intro j m hj hfile
    rcases he.cases hj with ⟨rfl, rfl⟩ | rfl | ⟨-, hji, hold⟩
    · exact absurd he.type hfile
    · exact (hi m hj).files hfile
    · rw [he.links j (h.ne_zero hold) hji]
      exact h.files j m hold hfile
  case dirs =>
    intro j m hj hdir
    rcases he.cases hj with ⟨rfl, rfl⟩ | rfl | ⟨-, hji, hold⟩
    · have hlinks := h.dirs _ nd he.dir he.live.1
      simp only [he.live.2, or_false] at hlinks
      rw [he.links _ hdne (Ne.symm he.diff), hlinks]
      simp only [he.live'.2, or_false]
    · rw [(hi m hj).dirs hdir]
      simp only [he.root, false_or]
    · rw [he.links j (h.ne_zero hold) hji]
      exact h.dirs j m hold hdir
  case counts =>
    intro j m hj hlive
    rcases he.cases hj with ⟨rfl, rfl⟩ | rfl | ⟨hjd, hji, hold⟩
    · exact he.counts
    · obtain ⟨hone, hnew, -⟩ := (hi m hj).live hlive
      rw [hone, Fs.subdirs, Node.proper, hnew]
      rfl
    · rw [he.subdirs j m hjd hji hold hlive]
      exact h.counts j m hold hlive
  case removed =>
    intro j m hj hdir hzero
    rcases he.cases hj with ⟨rfl, rfl⟩ | rfl | ⟨-, -, hold⟩
    · exact absurd hzero he.live'.2
    · exact (hi m hj).removed hdir hzero
    · exact h.removed j m hold hdir hzero

lemma Exchange.relinked {held : Nat → Prop} (hx : Exchange img img' d i nd nd')
    (hlinks : Links N img') (hlive : nd'.Live)
    (horphans : ∀ j n, img j = some n → n.nlink = 0 → held j)
    (hi : ∀ n, img' i = some n → n.nlink = 0 → held i)
    (hdir : held i → isDir img' i = isDir img i) : Relinked N held img img' := by
  refine ⟨hlinks, fun j m hj hzero => ?_, fun j hj => ?_⟩
  · rcases hx.cases hj with ⟨-, rfl⟩ | rfl | ⟨-, -, hold⟩
    · exact absurd hzero hlive.2
    · exact hi m hj hzero
    · exact horphans j m hold hzero
  · by_cases hji : j = i
    · exact hji ▸ hdir (hji ▸ hj)
    · exact hx.isDir_eq hji

end

/-! ## An entry is added -/

/-- Directory `d` gets an entry for inode `i`, which becomes `ni`: a file with one
link more, or a new inode. -/
structure Adds (N : Nat) (img : Image) (d i : Nat) (nd ni nd' : Node) : Prop where
  dir : img d = some nd
  live : nd.Live
  inum : i ≠ 0 ∧ i < N
  diff : i ≠ d
  entries : ∃ A old B name, nd.entries = A ++ (old ++ B) ∧ nd'.entries = A ++ ⟨i, name⟩ :: B ∧
    2 ≤ A.length ∧ (∀ e ∈ old, e.inum = 0) ∧ name ∉ nd.names
  type : nd'.type = tDir
  nlink : nd'.nlink = nd.nlink + if ni.type = tDir then 1 else 0
  target : (∃ n, img i = some n ∧ n.type ≠ tDir ∧ ni = { n with nlink := n.nlink + 1 }) ∨
    (img i = none ∧ ni.nlink = 1 ∧ (ni.type = tDir → ni.entries = [⟨i, dot⟩, ⟨d, dotdot⟩]))

section

variable {ni nd' m : Node}

/-- The image after that. -/
def added (img : Image) (d i : Nat) (ni nd' : Node) : Image :=
  update (update img i (some ni)) d (some nd')

lemma added_dir : added img d i ni nd' d = some nd' := update_self ..

lemma added_target (h : i ≠ d) : added img d i ni nd' i = some ni := by
  rw [added, update_of_ne h, update_self]

variable (h : Links N img) (ha : Adds N img d i nd ni nd')

include ha

lemma Adds.exchange : Exchange img (added img d i ni nd') d i nd nd' := by
  refine ⟨ha.dir, ha.live, ha.diff, added_dir, ha.type, fun j hjd hji => ?_⟩
  rw [added, update_of_ne hjd, update_of_ne hji]

/-- A new directory has one link. -/
lemma Adds.of_dir (hdir : ni.type = tDir) :
    img i = none ∧ ni.nlink = 1 ∧ ni.entries = [⟨i, dot⟩, ⟨d, dotdot⟩] := by
  rcases ha.target with ⟨n, -, hfile, rfl⟩ | ⟨hnone, hone, hdots⟩
  · exact absurd hdir hfile
  · exact ⟨hnone, hone, hdots hdir⟩

/-- It names nothing, apart from `.` and `..`. -/
lemma Adds.proper_target (hlive : ni.Live) : ni.proper = [] := by
  rw [Node.proper, (ha.of_dir hlive.1).2.2]
  rfl

/-- What has been there is a file. -/
lemma Adds.not_live (hn : img i = some n) : n.type ≠ tDir := by
  rcases ha.target with ⟨n', hn', hfile, -⟩ | ⟨hnone, -, -⟩
  · cases hn.symm.trans hn'
    exact hfile
  · cases hn.symm.trans hnone

/-- The new entry is a proper one. -/
lemma Adds.countP_proper {p : Nat → Bool} (hp : p 0 = false) :
    nd'.proper.countP (fun e => p e.inum) =
      nd.proper.countP (fun e => p e.inum) + if p i then 1 else 0 := by
  obtain ⟨A, old, B, name, hold, hnew, hA, hdead, -⟩ := ha.entries
  have hzero : old.countP (fun e => p e.inum) = 0 := by
    rw [countP_eq_zero]
    intro e he
    rw [hdead e he, hp]
    decide
  rw [Node.proper_eq hold hA, Node.proper_eq hnew hA]
  simp only [countP_append, countP_cons, hzero]
  omega

/-- The entries in use stay. -/
lemma Adds.mem_proper (he : e ∈ nd.proper) (hne : e.inum ≠ 0) : e ∈ nd'.proper := by
  obtain ⟨A, old, B, name, hold, hnew, hA, hdead, -⟩ := ha.entries
  exact (Node.mem_proper_exchange (Y := [⟨i, name⟩]) hold hnew hA he).resolve_right
    fun hmem => hne (hdead e hmem)

/-- There is one entry more. -/
lemma Adds.of_mem_proper (he : e ∈ nd'.proper) : e ∈ nd.proper ∨ e.inum = i := by
  obtain ⟨A, old, B, name, hold, hnew, hA, -, -⟩ := ha.entries
  rcases Node.mem_proper_exchange (X := [⟨i, name⟩]) hnew hold hA he with hmem | hmem
  · exact .inl hmem
  · exact .inr (mem_singleton.mp hmem ▸ rfl)

lemma Adds.exists_entry : ∃ e ∈ nd'.proper, e.inum = i := by
  obtain ⟨A, old, B, name, -, hnew, hA, -, -⟩ := ha.entries
  refine ⟨⟨i, name⟩, ?_, rfl⟩
  rw [Node.proper_eq hnew hA]
  exact mem_append_right _ mem_cons_self

lemma Adds.isDir_target : isDir (added img d i ni nd') i = decide (ni.type = tDir) := by
  rw [isDir, added_target ha.diff]
  rfl

lemma Adds.not_none (hj : img j ≠ none) : added img d i ni nd' j ≠ none := by
  by_cases hjd : j = d
  · simp [hjd, added_dir]
  by_cases hji : j = i
  · simp [hji, added_target ha.diff]
  · rwa [ha.exchange.other j hjd hji]

include h

lemma Adds.live' : nd'.Live := by
  have hcount := h.counts d nd ha.dir ha.live
  refine ⟨ha.type, ?_⟩
  rw [ha.nlink]
  split <;> omega

lemma Adds.links_eq (hj : j ≠ 0) :
    links N (added img d i ni nd') j = links N img j + if j = i then 1 else 0 := by
  have hboth := links_update_update img j (some ni) (some nd') ha.inum.2 (h.bound d nd ha.dir)
    ha.diff
  have hnew : naming Node.proper j (some ni) = 0 := by
    refine naming_of_empty fun hlive e he => ?_
    rw [ha.proper_target hlive] at he
    cases he
  have hold : naming Node.proper j (img i) = 0 := by
    cases hn : img i with
    | none => rfl
    | some n => exact naming_of_empty fun hlive => absurd hlive.1 (ha.not_live hn)
  have hcount := ha.countP_proper (p := fun m => decide (m = j)) (by simpa using Ne.symm hj)
  rw [hnew, hold, ha.dir, naming_of_live ha.live, naming_of_live (ha.live' h), hcount] at hboth
  unfold added
  simp only [decide_eq_true_eq, eq_comm (a := i)] at hboth
  omega

/-- What a directory had as subdirectories, it still has. -/
lemma Adds.subdirs_eq (hx : img x = some m) (hlive : m.Live) :
    subdirs (added img d i ni nd') m = subdirs img m := by
  refine countP_congr fun e he => ?_
  by_cases hei : e.inum = i
  · -- then inode i was there, and is a file
    rcases ha.target with ⟨n, hn, hfile, rfl⟩ | ⟨hnone, -, -⟩
    · rw [hei, ha.isDir_target]
      simp [isDir, hn, hfile]
    · exact absurd (hei ▸ hnone) (h.targets x m hx hlive e he (hei ▸ ha.inum.1))
  · rw [ha.exchange.isDir_eq hei]

lemma Adds.names_nodup : nd'.names.Nodup := by
  obtain ⟨A, old, B, name, hold, hnew, -, hdead, hfresh⟩ := ha.entries
  have hnodup := h.names d nd ha.dir ha.live.1
  have hempty : old.filter (·.inum ≠ 0) = [] := by
    rw [filter_eq_nil_iff]
    intro e he
    simp [hdead e he]
  have hbefore : nd.names = (A.filter (·.inum ≠ 0)).map (·.name) ++
      (B.filter (·.inum ≠ 0)).map (·.name) := by
    rw [Node.names, hold, filter_append, filter_append, hempty, nil_append, map_append]
  have hafter : nd'.names = (A.filter (·.inum ≠ 0)).map (·.name) ++
      name :: (B.filter (·.inum ≠ 0)).map (·.name) := by
    rw [Node.names, hnew, filter_append,
      filter_cons_of_pos (by simpa using ha.inum.1), map_append, map_cons]
  rw [hafter, nodup_middle, nodup_cons, ← hbefore]
  exact ⟨hfresh, hnodup⟩

lemma Adds.ne_root : i ≠ rootIno := by
  rintro rfl
  obtain ⟨n, hn, hlive⟩ := h.root
  exact ha.not_live hn hlive.1

lemma Adds.edits : Edits N img (added img d i ni nd') d i nd nd' where
  toExchange := ha.exchange
  inum := ha.inum
  root := ha.ne_root h
  live' := ha.live' h
  entries := by
    obtain ⟨A, old, B, name, hold, hnew, hA, -, -⟩ := ha.entries
    exact ⟨A, old, [⟨i, name⟩], B, hold, hnew, hA⟩
  names := ha.names_nodup h
  kept e he hne _ := ha.mem_proper he hne
  empty n hn hlive := absurd hlive.1 (ha.not_live hn)
  links j hj hji := by rw [ha.links_eq h hj, if_neg hji, Nat.add_zero]
  counts := by
    have hzero : isDir (added img d i ni nd') 0 = false := by
      rw [ha.exchange.isDir_eq (Ne.symm ha.inum.1), h.isDir_zero]
    have hcount : subdirs (added img d i ni nd') nd' = subdirs (added img d i ni nd') nd + _ :=
      ha.countP_proper hzero
    rw [ha.nlink, h.counts _ nd ha.dir ha.live, hcount, ha.subdirs_eq h ha.dir ha.live,
      ha.isDir_target]
    simp only [decide_eq_true_eq]
    split
    all_goals
      push_cast
      omega
  subdirs j m _ _ hold hlive := ha.subdirs_eq h hold hlive
  targets j m hj hlive e he hne := by
    rcases ha.exchange.cases hj with ⟨rfl, rfl⟩ | rfl | ⟨-, -, hold⟩
    · rcases ha.of_mem_proper he with he' | hei
      · exact ha.not_none (h.targets _ nd ha.dir ha.live e he' hne)
      · rw [hei, added_target ha.diff]
        exact some_ne_none ni
    · cases (added_target ha.diff).symm.trans hj
      rw [ha.proper_target hlive] at he
      cases he
    · exact ha.not_none (h.targets j m hold hlive e he hne)

/-- The counts are right again when an entry has been added. -/
lemma Adds.links : Links N (added img d i ni nd') := by
  refine (ha.edits h).relinks h fun n hn => ?_
  cases (added_target ha.diff).symm.trans hn
  have hlinks := ha.links_eq h ha.inum.1
  rw [if_pos rfl] at hlinks
  constructor
  · exact fun hdir => ⟨d, [], (ha.of_dir hdir).2.2⟩
  · intro hdir
    rw [Node.names, (ha.of_dir hdir).2.2]
    simp [ha.inum.1, h.ne_zero ha.dir, dot, dotdot]
  · intro hlive
    obtain ⟨-, hone, hdots⟩ := ha.of_dir hlive.1
    exact ⟨hone, hdots, ha.exists_entry⟩
  · intro hfile
    rw [hlinks]
    rcases ha.target with ⟨n, hold, hfile', rfl⟩ | ⟨hnone, hone, -⟩
    · rw [Nat.cast_add, ← h.files _ n hold hfile']
      rfl
    · rw [h.links_of_none hnone ha.inum.1, hone]
      rfl
  · intro hdir
    obtain ⟨hnone, hone, -⟩ := ha.of_dir hdir
    rw [hlinks, h.links_of_none hnone ha.inum.1, hone]
    rfl
  · intro hdir hzero
    rw [(ha.of_dir hdir).2.1] at hzero
    cases hzero

lemma Adds.relinked {held : Nat → Prop} (horphans : ∀ j n, img j = some n → n.nlink = 0 → held j)
    (hheld : ∀ j, held j → img j ≠ none) : Relinked N held img (added img d i ni nd') := by
  refine ha.exchange.relinked (ha.links h) (ha.live' h) horphans (fun n hn hzero => ?_) fun hi => ?_
  · cases (added_target ha.diff).symm.trans hn
    rcases ha.target with ⟨n, hold, hfile, rfl⟩ | ⟨-, hone, -⟩
    · have hcount := h.files _ n hold hfile
      simp only at hzero
      omega
    · rw [hone] at hzero
      cases hzero
  · rcases ha.target with ⟨n, hn, hfile, rfl⟩ | ⟨hnone, -, -⟩
    · rw [ha.isDir_target]
      simp [isDir, hn, hfile]
    · exact absurd hnone (hheld i hi)

end

end

end CshellXv6.Fs
