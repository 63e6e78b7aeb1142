import CshellXv6.Kernel.Proc
import CshellXv6.Lib.Radix

/-! # Running out of memory in `kfork`

`kfork` allocates a page for the trapframe, pages for the tables of the new page table, and a
page for every page of the parent that is mapped. Each of these allocations can fail, and what
has been allocated before is freed by `uvmcopy`, `proc_pagetable` and `freeproc`.

Pages, physical and virtual ones, go by their numbers. The entries of a page table are kept
in a tree, and not in the contents of its pages. A `panic` is `none`. All pages of the free
list are between `end` and `PHYSTOP`, and no address is above `TRAPFRAME`: `kfree` and `walk` do
not check this here.
-/

namespace CshellXv6.Kernel.Fork

open Lib Function List Option
open Lib.Radix (lookup lookup_none)

structure Pte where
  pa : Nat
  flags : Nat

/-- A page table of three levels, if there is one. -/
abbrev PageTable := Option (Radix 512 Pte 3)

/-- `kmem.freelist`, and the contents of the pages. How often `kalloc` has failed is kept as
history. -/
structure Mem where
  freelist : List Nat
  data : Nat → Nat → UInt8
  failures : Nat

structure Context where
  ra : Nat
  sp : Nat
  s : Nat → Nat

/-- The page numbers of `TRAMPOLINE` and `TRAPFRAME`. -/
def trampoline : Nat := 2 ^ 26 - 1

def trapframe : Nat := 2 ^ 26 - 2

/-- The fields of `struct proc` for memory, files and registers. -/
structure Image where
  sz : { n : Nat // n ≤ 4096 * trapframe }
  trapframe : Option Nat
  pagetable : PageTable
  kstack : Nat
  context : Context
  ofile : Fin 16 → Option Nat
  cwd : Nat
  name : List UInt8

/-- The kernel, with the addresses of its code for `trampoline` and `forkret`. -/
structure State where
  kernel : KernelState
  image : Slot → Image
  mem : Mem
  fileRef : Nat → Int
  inodeRef : Nat → Int
  trampolineCode : Nat
  forkret : Nat

/-! ## Pages -/

def memset (p : Nat) (c : UInt8) (m : Mem) : Mem :=
  { m with data := update m.data p fun _ => c }

def memmove (dst src : Nat) (m : Mem) : Mem :=
  { m with data := update m.data dst (m.data src) }

def kalloc (m : Mem) : Option Nat × Mem :=
  match m.freelist with
  | [] => (none, { m with failures := m.failures + 1 })
  | p :: rest => (some p, memset p 5 { m with freelist := rest })

def kfree (p : Nat) (m : Mem) : Mem :=
  { memset p 1 m with freelist := p :: m.freelist }

/-- The page for a new table, as `walk` and `uvmcreate` get it. -/
def zeroed (m : Mem) : Option Nat × Mem :=
  match kalloc m with
  | (none, m) => (none, m)
  | (some p, m) => (some p, memset p 0 m)

/-! ## Page tables -/

/-- `PX`, for all levels. -/
def px (v : Nat) : Route 512 3 :=
  (Fin.ofNat 512 (v / 2 ^ 18), Fin.ofNat 512 (v / 2 ^ 9), Fin.ofNat 512 v, ())

/-- `walk` without allocating. -/
def walk (pt : PageTable) (v : Nat) : Option Pte := lookup 3 pt (px v)

/-- `mappages` of one page. -/
def mappages (pt : PageTable) (v : Nat) (pte : Pte) (m : Mem) :
    Option (PageTable × Bool × Mem) :=
  Radix.insert zeroed pte 3 pt (px v) m

def unmapPage (doFree : Bool) (a : PageTable × Mem) (v : Nat) : PageTable × Mem :=
  match walk a.1 v with
  | none => a
  | some pte => (Radix.erase 3 a.1 (px v), if doFree then kfree pte.pa a.2 else a.2)

def uvmunmap (pt : PageTable) (v npages : Nat) (doFree : Bool) (m : Mem) : PageTable × Mem :=
  (List.range' v npages).foldl (unmapPage doFree) (pt, m)

/-- The number of pages that hold `sz` bytes. -/
def npages (sz : Nat) : Nat := (sz + 4095) / 4096

def freewalk (a : PageTable × Mem) : Option Mem := Radix.release kfree 3 a.1 a.2

def uvmfree (pt : PageTable) (sz : Nat) (m : Mem) : Option Mem :=
  freewalk (uvmunmap pt 0 (npages sz) true m)

def procFreepagetable (pt : PageTable) (sz : Nat) (m : Mem) : Option Mem :=
  let (pt, m) := uvmunmap pt trampoline 1 false m
  let (pt, m) := uvmunmap pt trapframe 1 false m
  uvmfree pt sz m

/-- `proc_pagetable`, for the code and the trapframe on these pages. -/
def procPagetable (code frame : Nat) (m : Mem) : Option (PageTable × Mem) :=
  match Radix.table zeroed none m with
  | (none, m) => some (none, m)
  | (some pt, m) =>
    (mappages (some pt) trampoline ⟨code, 2 + 8⟩ m).bind fun
      | (pt, false, m) => (uvmfree pt 0 m).map fun m => (none, m)
      | (pt, true, m) =>
        (mappages pt trapframe ⟨frame, 2 + 4⟩ m).bind fun
          | (pt, false, m) =>
            let (pt, m) := uvmunmap pt trampoline 1 false m
            (uvmfree pt 0 m).map fun m => (none, m)
          | (pt, true, m) => some (pt, m)

/-- The loop of `uvmcopy`. It answers the page at which it gives up. -/
def copyLoop (old : PageTable) : List Nat → PageTable → Mem → Option (Option Nat × PageTable × Mem)
  | [], new, m => some (none, new, m)
  | i :: is, new, m =>
    match walk old i with
    | none => copyLoop old is new m
    | some pte =>
      match kalloc m with
      | (none, m) => some (some i, new, m)
      | (some mem, m) =>
        (mappages new i ⟨mem, pte.flags⟩ (memmove mem pte.pa m)).bind fun
          | (new, false, m) => some (some i, new, kfree mem m)
          | (new, true, m) => copyLoop old is new m

def uvmcopy (old new : PageTable) (sz : Nat) (m : Mem) : Option (Bool × PageTable × Mem) :=
  (copyLoop old (List.range (npages sz)) new m).map fun
    | (none, new, m) => (true, new, m)
    | (some i, new, m) => (false, uvmunmap new 0 i true m)

/-! ## The calls -/

def State.setImage (s : State) (i : Slot) (im : Image) : State :=
  { s with image := update s.image i im }

/-- What `freeproc` clears of these fields. -/
def Image.cleared (im : Image) : Image :=
  { im with sz := ⟨0, Nat.zero_le _⟩, trapframe := none, pagetable := none, name := [] }

def freeproc (i : Slot) (s : State) : Option State :=
  let im := s.image i
  let m := im.trapframe.elim s.mem fun p => kfree p s.mem
  (procFreepagetable im.pagetable im.sz m).map fun m =>
    { s with kernel := s.kernel.modify i Kernel.freeproc, mem := m }.setImage i im.cleared

/-- From the label `found` on. -/
def found (i : Slot) (s : State) : Option (Option Slot × State) :=
  let s := { s with kernel := Kernel.allocproc i s.kernel }
  match kalloc s.mem with
  | (none, m) =>
    (freeproc i ({ s with mem := m }.setImage i { s.image i with trapframe := none })).map
      fun s => (none, s)
  | (some p, m) =>
    (procPagetable s.trampolineCode p m).bind fun (pt, m) =>
      let im := { s.image i with trapframe := some p, pagetable := pt }
      let s := { s with mem := m }
      if pt.isNone then (freeproc i (s.setImage i im)).map fun s => (none, s)
      else some (some i,
        s.setImage i { im with context := ⟨s.forkret, im.kstack + 4096, fun _ => 0⟩ })

def allocproc (s : State) : Option (Option Slot × State) :=
  match (List.finRange 64).find? fun i => (s.kernel.proc i).state = .unused with
  | none => some (none, s)
  | some i => found i s

/-- `kfork` up to the copy of the memory, or to its failure. -/
def forkMemory (p : Slot) (s : State) : Option (Option Slot × State) :=
  (allocproc s).bind fun
    | (none, s) => some (none, s)
    | (some np, s) =>
      (uvmcopy (s.image p).pagetable (s.image np).pagetable (s.image p).sz s.mem).bind
        fun (ok, pt, m) =>
          let s := { s with mem := m }.setImage np { s.image np with pagetable := pt }
          if ok then some (some np, s) else (freeproc np s).map fun s => (none, s)

/-- `*(np->trapframe) = *(p->trapframe)`, and 0 for `a0`. -/
def copyTrapframe (dst src : Nat) (m : Mem) : Mem :=
  { m with
    data := update m.data dst fun o =>
      if 112 ≤ o ∧ o < 120 then 0 else if o < 288 then m.data src o else m.data dst o }

/-- `np->ofile[i] = filedup(p->ofile[i])`. -/
def dupFile (p np : Slot) (s : State) (i : Fin 16) : Option State :=
  match (s.image p).ofile i with
  | none => some s
  | some f =>
    if s.fileRef f < 1 then none
    else
      let im := s.image np
      some ({ s with fileRef := update s.fileRef f (s.fileRef f + 1) }.setImage np
        { im with ofile := update im.ofile i (some f) })

/-- `kfork` from the copy of the registers on. -/
def forkRest (pol : Policy) (p np : Slot) (s : State) : Option (Int × State) :=
  (s.image p).trapframe.bind fun src =>
    (s.image np).trapframe.bind fun dst =>
      ((List.finRange 16).foldlM (dupFile p np) { s with mem := copyTrapframe dst src s.mem }).map
        fun s =>
          let im := s.image p
          let k := s.kernel.modify np fun q => { q with parent := some p }
          ((s.kernel.proc np).pid,
            { s with
              kernel := makeRunnable pol np k
              inodeRef := update s.inodeRef im.cwd (s.inodeRef im.cwd + 1) }.setImage np
              { s.image np with sz := im.sz, cwd := im.cwd, name := im.name })

def kfork (pol : Policy) (p : Slot) (s : State) : Option (Int × State) :=
  (forkMemory p s).bind fun
    | (none, s) => some (-1, s)
    | (some np, s) => forkRest pol p np s

/-! ## Pages in use -/

/-- Of the pages that were free in `m0`, those in `own` are in use. No other page has been
written to, and an allocation has failed if not `ok`. -/
structure Held (m0 : Mem) (ok : Bool) (own : Multiset Nat) (m : Mem) : Prop where
  pages : own + m.freelist = m0.freelist
  data : ∀ q ∉ m0.freelist, m.data q = m0.data q
  failures : m.failures = if ok then m0.failures else m0.failures + 1

section

variable {m0 m : Mem} {ok : Bool} {own : Multiset Nat} {pt : PageTable} {p v w n : Nat}

lemma Held.start (m0 : Mem) : Held m0 true 0 m0 := ⟨zero_add _, fun _ _ => rfl, rfl⟩

/-- A page in use may be written to. -/
lemma Held.write (h : Held m0 ok own m) (hp : p ∈ own) (f : Nat → UInt8) :
    Held m0 ok own { m with data := update m.data p f } := by
  refine ⟨h.pages, fun q hq => ?_, h.failures⟩
  have hne : q ≠ p := by
    rintro rfl
    have hmem := Multiset.mem_of_le (Multiset.le_add_right own m.freelist) hp
    rw [h.pages] at hmem
    exact hq hmem
  simp only [update_of_ne hne]
  exact h.data q hq

lemma Held.kalloc (m : Mem) (own : Multiset Nat) (h : Held m0 true own m) :
    Held m0 (kalloc m).1.isSome ((kalloc m).1.elim own fun p => p ::ₘ own) (kalloc m).2 := by
  unfold Fork.kalloc
  split
  next hlist =>
    refine ⟨h.pages, h.data, ?_⟩
    have hfailures := h.failures
    simp_all
  next p rest hlist =>
    have hpages := h.pages
    rw [hlist, ← Multiset.cons_coe, Multiset.add_cons, ← Multiset.cons_add] at hpages
    have h' : Held m0 true (p ::ₘ own) { m with freelist := rest } :=
      ⟨hpages, h.data, h.failures⟩
    exact h'.write (Multiset.mem_cons_self ..) _

lemma Held.zeroed (m : Mem) (own : Multiset Nat) (h : Held m0 true own m) :
    Held m0 (zeroed m).1.isSome ((zeroed m).1.elim own fun p => p ::ₘ own) (zeroed m).2 := by
  have ha := Held.kalloc m own h
  unfold Fork.zeroed
  generalize Fork.kalloc m = a at ha ⊢
  obtain ⟨_ | p, m1⟩ := a
  · exact ha
  · exact ha.write (Multiset.mem_cons_self ..) _

lemma Held.kfree (p : Nat) (own : Multiset Nat) (m : Mem) (h : Held m0 ok (p ::ₘ own) m) :
    Held m0 ok own (kfree p m) := by
  have hw := h.write (Multiset.mem_cons_self ..) fun _ => 1
  refine ⟨?_, hw.data, hw.failures⟩
  rw [Fork.kfree, ← Multiset.cons_coe, Multiset.add_cons, ← Multiset.cons_add]
  exact h.pages

/-! ## Unmapping -/

lemma px_inj (hv : v < 2 ^ 27) (hw : w < 2 ^ 27) (h : px v = px w) : v = w := by
  have h1 := congrArg (fun q : Route 512 3 => q.1.val) h
  have h2 := congrArg (fun q : Route 512 3 => q.2.1.val) h
  have h3 := congrArg (fun q : Route 512 3 => q.2.2.1.val) h
  simp only [px, Fin.val_ofNat] at h1 h2 h3
  omega

/-- The page that is mapped at `v`. -/
def mapped (pt : PageTable) (v : Nat) : Multiset Nat := (walk pt v).elim 0 fun pte => {pte.pa}

/-- The pages that are mapped below `n`. -/
def mappedBelow (pt : PageTable) (n : Nat) : Multiset Nat :=
  ((List.range n).map (mapped pt)).sum

/-- Only these are mapped: the pages below `n`, the trampoline and the trapframe. -/
def Bare (n : Nat) (pt : PageTable) : Prop :=
  ∀ q, (∀ v < n, q ≠ px v) → q ≠ px trampoline → q ≠ px trapframe → lookup 3 pt q = none

lemma lookup_unmapPage (doFree : Bool) (a : PageTable × Mem) (v : Nat) (q : Route 512 3) :
    lookup 3 (unmapPage doFree a v).1 q = if q = px v then none else lookup 3 a.1 q := by
  unfold unmapPage
  split
  next hnone =>
    split_ifs with hq
    · rw [hq]
      exact hnone
    · rfl
  · exact Radix.lookup_erase ..

lemma Held.unmapPage (doFree : Bool) {a : PageTable × Mem}
    (h : Held m0 ok ((if doFree then mapped a.1 v else 0) + (Radix.pages 3 a.1 + own)) a.2) :
    Held m0 ok (Radix.pages 3 (unmapPage doFree a v).1 + own) (unmapPage doFree a v).2 := by
  unfold Fork.unmapPage
  unfold mapped at h
  split
  next hnone =>
    rw [hnone] at h
    simpa using h
  next pte hpte =>
    simp only [Radix.pages_erase]
    rw [hpte] at h
    cases doFree with
    | false => simpa using h
    | true => exact Held.kfree pte.pa _ _ (by simpa using h)

lemma lookup_unmapOne (q : Route 512 3) : lookup 3 (uvmunmap pt v 1 false m).1 q =
    if q = px v then none else lookup 3 pt q := lookup_unmapPage ..

lemma Held.unmapOne (h : Held m0 ok (Radix.pages 3 pt + own) m) :
    Held m0 ok (Radix.pages 3 (uvmunmap pt v 1 false m).1 + own) (uvmunmap pt v 1 false m).2 :=
  Held.unmapPage false (by simpa using h)

lemma Held.unmapList {l : List Nat} {a : PageTable × Mem} (hl : ∀ v ∈ l, v < 2 ^ 27)
    (hnodup : l.Nodup) (h : Held m0 ok ((l.map (mapped a.1)).sum + (Radix.pages 3 a.1 + own)) a.2) :
    Held m0 ok (Radix.pages 3 (l.foldl (Fork.unmapPage true) a).1 + own)
        (l.foldl (Fork.unmapPage true) a).2 ∧
      ∀ q, lookup 3 (l.foldl (Fork.unmapPage true) a).1 q =
        if q ∈ l.map px then none else lookup 3 a.1 q := by
  induction l generalizing a with
  | nil => exact ⟨by simpa using h, fun q => by simp⟩
  | cons v l ih =>
    obtain ⟨hv, hnodup⟩ := nodup_cons.mp hnodup
    -- the pages that are still to be unmapped stay mapped
    have hrest : l.map (mapped (Fork.unmapPage true a v).1) = l.map (mapped a.1) := by
      refine map_congr_left fun w hw => ?_
      have hne : px w ≠ px v := by
        intro heq
        cases px_inj (hl w (mem_cons_of_mem v hw)) (hl v mem_cons_self) heq
        exact hv hw
      rw [mapped, mapped, walk, walk, lookup_unmapPage, if_neg hne]
    have hsum : ((v :: l).map (mapped a.1)).sum + (Radix.pages 3 a.1 + own) =
        mapped a.1 v + (Radix.pages 3 a.1 + ((l.map (mapped a.1)).sum + own)) := by
      rw [map_cons, sum_cons]
      ac_rfl
    rw [hsum] at h
    have h' := Held.unmapPage true h
    rw [← hrest, add_left_comm] at h'
    obtain ⟨hheld, hlookup⟩ := ih (fun w hw => hl w (mem_cons_of_mem v hw)) hnodup h'
    refine ⟨hheld, fun q => ?_⟩
    rw [foldl_cons, hlookup, lookup_unmapPage]
    simp only [map_cons, mem_cons]
    grind

/-! ## Page tables -/

lemma Held.uvmfree (hempty : ∀ q, lookup 3 pt q = none)
    (h : Held m0 ok (Radix.pages 3 pt + own) m) :
    ∃ m', uvmfree pt 0 m = some m' ∧ Held m0 ok own m' :=
  Radix.release_spec Held.kfree 3 pt m own hempty h

lemma Held.procFreepagetable (hbare : Bare 0 pt) (h : Held m0 ok (Radix.pages 3 pt + own) m) :
    ∃ m', procFreepagetable pt 0 m = some m' ∧ Held m0 ok own m' := by
  have hempty : ∀ q, lookup 3 (uvmunmap (uvmunmap pt trampoline 1 false m).1 trapframe 1 false
      (uvmunmap pt trampoline 1 false m).2).1 q = none := by
    intro q
    rw [lookup_unmapOne, lookup_unmapOne]
    split_ifs with hframe hcode
    · rfl
    · rfl
    · exact hbare q (fun v hv => absurd hv (Nat.not_lt_zero v)) hcode hframe
  exact Held.uvmfree hempty (Held.unmapOne (Held.unmapOne h))

lemma Held.procPagetable (code frame : Nat) (h : Held m0 true own m) :
    ∃ pt m', procPagetable code frame m = some (pt, m') ∧ Bare 0 pt ∧
      Held m0 pt.isSome (Radix.pages 3 pt + own) m' := by
  have hnone : Held m0 true (Radix.pages 3 (none : PageTable) + own) m := by
    simpa [Radix.pages] using h
  have hnew := Radix.table_spec Held.zeroed none hnone
  unfold Fork.procPagetable
  generalize Radix.table Fork.zeroed none m = a at hnew ⊢
  obtain ⟨_ | t, m1⟩ := a
  · exact ⟨none, m1, rfl, fun q _ _ _ => lookup_none q, hnew⟩
  obtain ⟨h1, hlookup⟩ := hnew
  have hempty : ∀ q, lookup 3 (some t) q = none := fun q =>
    (congrFun hlookup q).trans (lookup_none q)
  obtain ⟨pt2, ok2, m2, heq2, h2, hlookup2⟩ :=
    Radix.insert_spec Held.zeroed ⟨code, 2 + 8⟩ 3 (some t) (px trampoline) m1 own (hempty _) h1
  simp only [mappages, heq2, bind_some]
  simp only [hempty] at hlookup2
  cases ok2 with
  | false =>
    obtain ⟨m3, heq3, h3⟩ := Held.uvmfree (fun q => by simp [hlookup2]) h2
    refine ⟨none, m3, by simp [heq3], fun q _ _ _ => lookup_none q, ?_⟩
    simpa [Radix.pages] using h3
  | true =>
    have hne : px trapframe ≠ px trampoline := by decide
    obtain ⟨pt3, ok3, m3, heq3, h3, hlookup3⟩ := Radix.insert_spec Held.zeroed
      ⟨frame, 2 + 4⟩ 3 pt2 (px trapframe) m2 own (by rw [hlookup2, if_neg hne]) h2
    simp only [heq3, bind_some]
    cases ok3 with
    | false =>
      have hempty4 : ∀ q, lookup 3 (uvmunmap pt3 trampoline 1 false m3).1 q = none := by
        intro q
        simp only [lookup_unmapOne, hlookup3, hlookup2]
        grind
      obtain ⟨m4, heq4, h4⟩ := Held.uvmfree hempty4 (Held.unmapOne h3)
      refine ⟨none, m4, by simp [heq4], fun q _ _ _ => lookup_none q, ?_⟩
      simpa [Radix.pages] using h4
    | true =>
      refine ⟨pt3, m3, rfl, fun q _ hcode hframe => ?_, ?_⟩
      · rw [hlookup3, if_neg hframe, hlookup2, if_neg hcode]
      cases pt3 with
      | none => cases (hlookup3 (px trapframe)).symm.trans (lookup_none _)
      | some t => exact h3

/-! ## `uvmcopy` -/

lemma mappedBelow_congr {pt' : PageTable} (h : ∀ v < n, walk pt' v = walk pt v) :
    mappedBelow pt' n = mappedBelow pt n := by
  refine congrArg List.sum (map_congr_left fun v hv => ?_)
  rw [mapped, mapped, h v (mem_range.mp hv)]

lemma mappedBelow_succ : mappedBelow pt (n + 1) = mapped pt n + mappedBelow pt n := by
  simp [mappedBelow, range_succ, add_comm]

lemma Bare.walk_eq_none (hbare : Bare n pt) (hn : n < trapframe) : walk pt n = none := by
  have hlt : trapframe + 1 < 2 ^ 27 := by decide
  have htop : trampoline = trapframe + 1 := by decide
  refine hbare _ (fun v hv heq => ?_) (fun heq => ?_) fun heq => ?_
  all_goals exact absurd (px_inj (by omega) (by omega) heq) (by omega)

/-- The loop goes on from page `i`, for `k` pages. -/
lemma Held.copyLoop (old : PageTable) {i k : Nat} (hik : i + k ≤ trapframe) (hbare : Bare i pt)
    (h : Held m0 true (mappedBelow pt i + (Radix.pages 3 pt + own)) m) :
    ∃ stop pt' m', copyLoop old (List.range' i k) pt m = some (stop, pt', m') ∧
      match stop with
      | none => m'.failures = m0.failures
      | some j => j ≤ trapframe ∧ Bare j pt' ∧
          Held m0 false (mappedBelow pt' j + (Radix.pages 3 pt' + own)) m' := by
  induction k generalizing i pt m with
  | zero => exact ⟨none, pt, m, rfl, h.failures⟩
  | succ k ih =>
    have hlt : i < trapframe := by omega
    have hnone := hbare.walk_eq_none hlt
    have hother : ∀ v < i, px v ≠ px i := by
      intro v hv heq
      have hsmall : trapframe < 2 ^ 27 := by decide
      exact absurd (px_inj (by omega) (by omega) heq) (by omega)
    have hmono : ∀ pt', Bare i pt' → Bare (i + 1) pt' :=
      fun pt' hb q hq => hb q fun v hv => hq v (by omega)
    rw [range'_succ, Fork.copyLoop]
    cases walk old i with
    | none =>
      refine ih (by omega) (hmono pt hbare) ?_
      rw [mappedBelow_succ, mapped, hnone]
      simpa using h
    | some pte =>
      have ha := Held.kalloc m _ h
      simp only
      generalize Fork.kalloc m = a at ha ⊢
      obtain ⟨_ | mem, m1⟩ := a
      · exact ⟨some i, pt, m1, rfl, hlt.le, hbare, ha⟩
      have h1 := ha.write (p := mem) (Multiset.mem_cons_self ..) (m1.data pte.pa)
      rw [elim_some, add_left_comm, ← Multiset.add_cons] at h1
      obtain ⟨pt2, ok2, m2, heq2, h2, hlookup2⟩ := Radix.insert_spec Held.zeroed
        ⟨mem, pte.flags⟩ 3 pt (px i) _ _ hnone h1
      simp only [mappages, memmove, heq2, bind_some]
      have hbelow : mappedBelow pt2 i = mappedBelow pt i := by
        refine mappedBelow_congr fun v hv => ?_
        rw [walk, hlookup2, if_neg (hother v hv), walk]
      cases ok2 with
      | false =>
        refine ⟨some i, pt2, _, rfl, hlt.le, fun q hq hcode hframe => ?_, ?_⟩
        · rw [hlookup2]
          by_cases hqi : q = px i
          · rw [if_pos hqi]
            rfl
          · rw [if_neg hqi]
            exact hbare q hq hcode hframe
        · rw [hbelow, add_left_comm]
          refine Held.kfree mem _ m2 ?_
          rwa [← Multiset.add_cons]
      | true =>
        refine ih (by omega) (fun q hq hcode hframe => ?_) ?_
        · rw [hlookup2, if_neg (hq i (Nat.lt_succ_self i))]
          exact hbare q (fun v hv => hq v (by omega)) hcode hframe
        rw [mappedBelow_succ, hbelow, mapped, walk, hlookup2, if_pos rfl]
        simp only [elim_some, if_true]
        rwa [Multiset.singleton_add, Multiset.cons_add, add_left_comm, ← Multiset.add_cons]

lemma Held.uvmcopy (old : PageTable) {sz : Nat} (hsz : sz ≤ 4096 * trapframe)
    (hbare : Bare 0 pt) (h : Held m0 true (Radix.pages 3 pt + own) m) :
    ∃ ok pt' m', uvmcopy old pt sz m = some (ok, pt', m') ∧
      match ok with
      | true => m'.failures = m0.failures
      | false => Bare 0 pt' ∧ Held m0 false (Radix.pages 3 pt' + own) m' := by
  have hpages : 0 + npages sz ≤ trapframe := by
    unfold npages
    omega
  obtain ⟨stop, pt1, m1, heq, hstop⟩ := Held.copyLoop old hpages hbare
    (by simpa [mappedBelow] using h)
  rw [Fork.uvmcopy, range_eq_range', heq]
  cases stop with
  | none => exact ⟨true, pt1, m1, rfl, hstop⟩
  | some j =>
    obtain ⟨hj, hbare1, h1⟩ := hstop
    have hsmall : trapframe < 2 ^ 27 := by decide
    rw [mappedBelow, range_eq_range'] at h1
    obtain ⟨hheld, hlookup⟩ := Held.unmapList (a := (pt1, m1))
      (fun v hv => by grind) nodup_range' h1
    refine ⟨false, _, _, rfl, fun q _ hcode hframe => ?_, hheld⟩
    refine (hlookup q).trans ?_
    split_ifs with hq
    · rfl
    refine hbare1 q (fun v hv heq => hq ?_) hcode hframe
    rw [heq]
    exact List.mem_map_of_mem (by grind)

end

/-! ## A failed `kfork` -/

/-- UNUSED slots have no memory, as `procinit` and `freeproc` leave them. -/
def State.Clear (s : State) : Prop :=
  ∀ i, (s.kernel.proc i).state = .unused → (s.image i).sz.val = 0 ∧ (s.image i).pagetable = none

/-- What is left of a failed `kfork`, which tried to use slot `i`. The pages that were free are
free, no other page has changed, nor have the reference counts. Slot `i` is UNUSED and cleared,
with the saved context of a process that has not run. The rest of the process table is as
before, and so is `next`. -/
structure Restored (s s' : State) (i : Slot) : Prop where
  free : s'.mem.freelist.Perm s.mem.freelist
  data : ∀ q ∉ s.mem.freelist, s'.mem.data q = s.mem.data q
  files : s'.fileRef = s.fileRef
  inodes : s'.inodeRef = s.inodeRef
  unused : (s.kernel.proc i).state = .unused
  kernel : s'.kernel = { s.kernel with
    proc := update s.kernel.proc i { Proc.blank with parent := (s.kernel.proc i).parent }
    nextpid := Lib.toInt (s.kernel.nextpid + 1) }
  image : s'.image = update s.image i { s.image i with
    sz := ⟨0, Nat.zero_le _⟩
    trapframe := none
    pagetable := none
    name := []
    context := (s'.image i).context }

/-- Slot `i` is being filled. -/
def State.filling (s : State) (i : Slot) (im : Image) (m : Mem) : State :=
  { s with kernel := Kernel.allocproc i s.kernel, mem := m }.setImage i im

structure Filling (s : State) (i : Slot) (ok : Bool) (im : Image) (m : Mem) : Prop where
  size : im.sz.val = 0
  fields : im.cleared = { (s.image i).cleared with context := im.context }
  bare : Bare 0 im.pagetable
  held : Held s.mem ok (Radix.pages 3 im.pagetable + im.trapframe.elim 0 fun p => {p}) m

variable {s : State} {i p : Slot} {im : Image} {m : Mem}

lemma Filling.freeproc (h : Filling s i false im m) (hunused : (s.kernel.proc i).state = .unused) :
    ∃ s', freeproc i (s.filling i im m) = some s' ∧ Restored s s' i := by
  have him : (s.filling i im m).image i = im := update_self ..
  have hframe : Held s.mem false (Radix.pages 3 im.pagetable + 0)
      (im.trapframe.elim m fun p => kfree p m) := by
    have hheld := h.held
    cases htf : im.trapframe with
    | none => simpa [htf] using hheld
    | some q =>
      refine Held.kfree q _ m ?_
      rw [← Multiset.singleton_add, add_comm]
      simpa [htf] using hheld
  obtain ⟨m', heq, hheld⟩ := Held.procFreepagetable h.bare hframe
  have hmem : (s.filling i im m).mem = m := rfl
  simp only [Fork.freeproc, him, h.size, hmem, heq, map_some]
  refine ⟨_, rfl, ?_, hheld.data, rfl, rfl, hunused, ?_, ?_⟩
  · exact Multiset.coe_eq_coe.mp ((zero_add _).symm.trans hheld.pages)
  · simp [State.filling, State.setImage, KernelState.modify, Kernel.allocproc, Kernel.freeproc,
      Proc.blank]
  · simp only [State.filling, State.setImage, update_idem, update_self, h.fields]
    rfl

/-- `allocproc` fails without a trace, or has filled the slot. -/
lemma found_spec (hclear : (s.image i).sz.val = 0 ∧ (s.image i).pagetable = none)
    (hunused : (s.kernel.proc i).state = .unused) :
    (∃ s', found i s = some (none, s') ∧ Restored s s' i) ∨
      ∃ im m, found i s = some (some i, s.filling i im m) ∧ Filling s i true im m := by
  have ha := Held.kalloc s.mem 0 (Held.start s.mem)
  unfold found
  simp only
  generalize kalloc s.mem = a at ha ⊢
  obtain ⟨_ | q, m1⟩ := a
  · have hfill : Filling s i false { s.image i with trapframe := none } m1 := by
      refine ⟨hclear.1, rfl, ?_, ?_⟩
      · simp only [hclear.2]
        exact fun q _ _ _ => lookup_none q
      · simpa [hclear.2, Radix.pages] using ha
    obtain ⟨s', heq, hrestored⟩ := hfill.freeproc hunused
    exact Or.inl ⟨s', congrArg (Option.map fun s => (none, s)) heq, hrestored⟩
  obtain ⟨pt, m2, heq2, hbare, h2⟩ := Held.procPagetable s.trampolineCode q ha
  simp only [heq2, bind_some]
  cases pt with
  | none =>
    have hfill : Filling s i false
        { s.image i with trapframe := some q, pagetable := none } m2 :=
      ⟨hclear.1, rfl, hbare, h2⟩
    obtain ⟨s', heq, hrestored⟩ := hfill.freeproc hunused
    exact Or.inl ⟨s', congrArg (Option.map fun s => (none, s)) heq, hrestored⟩
  | some t => exact Or.inr ⟨_, m2, rfl, hclear.1, rfl, hbare, h2⟩

/-- **A failed fork leaves no trace.** `kfork` does not panic while it allocates, and if an
allocation fails, at any point, then it returns -1 and has restored everything. -/
theorem failed_fork_leaves_no_trace (pol : Policy) (p : Slot) (hclear : s.Clear) :
    ∃ r s', forkMemory p s = some (r, s') ∧ (s'.mem.failures ≠ s.mem.failures →
      kfork pol p s = some (-1, s') ∧ ∃ i, Restored s s' i) := by
  unfold kfork forkMemory allocproc
  cases hfind : (List.finRange 64).find? fun i => (s.kernel.proc i).state = .unused with
  | none => exact ⟨none, s, rfl, fun h => absurd rfl h⟩
  | some i =>
    have hunused : (s.kernel.proc i).state = .unused := by simpa using List.find?_some hfind
    rcases found_spec (hclear i hunused) hunused with ⟨s', heq, hrestored⟩ | ⟨im, m, heq, h⟩
    · simp only [heq, bind_some]
      exact ⟨none, s', rfl, fun _ => ⟨rfl, i, hrestored⟩⟩
    simp only [heq, bind_some]
    have him : (s.filling i im m).image i = im := update_self ..
    obtain ⟨ok, pt, m', hcopy, hok⟩ := Held.uvmcopy ((s.filling i im m).image p).pagetable
      ((s.filling i im m).image p).sz.2 h.bare h.held
    have hset : { s.filling i im m with mem := m' }.setImage i { im with pagetable := pt } =
        s.filling i { im with pagetable := pt } m' := by
      simp [State.filling, State.setImage]
    rw [him]
    have hmem : (s.filling i im m).mem = m := rfl
    simp only [hmem, hcopy, bind_some, hset]
    cases ok with
    | true => exact ⟨some i, _, rfl, fun hne => absurd hok hne⟩
    | false =>
      have hfill : Filling s i false { im with pagetable := pt } m' :=
        ⟨h.size, h.fields, hok.1, hok.2⟩
      obtain ⟨s', heq', hrestored⟩ := hfill.freeproc hunused
      simp only [heq', Bool.false_eq_true, if_false, map_some, bind_some]
      exact ⟨none, s', rfl, fun _ => ⟨rfl, i, hrestored⟩⟩

/-! ## UNUSED slots stay clear -/

/-- Apart from slot `i`, the table is the same. -/
def Spares (i : Slot) (s s' : State) : Prop :=
  ∀ j, j ≠ i → s'.kernel.proc j = s.kernel.proc j ∧ s'.image j = s.image j

section

variable {s1 s' : State} {np : Slot} {r : Option Slot} {pid : Int}

lemma State.Clear.of_spares (h : s.Clear) (hs : Spares i s s')
    (hi : (s'.kernel.proc i).state = .unused →
      (s'.image i).sz.val = 0 ∧ (s'.image i).pagetable = none) : s'.Clear := by
  intro j hj
  by_cases hji : j = i
  · subst hji
    exact hi hj
  · rw [(hs j hji).1] at hj
    rw [(hs j hji).2]
    exact h j hj

lemma spares_filling (s : State) (i : Slot) (im : Image) (m : Mem) :
    Spares i s (s.filling i im m) :=
  fun _ hji => ⟨Kernel.allocproc_of_ne i s.kernel hji, update_of_ne hji ..⟩

lemma State.Clear.freeproc (h : s.Clear) (hs : Spares i s s1) (hf : freeproc i s1 = some s') :
    s'.Clear := by
  obtain ⟨m, -, rfl⟩ := map_eq_some_iff.mp hf
  refine h.of_spares (i := i) (fun j hji => ?_) fun _ => ?_
  · exact ⟨(modify_proc_of_ne s1.kernel _ hji).trans (hs j hji).1,
      (update_of_ne hji ..).trans (hs j hji).2⟩
  · simp [State.setImage, Image.cleared]

lemma State.Clear.found (h : s.Clear) (hf : found i s = some (r, s')) :
    s'.Clear ∧ ∀ np, r = some np → (s'.kernel.proc np).state ≠ .unused := by
  have hfreed : ∀ {im m}, (Fork.freeproc i (s.filling i im m)).map (fun s => (none, s)) =
      some (r, s') → s'.Clear ∧ ∀ np, r = some np → (s'.kernel.proc np).state ≠ .unused := by
    intro im m hmap
    obtain ⟨s1, h1, heq⟩ := map_eq_some_iff.mp hmap
    cases heq
    exact ⟨h.freeproc (spares_filling s i im m) h1, by simp⟩
  unfold Fork.found at hf
  simp only at hf
  generalize kalloc s.mem = a at hf
  obtain ⟨_ | q, m⟩ := a
  · exact hfreed hf
  obtain ⟨⟨pt, m2⟩, -, hf⟩ := bind_eq_some_iff.mp hf
  dsimp only at hf
  split at hf
  · exact hfreed hf
  · cases hf
    refine ⟨h.of_spares (spares_filling s i _ m2) fun hu => ?_, ?_⟩
    · simp [State.setImage, Kernel.allocproc] at hu
    · rintro np hnp
      cases hnp
      simp [State.setImage, Kernel.allocproc]

lemma State.Clear.forkMemory (h : s.Clear) (hf : forkMemory p s = some (r, s')) : s'.Clear := by
  obtain ⟨⟨slot, s1⟩, halloc, hf⟩ := bind_eq_some_iff.mp hf
  have h1 : s1.Clear ∧ ∀ np, slot = some np → (s1.kernel.proc np).state ≠ .unused := by
    unfold allocproc at halloc
    split at halloc
    · cases halloc
      exact ⟨h, by simp⟩
    · exact h.found halloc
  cases slot with
  | none =>
    cases hf
    exact h1.1
  | some np =>
    obtain ⟨⟨ok, pt, m⟩, -, hf⟩ := bind_eq_some_iff.mp hf
    dsimp only at hf
    have hs : Spares np s1 ({ s1 with mem := m }.setImage np
        { s1.image np with pagetable := pt }) := fun j hj => ⟨rfl, update_of_ne hj ..⟩
    split at hf
    · cases hf
      exact h1.1.of_spares hs fun hu => absurd hu (h1.2 np rfl)
    · obtain ⟨s2, h2, heq⟩ := map_eq_some_iff.mp hf
      cases heq
      exact h1.1.freeproc hs h2

/-- The copy of the open files. -/
lemma spares_dupFile (is : List (Fin 16)) (hf : is.foldlM (dupFile p np) s = some s') :
    Spares np s s' := by
  induction is generalizing s with
  | nil =>
    cases hf
    exact fun _ _ => ⟨rfl, rfl⟩
  | cons i is ih =>
    rw [foldlM_cons] at hf
    obtain ⟨s1, h1, hrest⟩ := bind_eq_some_iff.mp hf
    have hstep : Spares np s s1 := by
      unfold dupFile at h1
      split at h1
      · cases h1
        exact fun _ _ => ⟨rfl, rfl⟩
      split at h1
      · cases h1
      · cases h1
        exact fun j hj => ⟨rfl, update_of_ne hj ..⟩
    intro j hj
    obtain ⟨hproc, himage⟩ := ih hrest j hj
    exact ⟨hproc.trans (hstep j hj).1, himage.trans (hstep j hj).2⟩

/-- `kfork` leaves the UNUSED slots clear, whether it fails or not. -/
theorem State.Clear.kfork {pol : Policy} (h : s.Clear)
    (hf : kfork pol p s = some (pid, s')) : s'.Clear := by
  obtain ⟨⟨slot, s1⟩, hmem, hf⟩ := bind_eq_some_iff.mp hf
  have h1 := h.forkMemory hmem
  cases slot with
  | none =>
    cases hf
    exact h1
  | some np =>
    obtain ⟨src, -, hf⟩ := bind_eq_some_iff.mp hf
    obtain ⟨dst, -, hf⟩ := bind_eq_some_iff.mp hf
    obtain ⟨s2, hdup, heq⟩ := map_eq_some_iff.mp hf
    cases heq
    have hs := spares_dupFile _ hdup
    refine h1.of_spares (i := np) (fun j hj => ⟨?_, (update_of_ne hj ..).trans (hs j hj).2⟩) ?_
    · exact (makeRunnable_of_ne pol np _ hj).trans
        ((modify_proc_of_ne s2.kernel _ hj).trans (hs j hj).1)
    · intro hu
      simp [State.setImage, makeRunnable] at hu

end

/-- The first process, with one page of memory, while six pages are free. -/
def sample : State where
  kernel := boot .rr
  image i :=
    ⟨⟨if i = 0 then 4096 else 0, by split <;> decide⟩, none,
      if i = 0 then
        some (20, update (fun _ => none) 0 (some
          (21, update (fun _ => none) 0 (some
            (22, update (fun _ => none) 0 (some ⟨23, 31⟩))))))
      else none,
      0, ⟨0, 0, fun _ => 0⟩, fun _ => none, 0, []⟩
  mem := ⟨[1, 2, 3, 4, 5, 6], fun _ _ => 0, 0⟩
  fileRef _ := 0
  inodeRef _ := 1
  trampolineCode := 7
  forkret := 8

/-- The last table for the copy of the page is missing. -/
theorem failed_fork_last_table : sample.Clear ∧ ∃ s',
    s'.mem.failures = 1 ∧ kfork .rr 0 sample = some (-1, s') ∧ ∃ i, Restored sample s' i := by
  have hclear : sample.Clear := by
    intro i hunused
    have hi : i ≠ 0 := by
      rintro rfl
      revert hunused
      decide
    exact ⟨if_neg hi, if_neg hi⟩
  have hfailed : (forkMemory 0 sample).any (fun a => a.2.mem.failures = 1) = true := by
    decide +kernel
  obtain ⟨r, s', heq, h⟩ := failed_fork_leaves_no_trace .rr 0 hclear
  rw [heq] at hfailed
  have hone : s'.mem.failures = 1 := of_decide_eq_true hfailed
  refine ⟨hclear, s', hone, h ?_⟩
  rw [hone]
  decide

end CshellXv6.Kernel.Fork
