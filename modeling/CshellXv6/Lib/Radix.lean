import Mathlib.Algebra.BigOperators.Fin
import Mathlib.Algebra.Order.Group.Multiset

/-! # Radix trees of pages

A tree of tables, each on a page of its own. A table of height `n + 1` has entries for tables
of height `n`, and what is above a tree of height `0` is a value. Inserting a value allocates
the tables that are missing on its path; when an allocation fails, those that it has got so far
stay in the tree. Which pages a caller holds, and if no allocation has failed so far, is a
predicate `Holds` on the memory.
-/

namespace CshellXv6.Lib

open Function List

/-- A table with its page. -/
def Radix (r : Nat) (β : Type) : Nat → Type
  | 0 => β
  | n + 1 => Nat × (Fin r → Option (Radix r β n))

/-- The indices on the way down. -/
def Route (r : Nat) : Nat → Type
  | 0 => Unit
  | n + 1 => Fin r × Route r n

instance (r : Nat) : (n : Nat) → DecidableEq (Route r n)
  | 0 => inferInstanceAs (DecidableEq Unit)
  | n + 1 =>
    have := instDecidableEqRoute r n
    inferInstanceAs (DecidableEq (Fin r × Route r n))

namespace Radix

variable {r n : Nat} {β σ : Type}

def lookup : (n : Nat) → Option (Radix r β n) → Route r n → Option β
  | _, none, _ => none
  | 0, some b, _ => some b
  | n + 1, some t, path => lookup n (t.2 path.1) path.2

lemma lookup_none (q : Route r n) : lookup n (none : Option (Radix r β n)) q = none := by
  cases n <;> rfl

/-- The table that an entry points to, or a new one. -/
def table (alloc : σ → Option Nat × σ) :
    Option (Radix r β (n + 1)) → σ → Option (Radix r β (n + 1)) × σ
  | some t, m => (some t, m)
  | none, m => ((alloc m).1.map fun p => (p, fun _ => none), (alloc m).2)

/-- Store a value. The answer says if there was enough memory; it is `none` if there is a value
already. -/
def insert (alloc : σ → Option Nat × σ) (b : β) : (n : Nat) → Option (Radix r β n) →
    Route r n → σ → Option (Option (Radix r β n) × Bool × σ)
  | 0, none, _, m => some (some b, true, m)
  | 0, some _, _, _ => none
  | n + 1, e, path, m =>
    match table alloc e m with
    | (none, m) => some (e, false, m)
    | (some t, m) => (insert alloc b n (t.2 path.1) path.2 m).map fun a =>
        (some (t.1, update t.2 path.1 a.1), a.2)

def erase : (n : Nat) → Option (Radix r β n) → Route r n → Option (Radix r β n)
  | _, none, _ => none
  | 0, some _, _ => none
  | n + 1, some t, path =>
    some (t.1, update t.2 path.1 (erase n (t.2 path.1) path.2))

/-- Free all tables, below first. There must be no value left. -/
def release (free : Nat → σ → σ) : (n : Nat) → Option (Radix r β n) → σ → Option σ
  | _, none, m => some m
  | 0, some _, _ => none
  | n + 1, some t, m =>
    ((List.finRange r).foldlM (fun m i => release free n (t.2 i) m) m).map (free t.1)

/-- The pages of all tables. -/
def pages : (n : Nat) → Option (Radix r β n) → Multiset Nat
  | _, none => 0
  | 0, some _ => 0
  | n + 1, some t => t.1 ::ₘ ∑ i, pages n (t.2 i)

/-- Exchange one subtree. -/
lemma pages_update (p : Nat) (kids : Fin r → Option (Radix r β n)) (i : Fin r)
    (e : Option (Radix r β n)) : pages (n + 1) (some (p, update kids i e)) =
      pages n e + (p ::ₘ ∑ j ∈ Finset.univ.erase i, pages n (kids j)) := by
  change p ::ₘ ∑ j, pages n (update kids i e j) = _
  rw [← Finset.add_sum_erase _ _ (Finset.mem_univ i), update_self, Multiset.add_cons]
  congr 2
  refine Finset.sum_congr rfl fun j hj => ?_
  rw [update_of_ne (Finset.ne_of_mem_erase hj)]

lemma pages_child (t : Radix r β (n + 1)) (i : Fin r) : pages (n + 1) (some t) =
    pages n (t.2 i) + (t.1 ::ₘ ∑ j ∈ Finset.univ.erase i, pages n (t.2 j)) := by
  have h := pages_update t.1 t.2 i (t.2 i)
  rwa [update_eq_self] at h

lemma lookup_update {p : Nat} {kids : Fin r → Option (Radix r β n)} {e : Option (Radix r β n)}
    {path q : Route r (n + 1)} {b : Option β}
    (h : ∀ q, lookup n e q = if q = path.2 then b else lookup n (kids path.1) q) :
    lookup (n + 1) (some (p, update kids path.1 e)) q =
      if q = path then b else lookup (n + 1) (some (p, kids)) q := by
  by_cases hq : q.1 = path.1
  · have hiff : q = path ↔ q.2 = path.2 := Prod.ext_iff.trans (and_iff_right hq)
    simp only [lookup, hq, update_self, h, hiff]
  · have hne : q ≠ path := fun heq => hq (congrArg Prod.fst heq)
    simp only [lookup, update_of_ne hq, if_neg hne]

lemma pages_erase : ∀ (n : Nat) (e : Option (Radix r β n)) (path : Route r n),
    pages n (erase n e path) = pages n e
  | 0, none, _ | 0, some _, _ => rfl
  | n + 1, some t, path => by
    rw [erase, pages_update, pages_erase, ← pages_child]
  | _ + 1, none, _ => rfl

lemma lookup_erase : ∀ (n : Nat) (e : Option (Radix r β n)) (path q : Route r n),
    lookup n (erase n e path) q = if q = path then none else lookup n e q
  | 0, none, _, _ => (ite_self _).symm
  | _ + 1, none, _, _ => (ite_self _).symm
  | 0, some _, _, _ => (if_pos rfl).symm
  | n + 1, some t, path, _ => lookup_update (lookup_erase n (t.2 path.1) path.2)

section

variable {Holds : Bool → Multiset Nat → σ → Prop}

section

variable {alloc : σ → Option Nat × σ} (halloc : ∀ m own, Holds true own m →
  Holds (alloc m).1.isSome ((alloc m).1.elim own fun p => p ::ₘ own) (alloc m).2)
include halloc

lemma table_spec (e : Option (Radix r β (n + 1))) {m : σ} {own : Multiset Nat}
    (h : Holds true (pages (n + 1) e + own) m) :
    match table alloc e m with
    | (none, m') => Holds false (pages (n + 1) e + own) m'
    | (some t, m') => Holds true (pages (n + 1) (some t) + own) m' ∧
        lookup (n + 1) (some t) = lookup (n + 1) e := by
  cases e with
  | some t => exact ⟨h, rfl⟩
  | none =>
    have ha := halloc m _ h
    rw [table]
    cases hp : (alloc m).1 with
    | none =>
      rw [hp] at ha
      exact ha
    | some p =>
      rw [hp] at ha
      refine ⟨?_, funext fun q => lookup_none q.2⟩
      simpa [pages] using ha

lemma insert_spec (b : β) (n : Nat) (e : Option (Radix r β n)) (path : Route r n) (m : σ)
    (own : Multiset Nat) (hfree : lookup n e path = none) (h : Holds true (pages n e + own) m) :
    ∃ e' ok m', insert alloc b n e path m = some (e', ok, m') ∧ Holds ok (pages n e' + own) m' ∧
      ∀ q, lookup n e' q = if q = path then (if ok then some b else none) else lookup n e q := by
  induction n generalizing m own with
  | zero =>
    cases e with
    | none => exact ⟨_, _, _, rfl, h, fun q => (if_pos rfl).symm⟩
    | some b' => cases hfree
  | succ n ih =>
    have ht := table_spec halloc e h
    rw [insert]
    generalize table alloc e m = a at ht ⊢
    obtain ⟨_ | t, m1⟩ := a
    · refine ⟨e, false, m1, rfl, ht, fun q => ?_⟩
      by_cases hq : q = path
      · rw [if_pos hq, hq, hfree]
        rfl
      · rw [if_neg hq]
    obtain ⟨ht, hlookup⟩ := ht
    rw [← hlookup] at hfree ⊢
    rw [pages_child t path.1, add_assoc] at ht
    obtain ⟨e', ok, m', heq, hheld, hlookup'⟩ := ih (t.2 path.1) path.2 m1 _ hfree ht
    refine ⟨_, ok, m', ?_, ?_, fun q => lookup_update hlookup'⟩
    · simp only [heq, Option.map_some]
    · rwa [pages_update, add_assoc]

end

lemma release_spec {free : Nat → σ → σ} {ok : Bool}
    (hfree : ∀ p own m, Holds ok (p ::ₘ own) m → Holds ok own (free p m)) (n : Nat)
    (e : Option (Radix r β n)) (m : σ) (own : Multiset Nat) (hempty : ∀ q, lookup n e q = none)
    (h : Holds ok (pages n e + own) m) : ∃ m', release free n e m = some m' ∧ Holds ok own m' := by
  induction n generalizing m own with
  | zero =>
    cases e with
    | none => exact ⟨m, rfl, by simpa [pages] using h⟩
    | some b => cases hempty ()
  | succ n ih =>
    cases e with
    | none => exact ⟨m, rfl, by simpa [pages] using h⟩
    | some t =>
      -- the subtrees are freed one after the other
      have hall : ∀ (l : List (Fin r)) (m : σ) (own : Multiset Nat),
          Holds ok ((l.map fun i => pages n (t.2 i)).sum + own) m →
          ∃ m', l.foldlM (fun m i => release free n (t.2 i) m) m = some m' ∧ Holds ok own m' := by
        intro l
        induction l with
        | nil => exact fun m own h => ⟨m, rfl, by simpa using h⟩
        | cons i l ihl =>
          intro m own h
          rw [map_cons, sum_cons, add_assoc] at h
          obtain ⟨m1, heq, h1⟩ := ih (t.2 i) m _ (fun q => hempty (i, q)) h
          rw [foldlM_cons, heq]
          exact ihl m1 own h1
      rw [pages, Fin.sum_univ_def, Multiset.cons_add, ← Multiset.add_cons] at h
      obtain ⟨m1, heq, h1⟩ := hall _ m _ h
      exact ⟨free t.1 m1, by rw [release, heq, Option.map_some], hfree _ _ _ h1⟩

end

end Radix

end CshellXv6.Lib
