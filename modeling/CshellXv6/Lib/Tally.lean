import Mathlib.Data.List.Dedup
import Mathlib.Tactic

/-! # Tallies

A table with one entry for each key, in a list: the entry of a key that comes again is
changed where it is, and a key that is new gets an entry at the end. So the keys of the
table stand in the order in which they came first, and a number that every change takes
one further counts how often they came.
-/

namespace CshellXv6.Lib

open List

variable {α κ ν : Type*} [DecidableEq κ]

/-- The keys in the order in which they come first. -/
def firsts (ks : List κ) : List κ := ks.reverse.dedup.reverse

/-- The first entry with the key is changed; if there is none, the new one is added. -/
def upsert (key : α → κ) (k : κ) (change : α → α) (new : α) : List α → List α
  | [] => [new]
  | x :: rest => if key x = k then change x :: rest else x :: upsert key k change new rest

section

variable {ks : List κ} {k a b : κ}

lemma mem_firsts : a ∈ firsts ks ↔ a ∈ ks := by
  simp [firsts]

lemma nodup_firsts (ks : List κ) : (firsts ks).Nodup := by
  rw [firsts, nodup_reverse]
  exact nodup_dedup _

lemma firsts_append_of_mem (h : k ∈ ks) : firsts (ks ++ [k]) = firsts ks := by
  rw [firsts, reverse_append, reverse_singleton, singleton_append,
    dedup_cons_of_mem (mem_reverse.mpr h), firsts]

lemma firsts_append_of_notMem (h : k ∉ ks) : firsts (ks ++ [k]) = firsts ks ++ [k] := by
  rw [firsts, reverse_append, reverse_singleton, singleton_append,
    dedup_cons_of_notMem (fun hk => h (mem_reverse.mp hk)), reverse_cons, firsts]

/-- The keys stand in the order of their first places. -/
lemma pairwise_firsts (ks : List κ) : (firsts ks).Pairwise fun a b => ks.idxOf a < ks.idxOf b := by
  induction ks using List.reverseRecOn with
  | nil => exact List.Pairwise.nil
  | append_singleton ks k ih =>
    -- the places of the keys that came before stay
    have hsame : ∀ a ∈ firsts ks, (ks ++ [k]).idxOf a = ks.idxOf a := fun a ha =>
      idxOf_append_of_mem (mem_firsts.mp ha)
    have hold : (firsts ks).Pairwise fun a b => (ks ++ [k]).idxOf a < (ks ++ [k]).idxOf b := by
      refine ih.imp_of_mem ?_
      intro a b ha hb hlt
      rw [hsame a ha, hsame b hb]
      exact hlt
    by_cases hk : k ∈ ks
    · rw [firsts_append_of_mem hk]
      exact hold
    rw [firsts_append_of_notMem hk, pairwise_append]
    refine ⟨hold, pairwise_singleton _ k, ?_⟩
    intro a ha b hb
    rw [mem_singleton.mp hb, hsame a ha, idxOf_append_of_notMem hk]
    have hlt := idxOf_lt_length_of_mem (mem_firsts.mp ha)
    omega

lemma length_firsts_le (ks ks' : List κ) : (firsts ks).length ≤ (firsts (ks ++ ks')).length := by
  induction ks' using List.reverseRecOn with
  | nil => rw [append_nil]
  | append_singleton ks' k ih =>
    rw [← append_assoc]
    by_cases hk : k ∈ ks ++ ks'
    · rw [firsts_append_of_mem hk]
      exact ih
    · rw [firsts_append_of_notMem hk, length_append]
      omega

lemma firsts_perm_dedup (ks : List κ) : (firsts ks).Perm ks.dedup :=
  (reverse_perm _).trans (reverse_perm ks).dedup

lemma sum_count_firsts (ks : List κ) : ((firsts ks).map ks.count).sum = ks.length := by
  rw [((firsts_perm_dedup ks).map _).sum_eq, sum_map_count_dedup_eq_length]

end

section

variable {key : α → κ} {change : α → α} {new : α} {k : κ} {l : List α}

lemma upsert_of_notMem (h : k ∉ l.map key) : upsert key k change new l = l ++ [new] := by
  induction l with
  | nil => rfl
  | cons x rest ih =>
    rw [map_cons, mem_cons, not_or] at h
    rw [upsert, if_neg fun hx => h.1 hx.symm, ih h.2, cons_append]

lemma upsert_of_mem (h : k ∈ l.map key) :
    ∃ a x b, l = a ++ x :: b ∧ key x = k ∧ upsert key k change new l = a ++ change x :: b := by
  induction l with
  | nil => cases h
  | cons x rest ih =>
    rw [upsert]
    split
    next hx => exact ⟨[], x, rest, rfl, hx, rfl⟩
    next hx =>
      rw [map_cons, mem_cons, or_iff_right fun hk => hx hk.symm] at h
      obtain ⟨a, y, b, rfl, hy, hup⟩ := ih h
      exact ⟨x :: a, y, b, rfl, hy, by rw [hup, cons_append]⟩

/-- What a change keeps and the new entry has, all entries have. -/
lemma forall_mem_upsert {P : α → Prop} (h : ∀ x ∈ l, P x) (hchange : ∀ x, P x → P (change x))
    (hnew : P new) : ∀ x ∈ upsert key k change new l, P x := by
  induction l with
  | nil => exact forall_mem_singleton.mpr hnew
  | cons y rest ih =>
    obtain ⟨hy, hrest⟩ := forall_mem_cons.mp h
    rw [upsert]
    split
    · exact forall_mem_cons.mpr ⟨hchange y hy, hrest⟩
    · exact forall_mem_cons.mpr ⟨hy, ih hrest⟩

/-- What a change leaves alone. -/
lemma map_upsert_of_mem {β : Type*} {g : α → β} (hg : ∀ x, g (change x) = g x)
    (h : k ∈ l.map key) : (upsert key k change new l).map g = l.map g := by
  obtain ⟨a, x, b, rfl, -, hup⟩ : ∃ a x b, l = a ++ x :: b ∧ key x = k ∧
    upsert key k change new l = a ++ change x :: b := upsert_of_mem h
  rw [hup, map_append, map_append, map_cons, map_cons, hg]

end

/-- The table is the tally of the keys that came: `num` is `val` of how often. -/
structure Tallied (key : α → κ) (num : α → ν) (val : ℕ → ν) (ks : List κ) (l : List α) :
    Prop where
  keys : l.map key = firsts ks
  counts : ∀ x ∈ l, num x = val (ks.count (key x))

section

variable {key : α → κ} {num : α → ν} {val : ℕ → ν} {ks : List κ} {l : List α} {k : κ}
variable {change : α → α} {new : α}

lemma Tallied.nil : Tallied key num val [] [] := by
  constructor
  · rfl
  · intro x hx
    cases hx

/-- One more key comes. -/
lemma Tallied.upsert (h : Tallied key num val ks l) (hkey : ∀ x, key (change x) = key x)
    (hnew : key new = k) (hnext : ∀ x m, num x = val m → num (change x) = val (m + 1))
    (hone : num new = val 1) : Tallied key num val (ks ++ [k]) (upsert key k change new l) := by
  -- the number of another key stays
  have hother : ∀ x, key x ≠ k → (ks ++ [k]).count (key x) = ks.count (key x) := by
    intro x hx
    rw [count_append, count_singleton, if_neg (by simpa using fun h => hx h.symm), Nat.add_zero]
  have hmem : k ∈ l.map key ↔ k ∈ ks := by
    rw [h.keys, mem_firsts]
  by_cases hk : k ∈ l.map key
  · have hnodup := nodup_firsts ks
    have hkeys := h.keys
    have hcounts := h.counts
    obtain ⟨a, x, b, rfl, hx, hup⟩ : ∃ a x b, l = a ++ x :: b ∧ key x = k ∧
      Lib.upsert key k change new l = a ++ change x :: b := upsert_of_mem hk
    rw [← hkeys, map_append, map_cons, hx, nodup_append, nodup_cons] at hnodup
    obtain ⟨-, ⟨hb, -⟩, ha⟩ := hnodup
    rw [hup]
    constructor
    · rw [← hup, map_upsert_of_mem hkey hk, hkeys, firsts_append_of_mem (hmem.mp hk)]
    intro y hy
    rcases mem_append.mp hy with hya | hyb
    · have hne : key y ≠ k := ha _ (mem_map_of_mem hya) k mem_cons_self
      rw [hother y hne]
      exact hcounts y (mem_append_left _ hya)
    rcases mem_cons.mp hyb with rfl | hyb
    · rw [hkey, hx, count_append, count_singleton_self]
      refine hnext x _ ?_
      rw [hcounts x (mem_append_right _ mem_cons_self), hx]
    have hne : key y ≠ k := fun hyk => hb (hyk ▸ mem_map_of_mem hyb)
    rw [hother y hne]
    exact hcounts y (mem_append_right _ (mem_cons_of_mem x hyb))
  · have hnot : k ∉ ks := fun hks => hk (hmem.mpr hks)
    rw [upsert_of_notMem hk]
    constructor
    · rw [firsts_append_of_notMem hnot, map_append, h.keys, map_singleton, hnew]
    intro y hy
    rcases mem_append.mp hy with hyl | hyn
    · have hne : key y ≠ k := fun hyk => hk (hyk ▸ mem_map_of_mem hyl)
      rw [hother y hne]
      exact h.counts y hyl
    rw [mem_singleton.mp hyn, hnew, count_append, count_singleton_self,
      count_eq_zero_of_not_mem hnot]
    exact hone

end

end CshellXv6.Lib
