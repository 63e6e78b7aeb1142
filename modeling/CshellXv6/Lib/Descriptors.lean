import Mathlib.Tactic

/-! # Descriptor tables

The descriptor table of a process: slot `fd` holds a descriptor or is free,
and a new descriptor takes the lowest free slot. What a descriptor is does not
matter here.

Every operation comes with the one lemma that proofs use, the content of each
slot afterwards; tables are compared slot by slot.
-/

namespace CshellXv6.Lib

open List

universe u

/-- A descriptor table. Slots past the end are free. -/
abbrev Table (δ : Type u) := List (Option δ)

namespace Table

variable {δ : Type u}

/-- What is open under `fd`. -/
def get (t : Table δ) (fd : Nat) : Option δ := (t[fd]?).join

/-- The lowest free slot. -/
def fresh (t : Table δ) : Nat := t.findIdx Option.isNone

/-- Write a slot, whatever it holds. -/
def put (t : Table δ) (fd : Nat) (d : Option δ) : Table δ :=
  (t ++ List.replicate (fd + 1 - t.length) none).set fd d

/-- Open `d` under the lowest free slot. -/
def alloc (t : Table δ) (d : δ) : Table δ := t.put t.fresh (some d)

/-- `close(fd)`; closing a free slot does nothing. -/
def close (t : Table δ) (fd : Nat) : Table δ := t.set fd none

/-- Close several descriptors. -/
def closeAll (t : Table δ) (fds : List Nat) : Table δ := fds.foldl close t

/-- `dup2(src, dst)`; it fails, and changes nothing, when `src` is free. -/
def dup2 (t : Table δ) (src dst : Nat) : Table δ :=
  match t.get src with
  | none => t
  | some d => t.put dst (some d)

/-- Two tables with the same descriptors open. -/
def Same (t t' : Table δ) : Prop := ∀ fd, t.get fd = t'.get fd

lemma get_put (t : Table δ) (fd x : Nat) (d : Option δ) :
    (t.put fd d).get x = if x = fd then d else t.get x := by
  unfold put get
  rw [List.getElem?_set]
  by_cases hx : x = fd
  · subst hx
    have hlt : x < (t ++ List.replicate (x + 1 - t.length) none).length := by
      simp only [length_append, length_replicate]
      omega
    simp only [if_true, hlt]
    rfl
  · rw [if_neg (fun h => hx h.symm), if_neg hx]
    rcases Nat.lt_or_ge x t.length with hlt | hge
    · rw [List.getElem?_append_left hlt]
    · rw [List.getElem?_append_right hge, List.getElem?_eq_none hge, List.getElem?_replicate]
      split <;> rfl

lemma get_close (t : Table δ) (fd x : Nat) :
    (t.close fd).get x = if x = fd then none else t.get x := by
  unfold close get
  rw [List.getElem?_set]
  by_cases hx : x = fd
  · subst hx
    rw [if_pos rfl, if_pos rfl]
    split <;> rfl
  · rw [if_neg (fun h => hx h.symm), if_neg hx]

lemma get_closeAll (t : Table δ) (fds : List Nat) (x : Nat) :
    (t.closeAll fds).get x = if x ∈ fds then none else t.get x := by
  induction fds generalizing t with
  | nil => simp [closeAll]
  | cons fd fds ih =>
    rw [closeAll, foldl_cons, ← closeAll, ih, get_close]
    by_cases hx : x = fd <;> simp [hx]

lemma get_fresh (t : Table δ) : t.get t.fresh = none := by
  unfold get fresh
  rcases Nat.lt_or_ge (t.findIdx Option.isNone) t.length with hlt | hge
  · have hnone : (t[t.findIdx Option.isNone]).isNone = true := findIdx_getElem (w := hlt)
    rw [List.getElem?_eq_getElem hlt]
    exact Option.isNone_iff_eq_none.mp hnone
  · rw [List.getElem?_eq_none hge]
    rfl

lemma get_alloc (t : Table δ) (d : δ) (x : Nat) :
    (t.alloc d).get x = if x = t.fresh then some d else t.get x :=
  get_put t t.fresh x (some d)

lemma get_dup2 {t : Table δ} {src dst : Nat} {d : δ} (h : t.get src = some d) (x : Nat) :
    (t.dup2 src dst).get x = if x = dst then some d else t.get x := by
  unfold dup2
  rw [h]
  exact get_put t dst x (some d)

/-- `dup2` touches its target only. -/
lemma get_dup2_of_ne {t : Table δ} {src dst x : Nat} (h : x ≠ dst) :
    (t.dup2 src dst).get x = t.get x := by
  unfold dup2
  split
  · rfl
  · rw [get_put, if_neg h]

/-- `dup2` of one end of a pipe, after which both ends are closed. -/
lemma get_dup2_close {t : Table δ} {src dst r w : Nat} {d : δ} (h : t.get src = some d)
    (x : Nat) : (((t.dup2 src dst).close r).close w).get x =
      if x = r ∨ x = w then none else if x = dst then some d else t.get x := by
  rw [get_close, get_close, get_dup2 h]
  by_cases hw : x = w
  · simp [hw]
  by_cases hr : x = r
  · simp [hr]
  · simp [hw, hr]

/-- Exactly the slots `P` are closed. -/
def Closes (P : Nat → Prop) (t t' : Table δ) : Prop :=
  ∀ x, (P x → t'.get x = none) ∧ (¬ P x → t'.get x = t.get x)

section Closes

variable {P Q : Nat → Prop} {t t' t'' : Table δ}

lemma Closes.trans (h : Closes P t t') (h' : Closes Q t' t'') :
    Closes (fun x => Q x ∨ P x) t t'' := by
  intro x
  by_cases hx : Q x
  · exact ⟨fun _ => (h' x).1 hx, fun hnot => absurd (.inl hx) hnot⟩
  · rw [(h' x).2 hx]
    exact ⟨fun hor => (h x).1 (hor.resolve_left hx), fun hnot => (h x).2 fun hp => hnot (.inr hp)⟩

/-- What is open afterwards was open before, and has not been closed. -/
lemma Closes.of_get {x : Nat} {d : δ} (h : Closes P t t') (hx : t'.get x = some d) :
    t.get x = some d ∧ ¬ P x := by
  have hopen : ¬ P x := by
    intro hp
    rw [(h x).1 hp] at hx
    cases hx
  rw [(h x).2 hopen] at hx
  exact ⟨hx, hopen⟩

lemma closes_closeAll (t : Table δ) (fds : List Nat) : Closes (· ∈ fds) t (t.closeAll fds) := by
  intro x
  rw [get_closeAll]
  exact ⟨fun hx => if_pos hx, fun hx => if_neg hx⟩

end Closes

/-- An open slot is not the one that the next descriptor takes. -/
lemma ne_fresh {t : Table δ} {fd : Nat} {d : δ} (h : t.get fd = some d) : fd ≠ t.fresh := by
  rintro rfl
  rw [get_fresh] at h
  cases h

end Table

end CshellXv6.Lib
