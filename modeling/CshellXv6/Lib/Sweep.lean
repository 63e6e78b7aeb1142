import CshellXv6.Lib.Rules

/-! # Sweeps over a table

A loop that visits every slot of a table of fixed size and applies one
operation per slot. A property that every visit keeps holds after the sweep; a
property that the visit of one slot brings about, and later visits keep, holds
after the sweep whatever held before.
-/

namespace CshellXv6.Lib

open List

universe u v

variable {σ : Type u} {n : ℕ} {f : Fin n → σ → σ} {s : σ}

/-- Apply the operation to slot `0`, then to slot `1`, and so on. -/
@[irreducible]
def sweep (f : Fin n → σ → σ) (s : σ) : σ :=
  (List.finRange n).foldl (fun s i => f i s) s

/-- What every visit keeps, the visits of any list of slots keep. -/
lemma foldl_preserves {P : σ → Prop} (hkeep : ∀ i s, P s → P (f i s)) (l : List (Fin n))
    (h : P s) : P (l.foldl (fun s i => f i s) s) := by
  induction l generalizing s with
  | nil => exact h
  | cons i l ih => exact ih (hkeep i s h)

lemma sweep_preserves {P : σ → Prop} (hkeep : ∀ i s, P s → P (f i s)) (h : P s) :
    P (sweep f s) := by
  rw [sweep]
  exact foldl_preserves hkeep _ h

/-- Under an invariant `I` of all visits: what the visit of `j` brings about and
the visits of later slots keep holds after the sweep. -/
lemma sweep_establishes_last {I P : σ → Prop} (j : Fin n) (hinit : I s)
    (hinv : ∀ i s, I s → I (f i s)) (hest : ∀ s, I s → P (f j s))
    (hkeep : ∀ i s, j < i → I s → P s → P (f i s)) : P (sweep f s) := by
  rw [sweep]
  obtain ⟨a, b, hab⟩ := append_of_mem (mem_finRange j)
  -- the slots are visited in order, so those left after `j` are above it
  have hlater : ∀ i ∈ b, j < i := by
    have hsorted := pairwise_lt_finRange n
    rw [hab] at hsorted
    exact (pairwise_cons.mp (pairwise_append.mp hsorted).2.1).1
  rw [hab, foldl_append, foldl_cons]
  have hI : ∀ l : List (Fin n), ∀ t, I t → I (l.foldl (fun s i => f i s) t) :=
    fun l _ ht => foldl_preserves hinv l ht
  have hP : ∀ t, I t → P t → P (b.foldl (fun s i => f i s) t) := by
    clear hab
    induction b with
    | nil => exact fun _ _ ht => ht
    | cons i b ih =>
      intro t hIt hPt
      have hji := hlater i (by simp)
      exact ih (fun x hx => hlater x (by simp [hx])) _ (hinv i t hIt) (hkeep i t hji hIt hPt)
  have hvisit := hI a s hinit
  exact hP _ (hinv j _ hvisit) (hest _ hvisit)

/-- What the visit of `j` brings about and every visit keeps holds after the
sweep. -/
lemma sweep_establishes {P : σ → Prop} (j : Fin n) (hest : ∀ s, P (f j s))
    (hkeep : ∀ i s, P s → P (f i s)) : P (sweep f s) :=
  sweep_establishes_last (I := fun _ => True) j trivial (fun _ _ _ => trivial)
    (fun s _ => hest s) (fun i s _ _ => hkeep i s)

/-- What relates a state to every visit of it, and composes, relates the first
state to the last. -/
lemma sweep_relates {R : σ → σ → Prop} (hrefl : ∀ s, R s s)
    (htrans : ∀ s t u, R s t → R t u → R s u) (hvisit : ∀ i s, R s (f i s)) : R s (sweep f s) :=
  sweep_preserves (fun i t h => htrans s t _ h (hvisit i t)) (hrefl s)

/-- A sweep whose visits are steps of a machine is a run of it. -/
lemma sweep_run {ι : Type v} {step : ι → σ → Option σ} (lab : Fin n → ι)
    (hstep : ∀ i s, step (lab i) s = some (f i s)) :
    Run step anyStep s ((List.finRange n).map lab) (sweep f s) := by
  rw [sweep]
  generalize List.finRange n = l
  induction l generalizing s with
  | nil => exact .nil
  | cons i l ih => exact Run.cons trivial (hstep i s) ih

end CshellXv6.Lib
