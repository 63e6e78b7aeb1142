import Mathlib.Tactic

/-! # Runs of a machine

A machine is a partial step function: `step l s = some s'` when the step with
label `l` is possible in `s` and leads to `s'`. Everything a proof needs about
runs is here: invariant induction, and replaying a list of labels, which turns
a concrete execution into a run by evaluation.
-/

namespace CshellXv6.Lib

open Option

universe u v

variable {σ : Type u} {ι : Type v}

/-- `Run step ok s0 ls s`: the labels `ls` lead from `s0` to `s`, and each of
them meets the condition `ok` in the state where it is taken. -/
inductive Run (step : ι → σ → Option σ) (ok : ι → σ → Prop) (s0 : σ) : List ι → σ → Prop where
  | nil : Run step ok s0 [] s0
  | snoc {ls : List ι} {s s' : σ} {l : ι} :
      Run step ok s0 ls s → ok l s → step l s = some s' → Run step ok s0 (ls ++ [l]) s'

/-- The condition of an unrestricted run. -/
def anyStep (_ : ι) (_ : σ) : Prop := True

instance (l : ι) (s : σ) : Decidable (anyStep l s) := inferInstanceAs (Decidable True)

variable {step : ι → σ → Option σ} {ok : ι → σ → Prop} {s0 s s' : σ} {ls : List ι} {l : ι}

/-- Invariant induction over a run. -/
lemma Run.invariant (inv : σ → Prop) (hinit : inv s0)
    (hstep : ∀ l s s', ok l s → step l s = some s' → inv s → inv s')
    (h : Run step ok s0 ls s) : inv s := by
  induction h with
  | nil => exact hinit
  | snoc _ hok hs ih => exact hstep _ _ _ hok hs ih

/-- A run that meets a condition meets every weaker one. -/
lemma Run.mono {ok' : ι → σ → Prop} (hok : ∀ l s, ok l s → ok' l s)
    (h : Run step ok s0 ls s) : Run step ok' s0 ls s := by
  induction h with
  | nil => exact .nil
  | snoc _ h1 hs ih => exact .snoc ih (hok _ _ h1) hs

/-- A run of a machine is a run of every machine that has its steps. -/
lemma Run.of_steps {step' : ι → σ → Option σ}
    (hstep : ∀ l s s', step l s = some s' → step' l s = some s')
    (h : Run step ok s0 ls s) : Run step' ok s0 ls s := by
  induction h with
  | nil => exact .nil
  | snoc _ hok hs ih => exact .snoc ih hok (hstep _ _ _ hs)

/-- A run may also grow at its front. -/
lemma Run.cons {s1 : σ} (hok : ok l s0) (hs : step l s0 = some s1)
    (h : Run step ok s1 ls s) : Run step ok s0 (l :: ls) s := by
  induction h with
  | nil => exact .snoc .nil hok hs
  | snoc _ h1 h2 ih => exact .snoc ih h1 h2

/-- Two runs one after the other. -/
lemma Run.append {s1 : σ} {ls' : List ι} (h : Run step ok s0 ls s1)
    (h' : Run step ok s1 ls' s) : Run step ok s0 (ls ++ ls') s := by
  induction h' with
  | nil => simpa using h
  | snoc _ hok hs ih =>
    rw [← List.append_assoc]
    exact .snoc ih hok hs

/-! ## Guards -/

/-- What a step with a guard says when it is taken. -/
lemma of_guard {c : Prop} [Decidable c] (h : (if c then some s else none) = some s') :
    c ∧ s = s' := by
  obtain ⟨hc, hs⟩ := ite_none_right_eq_some.mp h
  exact ⟨hc, Option.some.inj hs⟩

/-- The same for a step that is not possible under a condition. -/
lemma of_guard_not {c : Prop} [Decidable c] (h : (if c then none else some s) = some s') :
    ¬ c ∧ s = s' := by
  obtain ⟨hc, hs⟩ := ite_none_left_eq_some.mp h
  exact ⟨hc, Option.some.inj hs⟩

/-! ## Replaying labels -/

/-- Take the labels one after the other, checking the condition on the way. -/
def replay (step : ι → σ → Option σ) (ok : ι → σ → Prop) [∀ l s, Decidable (ok l s)] :
    List ι → σ → Option σ
  | [], s => some s
  | l :: ls, s => if ok l s then (step l s).bind (replay step ok ls) else none

/-- What can be replayed is a run. -/
lemma Run.of_replay [∀ l s, Decidable (ok l s)] (h : replay step ok ls s = some s') :
    Run step ok s ls s' := by
  induction ls generalizing s with
  | nil =>
    cases h
    exact .nil
  | cons l ls ih =>
    rw [replay] at h
    split at h
    next hok =>
      obtain ⟨s1, hs, h'⟩ := bind_eq_some_iff.mp h
      exact Run.cons hok hs (ih h')
    · cases h

lemma replay_snoc [∀ l s, Decidable (ok l s)] : replay step ok (ls ++ [l]) s =
    (replay step ok ls s).bind fun s' => if ok l s' then step l s' else none := by
  induction ls generalizing s with
  | nil =>
    simp only [List.nil_append, replay, bind_some]
    cases step l s <;> rfl
  | cons l' ls ih =>
    rw [List.cons_append, replay, replay]
    split
    · simp only [ih, bind_assoc]
    · rfl

/-- A run can be replayed. -/
lemma Run.replay [∀ l s, Decidable (ok l s)] (h : Run step ok s ls s') :
    replay step ok ls s = some s' := by
  induction h with
  | nil => rfl
  | snoc _ hok hs ih => rw [replay_snoc, ih, bind_some, if_pos hok, hs]

section

variable {P : σ → Prop} [DecidablePred P]

/-- Whether labels lead to a state that satisfies `P` is found out by replaying them. -/
instance [∀ l s, Decidable (ok l s)] : Decidable (∃ s', Run step ok s ls s' ∧ P s') := by
  refine decidable_of_iff ((replay step ok ls s).any (fun s' => P s') = true) ?_
  rw [any_eq_true]
  exact exists_congr fun s' =>
    and_congr ⟨Run.of_replay, Run.replay⟩ (decide_eq_true_iff (p := P s'))

instance decidableExistsSome (o : Option σ) : Decidable (∃ s, o = some s ∧ P s) := by
  refine decidable_of_iff (o.any (fun s => P s) = true) ?_
  rw [any_eq_true]
  exact exists_congr fun s => and_congr_right' decide_eq_true_iff

end

/-- What follows from what has been replayed. -/
lemma Run.exists_imp {P Q : σ → Prop} (h : ∃ s', Run step ok s ls s' ∧ P s')
    (hQ : ∀ s', Run step ok s ls s' → P s' → Q s') : ∃ s', Run step ok s ls s' ∧ Q s' :=
  h.imp fun s' hs' => ⟨hs'.1, hQ s' hs'.1 hs'.2⟩

end CshellXv6.Lib
