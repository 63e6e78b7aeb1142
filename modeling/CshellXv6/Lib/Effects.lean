import Mathlib.Tactic

/-! # Programs with a state and panics

Kernel code changes a state, returns a value, or panics. A program meets a
postcondition from a state if it returns, with a value and a state for which the
postcondition holds; there may be panics that are allowed for. The rules follow
the program: one for each way to put programs together.
-/

namespace CshellXv6.Lib

universe u v

variable {σ α β : Type u} {ε : Type v}

/-- From state `s`, the program returns a value and a state that satisfy `post`, or
ends in a panic that is `allowed`. -/
def Meets (allowed : ε → Prop) (prog : StateT σ (Except ε) α) (s : σ) (post : α → σ → Prop) :
    Prop :=
  match prog.run s with
  | .ok (a, s') => post a s'
  | .error e => allowed e

variable {allowed : ε → Prop} {prog : StateT σ (Except ε) α} {s : σ} {post post' : α → σ → Prop}

lemma Meets.mono (h : Meets allowed prog s post') (himp : ∀ a s', post' a s' → post a s') :
    Meets allowed prog s post := by
  unfold Meets at h ⊢
  split at h
  · exact himp _ _ h
  · exact h

lemma meets_pure {a : α} (h : post a s) : Meets allowed (pure a) s post := h

/-- A program and then another one. -/
lemma Meets.bind {next : α → StateT σ (Except ε) β} {postNext : β → σ → Prop}
    (h : Meets allowed prog s post) (hnext : ∀ a s', post a s' → Meets allowed (next a) s' postNext)
    : Meets allowed (prog >>= next) s postNext := by
  unfold Meets at h ⊢
  rw [StateT.run_bind]
  cases hrun : prog.run s with
  | error e =>
    rw [hrun] at h
    exact h
  | ok r =>
    rw [hrun] at h
    exact hnext r.1 r.2 h

lemma meets_get {next : σ → StateT σ (Except ε) β} {postNext : β → σ → Prop}
    (h : Meets allowed (next s) s postNext) : Meets allowed (get >>= next) s postNext := h

lemma meets_set {s' : σ} {next : PUnit → StateT σ (Except ε) β} {postNext : β → σ → Prop}
    (h : Meets allowed (next ⟨⟩) s' postNext) : Meets allowed (set s' >>= next) s postNext := h

/-- What the postcondition says of a program that has returned. -/
lemma Meets.of_run {a : α} {s' : σ} (h : Meets allowed prog s post)
    (hrun : prog.run s = .ok (a, s')) : post a s' := by
  unfold Meets at h
  rw [hrun] at h
  exact h

end CshellXv6.Lib
