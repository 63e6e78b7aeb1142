import Mathlib.Tactic

/-! # Circular waits

Processes wait for one another through channels: a process that reads a
channel waits until nobody holds its writing side any more. This file says
when a set of processes is caught in such a wait, and gives the two rules that
decide it: a rank that falls from every reader to every writer excludes it,
and two processes that read from each other are caught.
-/

namespace CshellXv6.Lib

universe u v

variable {P : Type u} {K : Type v}

/-- A circular wait among `procs`: some processes are still alive, and each
process of a nonempty set `S` of them is blocked on a channel whose remaining
writers, of which there are some, all belong to `S`. `outside k` says that
the channel has a writer besides `procs`. -/
def CircularWait (procs : Set P) (reads : P → Option K) (writes : P → K → Prop)
    (outside : K → Prop) : Prop :=
  ∃ live S : Set P, live ⊆ procs ∧ S ⊆ live ∧ S.Nonempty ∧
    ∀ p ∈ S, ∃ k, reads p = some k ∧ ¬ outside k ∧ (∃ q ∈ live, writes q k) ∧
      ∀ q ∈ live, writes q k → q ∈ S

variable {procs : Set P} {reads : P → Option K} {writes : P → K → Prop} {outside : K → Prop}

/-- **No circular wait under a rank.** If every process that can write what
`p` reads has a smaller rank than `p`, there is no circular wait. -/
lemma not_circularWait_of_rank (rank : P → Nat)
    (h : ∀ p ∈ procs, ∀ k, reads p = some k → ∀ q ∈ procs, writes q k → rank q < rank p) :
    ¬ CircularWait procs reads writes outside := by
  rintro ⟨live, S, hlive, hS, ⟨p0, hp0⟩, hwait⟩
  -- descend from any member of `S` along the ranks
  induction hr : rank p0 using Nat.strong_induction_on generalizing p0 with
  | _ r ih =>
    rcases hwait p0 hp0 with ⟨k, hk, -, ⟨q, hq, hqk⟩, hall⟩
    have hlt : rank q < rank p0 := h p0 (hlive (hS hp0)) k hk q (hlive hq) hqk
    exact ih (rank q) (hr ▸ hlt) q (hall q hq hqk) rfl

/-- Two processes that read from each other are caught. -/
lemma circularWait_of_pair (p q : P) (k k' : K) (hp : p ∈ procs) (hq : q ∈ procs)
    (hpk : reads p = some k) (hqk : reads q = some k') (hqw : writes q k) (hpw : writes p k')
    (hk : ¬ outside k) (hk' : ¬ outside k') : CircularWait procs reads writes outside := by
  refine ⟨{p, q}, {p, q}, ?_, subset_rfl, ⟨p, .inl rfl⟩, ?_⟩
  · rintro x (rfl | rfl)
    · exact hp
    · exact hq
  rintro x (rfl | rfl)
  · exact ⟨k, hpk, hk, ⟨q, .inr rfl, hqw⟩, fun y hy _ => hy⟩
  · exact ⟨k', hqk, hk', ⟨p, .inl rfl, hpw⟩, fun y hy _ => hy⟩

end CshellXv6.Lib
