import CshellXv6.Lib.Sweep

/-! # Programs that take locks

A program is a tree of the instructions that matter between several CPUs:
taking a lock, giving one back, and accessing the memory they share. The CPUs
run programs at the same time, one instruction of one CPU after the other, and
a CPU that wants a lock which is held stops there.

If every program takes its locks in the order of their ranks, no CPUs ever wait
for one another in a circle. The rules for showing this of a program follow its
structure, like those for pre- and postconditions: what is kept track of is the
set of locks that its CPU holds.
-/

namespace CshellXv6.Lib

open List

/-- A program over the locks `Λ` and the memory `σ`. An access changes the memory,
and the rest of the program may depend on what it was. -/
inductive Prog (Λ σ α : Type) where
  | ret (a : α)
  | acquire (l : Λ) (rest : Prog Λ σ α)
  | release (l : Λ) (rest : Prog Λ σ α)
  | access (f : σ → σ) (rest : σ → Prog Λ σ α)

namespace Prog

variable {Λ σ α β : Type}

protected def bind : Prog Λ σ α → (α → Prog Λ σ β) → Prog Λ σ β
  | .ret a, g => g a
  | .acquire l p, g => .acquire l (p.bind g)
  | .release l p, g => .release l (p.bind g)
  | .access f p, g => .access f fun s => (p s).bind g

instance : Monad (Prog Λ σ) where
  pure := .ret
  bind := Prog.bind

/-- Take a lock. -/
def take (l : Λ) : Prog Λ σ Unit := .acquire l (.ret ())

/-- Give a lock back. -/
def give (l : Λ) : Prog Λ σ Unit := .release l (.ret ())

/-- Read the memory. -/
def load : Prog Λ σ σ := .access id .ret

/-- Change the memory. -/
def store (f : σ → σ) : Prog Λ σ Unit := .access f fun _ => .ret ()

/-- Do something under a lock. -/
def withLock (l : Λ) (p : Prog Λ σ α) : Prog Λ σ α := do
  take l
  let a ← p
  give l
  pure a

/-- Search a list with a program, up to the first element for which it has an
answer. -/
def search (f : β → Prog Λ σ (Option α)) : List β → Prog Λ σ (Option α)
  | [] => pure none
  | b :: bs => do
      match ← f b with
      | some a => pure (some a)
      | none => search f bs

/-- Do something for each element of a list. -/
def each (f : β → Prog Λ σ Unit) : List β → Prog Λ σ Unit
  | [] => pure ()
  | b :: bs => do
      f b
      each f bs

/-! ## A program that runs alone -/

/-- What a program does if all locks are free and nobody else accesses the
memory. -/
def exec : Prog Λ σ α → σ → α × σ
  | .ret a, s => (a, s)
  | .acquire _ p, s => p.exec s
  | .release _ p, s => p.exec s
  | .access f p, s => (p s).exec (f s)

section

variable (l : Λ) (s : σ) (p : Prog Λ σ α) (g : α → Prog Λ σ β)

@[simp] lemma exec_pure (a : α) : (pure a : Prog Λ σ α).exec s = (a, s) := rfl

@[simp] lemma exec_take : (take l : Prog Λ σ Unit).exec s = ((), s) := rfl

@[simp] lemma exec_give : (give l : Prog Λ σ Unit).exec s = ((), s) := rfl

@[simp] lemma exec_load : (load : Prog Λ σ σ).exec s = (s, s) := rfl

@[simp] lemma exec_store (f : σ → σ) : (store f : Prog Λ σ Unit).exec s = ((), f s) := rfl

@[simp] lemma exec_bind : (p >>= g).exec s = (g (p.exec s).1).exec (p.exec s).2 := by
  show (p.bind g).exec s = _
  induction p generalizing s with
  | ret a => rfl
  | acquire l p ih | release l p ih => exact ih s
  | access f p ih => exact ih s (f s)

@[simp] lemma exec_withLock : (withLock l p).exec s = p.exec s := by
  simp [withLock]

/-- A loop over all slots of a table is a sweep. -/
lemma exec_each {n : ℕ} (f : Fin n → Prog Λ σ Unit) :
    (each f (List.finRange n)).exec s = ((), sweep (fun i s => ((f i).exec s).2) s) := by
  rw [sweep]
  generalize List.finRange n = is
  induction is generalizing s with
  | nil => rfl
  | cons i is ih =>
    rw [each, exec_bind, ih]
    rfl

end

/-! ## Taking locks in order -/

/-- Started with the locks `held`, the program takes only locks that rank above all
those it holds at that moment, gives back only locks that it holds, and ends
with a result and a set of locks that satisfy `post`. -/
def Orderly (rank : Λ → ℕ) (post : α → Set Λ → Prop) : Prog Λ σ α → Set Λ → Prop
  | .ret a, held => post a held
  | .acquire l p, held => (∀ m ∈ held, rank m < rank l) ∧ p.Orderly rank post (insert l held)
  | .release l p, held => l ∈ held ∧ p.Orderly rank post (held \ {l})
  | .access _ p, held => ∀ s, (p s).Orderly rank post held

/-- The program ends with the locks it started with. -/
def Restores (rank : Λ → ℕ) (p : Prog Λ σ α) (held : Set Λ) : Prop :=
  p.Orderly rank (fun _ h => h = held) held

variable {rank : Λ → ℕ} {held : Set Λ} {l : Λ} {p : Prog Λ σ α} {g : α → Prog Λ σ β}
  {post : α → Set Λ → Prop} {post' : β → Set Λ → Prop}

lemma Orderly.bind (hp : p.Orderly rank post held)
    (hg : ∀ a h, post a h → (g a).Orderly rank post' h) : (p >>= g).Orderly rank post' held := by
  show (p.bind g).Orderly rank post' held
  induction p generalizing held with
  | ret a => exact hg a held hp
  | acquire l p ih | release l p ih => exact ⟨hp.1, ih hp.2⟩
  | access f p ih => exact fun s => ih s (hp s)

lemma Orderly.weaken {post' : α → Set Λ → Prop} (hp : p.Orderly rank post held)
    (h : ∀ a held, post a held → post' a held) : p.Orderly rank post' held := by
  induction p generalizing held with
  | ret a => exact h a held hp
  | acquire l p ih | release l p ih => exact ⟨hp.1, ih hp.2⟩
  | access f p ih => exact fun s => ih s (hp s)

lemma orderly_take (h : ∀ m ∈ held, rank m < rank l) :
    (take l : Prog Λ σ Unit).Orderly rank (fun _ h => h = insert l held) held :=
  ⟨h, rfl⟩

lemma orderly_give (h : l ∈ held) :
    (give l : Prog Λ σ Unit).Orderly rank (fun _ h => h = held \ {l}) held :=
  ⟨h, rfl⟩

lemma restores_pure (a : α) : (pure a : Prog Λ σ α).Restores rank held := rfl

lemma restores_load : (load : Prog Λ σ σ).Restores rank held := fun _ => rfl

lemma restores_store (f : σ → σ) : (store f : Prog Λ σ Unit).Restores rank held := fun _ => rfl

lemma Restores.bind (hp : p.Restores rank held)
    (hg : ∀ a, (g a).Orderly rank post' held) : (p >>= g).Orderly rank post' held := by
  refine Orderly.bind hp ?_
  rintro a h rfl
  exact hg a

/-- What is done under a lock may take locks that rank above it. -/
lemma Restores.withLock (hl : ∀ m ∈ held, rank m < rank l)
    (hp : p.Restores rank (insert l held)) : (withLock l p).Restores rank held := by
  have hnot : l ∉ held := fun hmem => lt_irrefl _ (hl l hmem)
  refine Orderly.bind (orderly_take hl) ?_
  rintro - h rfl
  refine Restores.bind hp ?_
  intro a
  refine Orderly.bind (orderly_give (Set.mem_insert l held)) ?_
  rintro - h rfl
  rw [Set.insert_sdiff_self_of_notMem hnot]
  exact restores_pure a

lemma Restores.each {f : β → Prog Λ σ Unit} (hf : ∀ b, (f b).Restores rank held)
    (bs : List β) : (each f bs).Restores rank held := by
  induction bs with
  | nil => exact restores_pure ()
  | cons b bs ih => exact Restores.bind (hf b) (fun _ => ih)

/-- A search in which an element without an answer leaves the locks as they were. -/
lemma Orderly.search {f : β → Prog Λ σ (Option α)} {post : Option α → Set Λ → Prop}
    (hf : ∀ b, (f b).Orderly rank (fun r h => r = none ∧ h = held ∨ r ≠ none ∧ post r h) held)
    (hnone : post none held) (bs : List β) : (search f bs).Orderly rank post held := by
  induction bs with
  | nil => exact hnone
  | cons b bs ih =>
    refine Orderly.bind (hf b) ?_
    rintro r h (⟨rfl, rfl⟩ | ⟨hne, hpost⟩)
    · exact ih
    cases r with
    | none => exact absurd rfl hne
    | some a => exact hpost

/-- A loop with an accumulator, under an invariant that may speak about the elements
still to come. -/
lemma Orderly.foldlM {f : α → β → Prog Λ σ α} {I : List β → α → Set Λ → Prop}
    (hf : ∀ b bs a h, I (b :: bs) a h → (f a b).Orderly rank (I bs) h) {bs : List β} {a : α}
    (h : I bs a held) : (bs.foldlM f a).Orderly rank (I []) held := by
  induction bs generalizing a held with
  | nil => exact h
  | cons b bs ih =>
    rw [foldlM_cons]
    exact Orderly.bind (hf b bs a held h) (fun a' h' hI => ih hI)

lemma Restores.foldlM {f : α → β → Prog Λ σ α} (hf : ∀ a b, (f a b).Restores rank held)
    (bs : List β) (a : α) : (bs.foldlM f a).Restores rank held := by
  refine Orderly.foldlM (I := fun _ _ h => h = held) ?_ rfl
  rintro b bs a h rfl
  exact hf a b

/-- The lock that the next instruction takes. -/
def wants {α : Type} : Prog Λ σ α → Option Λ
  | .acquire l _ => some l
  | _ => none

lemma Orderly.wants_above
    (h : p.Orderly rank post held) (hl : p.wants = some l) : ∀ m ∈ held, rank m < rank l := by
  cases p with
  | acquire l' p =>
    cases hl
    exact h.1
  | _ => cases hl

end Prog

/-! ## CPUs that run programs -/

/-- Who holds each lock, what each CPU has still to do, what has been put off, and
the memory. -/
structure Threads (C Λ σ : Type) where
  owner : Λ → Option C
  code : C → Prog Λ σ Unit
  parked : List (Prog Λ σ Unit)
  mem : σ

inductive ThreadEvent (C ι : Type) where
  | start (c : C) (i : ι)
  | next (c : C)
  | park (c : C)
  | resume (c : C) (n : ℕ)

namespace Threads

variable {C Λ σ ι : Type}

/-- All locks are free, and there is nothing to do. -/
def init (m : σ) : Threads C Λ σ := ⟨fun _ => none, fun _ => .ret (), [], m⟩

/-- The CPU `c` waits for a lock that `d` holds. -/
def WaitsFor (s : Threads C Λ σ) (c d : C) : Prop :=
  ∃ l ∈ (s.code c).wants, s.owner l = some d

instance [DecidableEq C] (s : Threads C Λ σ) (c d : C) : Decidable (s.WaitsFor c d) := by
  unfold WaitsFor
  infer_instance

/-- The locks that a CPU holds. -/
def heldBy (s : Threads C Λ σ) (c : C) : Set Λ := { l | s.owner l = some c }

/-- Everything that is still to be done is orderly, and ends without locks. -/
structure Sound (rank : Λ → ℕ) (s : Threads C Λ σ) : Prop where
  code : ∀ c, (s.code c).Orderly rank (fun _ h => h = ∅) (s.heldBy c)
  parked : ∀ p ∈ s.parked, p.Restores rank ∅

section

variable {rank : Λ → ℕ} {s s' : Threads C Λ σ} {c d : C}

lemma Sound.init (m : σ) : (Threads.init m : Threads C Λ σ).Sound rank := by
  constructor
  · intro c
    show { l | (none : Option C) = some c } = (∅ : Set Λ)
    simp
  · intro p hp
    cases hp

/-- One CPU goes on, and the others keep their locks and their code. -/
lemma Sound.update [DecidableEq C] {p : Prog Λ σ Unit} (h : s.Sound rank)
    (hcode : s'.code = Function.update s.code c p) (hheld : ∀ d, d ≠ c → s'.heldBy d = s.heldBy d)
    (hp : p.Orderly rank (fun _ h => h = ∅) (s'.heldBy c))
    (hparked : ∀ q ∈ s'.parked, q ∈ s.parked ∨ q.Restores rank ∅) : s'.Sound rank := by
  constructor
  · intro d
    by_cases hdc : d = c
    · subst hdc
      rw [hcode, Function.update_self]
      exact hp
    · rw [hcode, Function.update_of_ne hdc, hheld d hdc]
      exact h.code d
  · intro q hq
    rcases hparked q hq with hold | hnew
    · exact h.parked q hold
    · exact hnew

/-- A CPU without work has no locks. -/
lemma Sound.heldBy_of_ret {a : Unit} (h : s.Sound rank) (hc : s.code c = .ret a) :
    s.heldBy c = ∅ := by
  have hempty := h.code c
  rw [hc] at hempty
  exact hempty

lemma heldBy_acquired [DecidableEq Λ] {l : Λ} (hfree : s.owner l = none)
    (howner : s'.owner = Function.update s.owner l (some c)) :
    s'.heldBy c = insert l (s.heldBy c) ∧ ∀ d, d ≠ c → s'.heldBy d = s.heldBy d := by
  constructor
  · ext x
    by_cases hx : x = l
    all_goals simp [heldBy, howner, hx]
  intro d hdc
  ext x
  by_cases hx : x = l
  · simp [heldBy, howner, hx, hfree, hdc.symm]
  · simp [heldBy, howner, hx]

lemma heldBy_released [DecidableEq Λ] {l : Λ} (hheld : s.owner l = some c)
    (howner : s'.owner = Function.update s.owner l none) :
    s'.heldBy c = s.heldBy c \ {l} ∧ ∀ d, d ≠ c → s'.heldBy d = s.heldBy d := by
  constructor
  · ext x
    by_cases hx : x = l
    all_goals simp [heldBy, howner, hx]
  intro d hdc
  ext x
  by_cases hx : x = l
  · simp [heldBy, howner, hx, hheld, hdc.symm]
  · simp [heldBy, howner, hx]

/-- Along a chain of waiting CPUs the ranks of the locks they want go up. -/
lemma Sound.rank_lt (h : s.Sound rank) {l m : Λ} (hwait : Relation.TransGen s.WaitsFor c d)
    (hc : (s.code c).wants = some l) (hd : (s.code d).wants = some m) : rank l < rank m := by
  -- a CPU wants a lock that ranks above the one another CPU wants from it
  have hone : ∀ {c d l m}, s.WaitsFor c d → (s.code c).wants = some l →
      (s.code d).wants = some m → rank l < rank m := by
    rintro c d l m ⟨l', hl', howner⟩ hc hd
    rw [Option.mem_def, hc] at hl'
    cases hl'
    exact (h.code d).wants_above hd l howner
  induction hwait generalizing m with
  | single hcd => exact hone hcd hc hd
  | tail _ hde ih =>
    obtain ⟨l', hl', howner⟩ := hde
    exact (ih hl').trans (hone ⟨l', hl', howner⟩ hl' hd)

/-- No CPUs wait for one another in a circle. -/
lemma Sound.not_circular (h : s.Sound rank) : ¬ Relation.TransGen s.WaitsFor c c := by
  intro hcycle
  obtain ⟨d, ⟨l, hl, -⟩, -⟩ := Relation.TransGen.head'_iff.mp hcycle
  exact lt_irrefl _ (h.rank_lt hcycle hl hl)

end

variable [DecidableEq C] [DecidableEq Λ] [Fintype Λ]

/-- A CPU without work starts a program, or takes up one that has been put off; a CPU
executes its next instruction, where a lock is taken when nobody holds it; and
a CPU that holds no locks is interrupted and puts off what it is doing. -/
def step (programs : C → ι → Prog Λ σ Unit) (e : ThreadEvent C ι) (s : Threads C Λ σ) :
    Option (Threads C Λ σ) :=
  match e with
  | .start c i =>
    match s.code c with
    | .ret _ => some { s with code := Function.update s.code c (programs c i) }
    | _ => none
  | .resume c n =>
    match s.code c, s.parked[n]? with
    | .ret _, some p =>
      some { s with
        code := Function.update s.code c p
        parked := s.parked.eraseIdx n }
    | _, _ => none
  | .park c =>
    if ∀ l, s.owner l ≠ some c then
      some { s with
        code := Function.update s.code c (.ret ())
        parked := s.code c :: s.parked }
    else none
  | .next c =>
    match s.code c with
    | .ret _ => none
    | .acquire l p =>
      if s.owner l = none then
        some { s with
          owner := Function.update s.owner l (some c)
          code := Function.update s.code c p }
      else none
    | .release l p =>
      if s.owner l = some c then
        some { s with
          owner := Function.update s.owner l none
          code := Function.update s.code c p }
      else none
    | .access f p =>
      some { s with
        code := Function.update s.code c (p s.mem)
        mem := f s.mem }

variable {programs : C → ι → Prog Λ σ Unit} {rank : Λ → ℕ} {s s' : Threads C Λ σ} {c : C}

lemma Sound.start (h : s.Sound rank) {i : ι} (hprog : (programs c i).Restores rank ∅)
    (hs : step programs (.start c i) s = some s') : s'.Sound rank := by
  simp only [Threads.step] at hs
  split at hs
  next a hcode =>
    cases hs
    refine h.update (c := c) rfl (fun d _ => rfl) ?_ (fun q hq => .inl hq)
    show (programs c i).Orderly rank (fun _ h => h = ∅) (s.heldBy c)
    rw [h.heldBy_of_ret hcode]
    exact hprog
  · cases hs

lemma Sound.resume (h : s.Sound rank) {n : ℕ}
    (hs : step programs (.resume c n) s = some s') : s'.Sound rank := by
  simp only [Threads.step] at hs
  split at hs
  next a p hcode hp =>
    cases hs
    refine h.update (c := c) rfl (fun d _ => rfl) ?_ ?_
    · show p.Orderly rank (fun _ h => h = ∅) (s.heldBy c)
      rw [h.heldBy_of_ret hcode]
      exact h.parked p (mem_of_getElem? hp)
    · intro q hq
      exact .inl (mem_of_mem_eraseIdx hq)
  · cases hs

lemma Sound.park (h : s.Sound rank) (hs : step programs (.park c) s = some s') : s'.Sound rank := by
  obtain ⟨hfree, rfl⟩ := of_guard hs
  have hnone : s.heldBy c = ∅ := Set.eq_empty_iff_forall_notMem.mpr hfree
  refine h.update (c := c) rfl (fun d _ => rfl) hnone ?_
  intro q hq
  rcases mem_cons.mp hq with rfl | hq
  · right
    have hcode := h.code c
    rw [hnone] at hcode
    exact hcode
  · exact .inl hq

lemma Sound.next (h : s.Sound rank) (hs : step programs (.next c) s = some s') : s'.Sound rank := by
  have hsound := h.code c
  simp only [Threads.step] at hs
  split at hs
  · cases hs
  next l p hcode =>
    obtain ⟨hfree, hs'⟩ := of_guard hs
    have howner : s'.owner = Function.update s.owner l (some c) := by rw [← hs']
    obtain ⟨hself, hother⟩ := heldBy_acquired hfree howner
    rw [hcode] at hsound
    have hrest := hsound.2
    rw [← hself] at hrest
    exact h.update (by rw [← hs']) hother hrest (by rw [← hs']; exact fun q hq => .inl hq)
  next l p hcode =>
    obtain ⟨hheld, hs'⟩ := of_guard hs
    have howner : s'.owner = Function.update s.owner l none := by rw [← hs']
    obtain ⟨hself, hother⟩ := heldBy_released hheld howner
    rw [hcode] at hsound
    have hrest := hsound.2
    rw [← hself] at hrest
    exact h.update (by rw [← hs']) hother hrest (by rw [← hs']; exact fun q hq => .inl hq)
  next f p hcode =>
    cases hs
    rw [hcode] at hsound
    exact h.update (c := c) rfl (fun d _ => rfl) (hsound s.mem) (fun q hq => .inl hq)

/-- **Locks in order exclude circular waits.** If every program starts and ends
without locks and takes them in the order of their ranks, then however the CPUs
are interleaved, none of them ever waits for itself through others. -/
lemma not_circular_of_run (hprog : ∀ c i, (programs c i).Restores rank ∅) {m : σ}
    {es : List (ThreadEvent C ι)} (hrun : Run (step programs) anyStep (Threads.init m) es s)
    (c : C) : ¬ Relation.TransGen s.WaitsFor c c := by
  have hsound : s.Sound rank := by
    refine hrun.invariant (Sound rank) (Sound.init m) ?_
    intro e t t' _ hs ht
    cases e with
    | start c i => exact ht.start (hprog c i) hs
    | next c => exact ht.next hs
    | park c => exact ht.park hs
    | resume c n => exact ht.resume hs
  exact hsound.not_circular

end Threads

end CshellXv6.Lib
