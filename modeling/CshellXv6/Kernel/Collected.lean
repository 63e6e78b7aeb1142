import CshellXv6.Kernel.Family

/-! # Every exit is collected once

Of a slot, fork, exit and wait only care about its kind (free, being created,
active, or a zombie with its pid and status) and its parent. `Lineage` is the
invariant of these two: whoever is a parent is active, and if it is on its way
out, `reparent` has not yet passed the child. `Ledger` relates the zombies to
the lists of exits and waits.
-/

namespace CshellXv6.Kernel.Family

open Lib List

/-- What fork, exit and wait see of a slot's state. -/
inductive Kind where
  | free
  | embryo
  | active
  | zombie (pid status : Int)
deriving DecidableEq, Repr

def kindOf (p : Proc) : Kind :=
  match p.state with
  | .unused => .free
  | .used => .embryo
  | .sleeping | .runnable | .running => .active
  | .zombie => .zombie p.pid p.xstate

def State.kind (s : State) (i : Slot) : Kind := kindOf (s.k.proc i)

def State.parent (s : State) (i : Slot) : Option Slot := (s.k.proc i).parent

/-- The process holds `wait_lock` there. -/
def Pc.holds : Pc → Bool
  | .exiting _ _ | .scanning _ _ | .registered => true
  | .idle | .forking _ | .adopted _ | .drowsy | .awake => false

/-- The process is creating `i` there. -/
def Pc.creates (pc : Pc) (i : Slot) : Prop := pc = .forking i ∨ pc = .adopted i

/-- Parents and children. -/
structure Lineage (s : State) : Prop where
  lock : ∀ p, (s.pc p).holds = true → s.waitLock = some p
  active : ∀ p, s.pc p ≠ .idle → s.kind p = .active
  free : ∀ i, s.kind i = .free → s.parent i = none
  forking : ∀ p i, s.pc p = .forking i → s.kind i = .embryo
  adopted : ∀ p i, s.pc p = .adopted i → s.kind i = .embryo ∧ s.parent i = some p
  sole : ∀ p q i, (s.pc p).creates i → (s.pc q).creates i → p = q
  parent : ∀ i q, s.parent i = some q →
    s.kind q = .active ∧ ∀ status next, s.pc q = .exiting status next → next ≤ i.val
  child : ∀ i, i ≠ initproc → s.kind i ≠ .free → s.kind i ≠ .embryo → s.parent i ≠ none
  init : s.kind initproc = .active ∧ ∀ status next, s.pc initproc ≠ .exiting status next

/-! ## Steps of other functions -/

section

variable {pol : Policy} {k k' : KernelState} {l : Kernel.Label} {s s' : State} {p q : Proc}
  {status pid : Int} {i : Slot} {pc : Pc} {kind : Kind} {parent : Option Slot} {f : Proc → Proc}
  {c : CpuId}

lemma kindOf_active (h : p.state = .sleeping ∨ p.state = .runnable ∨ p.state = .running) :
    kindOf p = .active := by
  rcases h with h | h | h
  all_goals simp [kindOf, h]

lemma kindOf_eq_free : kindOf p = .free ↔ p.state = .unused := by
  unfold kindOf
  split <;> simp_all

lemma kindOf_eq_embryo : kindOf p = .embryo ↔ p.state = .used := by
  unfold kindOf
  split <;> simp_all

lemma kindOf_eq_zombie : kindOf p = .zombie pid status ↔
    p.state = .zombie ∧ p.pid = pid ∧ p.xstate = status := by
  unfold kindOf
  split <;> simp_all

lemma live_of_active (h : kindOf p = .active) : p.live := by
  unfold kindOf at h
  constructor
  all_goals
    intro hs
    rw [hs] at h
    cases h

lemma kindOf_congr (hs : q.state = p.state) (hpid : q.pid = p.pid)
    (hx : q.xstate = p.xstate) : kindOf q = kindOf p := by
  simp [kindOf, hs, hpid, hx]

/-- Kind and parent of every slot stay. -/
def SameFamily (k k' : KernelState) : Prop :=
  ∀ i, kindOf (k'.proc i) = kindOf (k.proc i) ∧ (k'.proc i).parent = (k.proc i).parent

lemma SameFamily.of_slot (hother : ∀ j, j ≠ i → k'.proc j = k.proc j)
    (hkind : kindOf (k'.proc i) = kindOf (k.proc i))
    (hparent : (k'.proc i).parent = (k.proc i).parent) : SameFamily k k' :=
  forall_of_slot (P := fun j p => kindOf p = kindOf (k.proc j) ∧ p.parent = (k.proc j).parent)
    hother (fun _ => ⟨rfl, rfl⟩) ⟨hkind, hparent⟩

lemma SameFamily.modify (hkind : kindOf (f (k.proc i)) = kindOf (k.proc i))
    (hparent : (f (k.proc i)).parent = (k.proc i).parent) : SameFamily k (k.modify i f) := by
  refine SameFamily.of_slot (i := i) (fun j hj => modify_proc_of_ne k f hj) ?_ ?_
  · rw [modify_proc_self]
    exact hkind
  · rw [modify_proc_self]
    exact hparent

lemma SameFamily.sleep (hrun : (k.proc i).state = .running) :
    SameFamily k ((k.modify i fun p => { p with state := .sleeping }).vacate c) := by
  have h : SameFamily k (k.modify i fun p => { p with state := .sleeping }) := by
    refine SameFamily.modify ?_ rfl
    rw [kindOf_active (by simp), kindOf_active (by simp [hrun])]
  exact h

/-- The other functions of the kernel leave kinds and parents alone. -/
lemma SameFamily.of_move (hseat : Seated k) (henv : isEnvironment l = true)
    (hm : Kernel.Move pol k l k') : SameFamily k k' := by
  intro j
  have he := hm.effect j
  generalize k'.proc j = p at he ⊢
  -- who is in use stays in use
  have hactive : ∀ {st}, (k.proc j).state = st → st = .sleeping ∨ st = .runnable ∨ st = .running →
      p.state = .sleeping ∨ p.state = .runnable ∨ p.state = .running →
      kindOf p = kindOf (k.proc j) := by
    rintro st rfl h h'
    rw [kindOf_active h, kindOf_active h']
  cases he with
  | same | charge | boost _ | clear _ | sleepPrepare _ _ | setkilled _ => exact ⟨rfl, rfl⟩
  | dispatch hs | wake hs => exact ⟨hactive hs (by simp) (by simp), rfl⟩
  | yield hon _ | sleep hon _ => exact ⟨hactive (hseat.running hon) (by simp) (by simp), rfl⟩
  | kkill _ =>
    by_cases hs : (k.proc j).state = .sleeping
    · exact ⟨hactive hs (by simp) (by simp [killProc, hs]), rfl⟩
    · exact ⟨kindOf_congr (by simp [killProc, hs]) rfl rfl, rfl⟩
  | allocproc _ | allocFail _ | setParent _ | ready _ | reparent | exit _ | collect _ => cases henv

/-! ## One slot or one program counter changes -/

/-- Only the program counter of `p` and the lock change. -/
lemma Lineage.goto {p : Slot} (h : Lineage s) (hsame : SameFamily s.k s'.k)
    (hpc : s'.pc = Function.update s.pc p pc) (hp : s.kind p = .active)
    (hlock : pc.holds = true → s'.waitLock = some p)
    (hothers : ∀ q, q ≠ p → (s.pc q).holds = true → s'.waitLock = some q)
    (hcreates : ∀ i, ¬ pc.creates i)
    (hexit : ∀ status next, pc = .exiting status next →
      p ≠ initproc ∧ ∀ i, s.parent i = some p → next ≤ i.val) : Lineage s' := by
  have hkind : s'.kind = s.kind := funext fun i => (hsame i).1
  have hparent : s'.parent = s.parent := funext fun i => (hsame i).2
  have hat : s'.pc p = pc := by rw [hpc, Function.update_self]
  have hne : ∀ q, q ≠ p → s'.pc q = s.pc q := fun q hq => by
    rw [hpc, Function.update_of_ne hq]
  obtain ⟨h1, h2, h3, h4, h5, h6, h7, h8, h9⟩ := h
  constructor
  all_goals simp only [hkind, hparent, Pc.creates] at *
  all_goals grind

/-- Neither kinds and parents nor program counters change. -/
lemma Lineage.of_same (h : Lineage s) (hsame : SameFamily s.k s'.k) (hpc : s'.pc = s.pc)
    (hlock : s'.waitLock = s.waitLock) : Lineage s' := by
  have hkind : s'.kind = s.kind := funext fun i => (hsame i).1
  have hparent : s'.parent = s.parent := funext fun i => (hsame i).2
  obtain ⟨h1, h2, h3, h4, h5, h6, h7, h8, h9⟩ := h
  constructor
  all_goals simpa only [hkind, hparent, hpc, hlock]

/-- Slot `i` has a new kind and a new parent; the other slots keep theirs. -/
structure Becomes (s s' : State) (i : Slot) (kind : Kind) (parent : Option Slot) : Prop where
  kind : s'.kind = Function.update s.kind i kind
  parent : s'.parent = Function.update s.parent i parent

lemma Becomes.of_slot (hother : ∀ j, j ≠ i → s'.k.proc j = s.k.proc j) (hkind : s'.kind i = kind)
    (hparent : s'.parent i = parent) : Becomes s s' i kind parent := by
  constructor
  · funext j
    by_cases hj : j = i
    · subst hj
      rw [Function.update_self, hkind]
    · rw [Function.update_of_ne hj, State.kind, State.kind, hother j hj]
  funext j
  by_cases hj : j = i
  · subst hj
    rw [Function.update_self, hparent]
  · rw [Function.update_of_ne hj, State.parent, State.parent, hother j hj]

lemma Becomes.modify (hk : s'.k.proc = (s.k.modify i f).proc)
    (hkind : kindOf (f (s.k.proc i)) = kind) (hparent : (f (s.k.proc i)).parent = parent) :
    Becomes s s' i kind parent := by
  refine Becomes.of_slot (fun j hj => ?_) ?_ ?_
  · rw [hk, modify_proc_of_ne _ _ hj]
  · rw [State.kind, hk, modify_proc_self, hkind]
  · rw [State.parent, hk, modify_proc_self, hparent]

/-- The exits and the waits so far. -/
structure Books where
  exits : List (Int × Int)
  waits : List Receipt
  serial : Slot → Nat

def State.books (s : State) : Books := ⟨s.exits, s.waits, s.serial⟩

/-- What a step of a process `p` makes of a slot, where `p` goes on, who has `wait_lock` then,
and what becomes of the books. -/
inductive Change (s : State) (p : Slot) :
    Slot → Kind → Option Slot → Pc → Option Slot → Books → Prop where
  /-- `kfork` takes a free slot, which has no parent. -/
  | fork {i : Slot} (free : s.kind i = .free) (active : s.kind p = .active) :
      Change s p i .embryo none (.forking i) s.waitLock s.books
  /-- The new parent is not on its way out. -/
  | adopt {i : Slot} (here : s.pc p = .forking i) (embryo : s.kind i = .embryo) :
      Change s p i .embryo (some p) (.adopted i) s.waitLock s.books
  | forkReady {i : Slot} (here : s.pc p = .adopted i) (embryo : s.kind i = .embryo) :
      Change s p i .active (s.parent i) .idle s.waitLock s.books
  /-- A child that `reparent` passes goes to init, which never exits. -/
  | reparent {i : Slot} {status : Int} (here : s.pc p = .exiting status i.val)
      (child : s.parent i = some p) :
      Change s p i (s.kind i) (some initproc) (.exiting status (i.val + 1)) s.waitLock s.books
  /-- An exit gets the next number. -/
  | zombie {pid status : Int} (here : s.pc p = .exiting status 64) (active : s.kind p = .active) :
      Change s p p (.zombie pid status) (s.parent p) .idle none
        ⟨s.exits ++ [(pid, status)], s.waits, Function.update s.serial p s.exits.length⟩
  /-- A zombie is nobody's parent, so its slot can be freed. -/
  | collect {i : Slot} {havekids : Bool} {r : Receipt}
      (here : s.pc p = .scanning havekids i.val) (ended : s.kind i = .zombie r.pid r.status)
      (serial : r.serial = s.serial i) (parent : r.parent = some r.waiter) :
      Change s p i .free none .idle none ⟨s.exits, s.waits ++ [r], s.serial⟩

variable {books : Books} {lock : Option Slot}

lemma Lineage.change {p : Slot} (h : Lineage s) (hc : Change s p i kind parent pc lock books)
    (hb : Becomes s s' i kind parent) (hpc : s'.pc = Function.update s.pc p pc)
    (hlock : s'.waitLock = lock) : Lineage s' := by
  obtain ⟨hkind, hparent⟩ := hb
  -- when `reparent` has passed every slot, nobody has the process as its parent
  have hchildless : ∀ status, s.pc p = .exiting status 64 → ∀ i, s.parent i ≠ some p := by
    intro status hat i hi
    have := (h.parent i p hi).2 status 64 hat
    omega
  obtain ⟨held, active, free, forking, adopted, sole, child_of, has_parent, init⟩ := h
  simp only [Pc.creates] at sole
  cases hc
  all_goals
    constructor
    all_goals simp only [hkind, hparent, hpc, hlock, Function.update_apply, Pc.creates]
    all_goals clear hkind hparent hpc hlock
    -- slots are numbers, but nothing is calculated with them
    all_goals grind -ring -linarith [Pc.holds]

/-! ## Exits and waits -/

/-- The zombies and the receipts account for every exit, each exit once. -/
structure Ledger (s : State) : Prop where
  zombie : ∀ i pid status, s.kind i = .zombie pid status →
    s.exits[s.serial i]? = some (pid, status) ∧ s.serial i ∉ s.waits.map Receipt.serial
  apart : ∀ i j pid status pid' status', s.kind i = .zombie pid status →
    s.kind j = .zombie pid' status' → s.serial i = s.serial j → i = j
  receipt : ∀ r ∈ s.waits, s.exits[r.serial]? = some (r.pid, r.status) ∧ r.parent = some r.waiter
  once : (s.waits.map Receipt.serial).Nodup
  kept : ∀ n e, s.exits[n]? = some e → n ∉ s.waits.map Receipt.serial →
    ∃ i, s.kind i = .zombie e.1 e.2 ∧ s.serial i = n

/-- No zombie comes or goes. -/
lemma Ledger.of_zombies (h : Ledger s)
    (hz : ∀ i pid status, s'.kind i = .zombie pid status ↔ s.kind i = .zombie pid status)
    (hbooks : s'.books = s.books) : Ledger s' := by
  obtain ⟨hexits, hwaits, hserial⟩ := Books.mk.injEq .. ▸ hbooks
  obtain ⟨h1, h2, h3, h4, h5⟩ := h
  constructor
  all_goals simpa only [hz, hexits, hwaits, hserial]

lemma Ledger.of_same (h : Ledger s) (hsame : SameFamily s.k s'.k) (hbooks : s'.books = s.books) :
    Ledger s' := by
  refine h.of_zombies ?_ hbooks
  intro i pid status
  rw [State.kind, (hsame i).1]
  rfl

lemma Ledger.change {p : Slot} (h : Ledger s) (hc : Change s p i kind parent pc lock books)
    (hb : Becomes s s' i kind parent) (hbooks : s'.books = books) : Ledger s' := by
  have hkind := hb.kind
  cases hc with
  | fork hold _ | adopt _ hold | forkReady _ hold =>
    refine h.of_zombies ?_ hbooks
    intro j pid status
    rw [hkind]
    by_cases hj : j = i
    · subst hj
      simp [hold]
    · rw [Function.update_of_ne hj]
  | reparent _ _ =>
    refine h.of_zombies ?_ hbooks
    rw [hkind, Function.update_eq_self]
    exact fun _ _ _ => Iff.rfl
  | zombie _ hactive =>
    -- no receipt has the next number yet
    have hfresh : s.exits.length ∉ s.waits.map Receipt.serial := by
      intro hin
      obtain ⟨r, hr, hn⟩ := mem_map.mp hin
      have := (h.receipt r hr).1
      rw [hn] at this
      simp at this
    obtain ⟨hexits, hwaits, hserial⟩ := Books.mk.injEq .. ▸ hbooks
    obtain ⟨h1, h2, h3, h4, h5⟩ := h
    constructor
    all_goals simp only [hkind, hexits, hwaits, hserial, Function.update_apply] at *
    all_goals grind -ring -linarith
  | collect _ hended hr hparent =>
    -- no other zombie has the number of the one that is freed
    obtain ⟨hexits, hwaits, hserial⟩ := Books.mk.injEq .. ▸ hbooks
    obtain ⟨h1, h2, h3, h4, h5⟩ := h
    constructor
    all_goals simp only [hkind, hexits, hwaits, hserial, Function.update_apply, map_append,
      map_cons, map_nil] at *
    all_goals grind -ring -linarith

/-- What holds in every reachable state. -/
structure Inv (s : State) : Prop where
  seated : Seated s.k
  lineage : Lineage s
  ledger : Ledger s

/-! ## Every step -/

variable {fl : Label} {ls : List Label}

/-- What a step does to the kernel is a step of the kernel, or nothing. -/
lemma Move.kernel (hm : Move pol s fl s') : s'.k = s.k ∨ ∃ l, Kernel.Move pol s.k l s'.k := by
  cases hm with
  | environment _ _ hk => exact Or.inr ⟨_, hk⟩
  | fork _ _ hfree => exact Or.inr ⟨_, .allocproc hfree⟩
  | forkFail _ _ hfree => exact Or.inr ⟨_, .allocFail hfree⟩
  | adopt on _ _ hused => exact Or.inr ⟨_, .setParent on hused⟩
  | forkReady _ _ hused => exact Or.inr ⟨_, .ready hused⟩
  | reparentChild on _ hchild => exact Or.inr ⟨_, .reparent on hchild⟩
  | becomeZombie on _ hother => exact Or.inr ⟨_, .exit on hother⟩
  | collect on _ hchild hended => exact Or.inr ⟨_, .collect on hchild hended⟩
  | register on _ => exact Or.inr ⟨_, .sleepPrepare on (by simp [procChan])⟩
  | sleep on _ hchan => exact Or.inr ⟨_, .sleep on hchan⟩
  | exitBegin | reparentOther | waitBegin | scanNext | scanFail | giveUp | unlock
  | sleepSkip => exact Or.inl rfl

lemma Seated.family (h : Seated s.k) (hm : Move pol s fl s') : Seated s'.k := by
  rcases hm.kernel with hk | ⟨l, hk⟩
  · rw [hk]
    exact h
  · exact h.step hk

/-- A process that runs is active. -/
lemma active_of_on {p : Slot} (hseat : Seated s.k) (on : s.k.cpu c = some p) :
    s.kind p = .active :=
  kindOf_active (.inr (.inr (hseat.running on)))

/-- Nobody else holds a lock that is free, or that `p` holds. -/
lemma Lineage.alone {p : Slot} (h : Lineage s) (hlock : s.waitLock = none ∨ s.waitLock = some p) :
    ∀ q, q ≠ p → (s.pc q).holds = false := by
  intro q hq
  by_contra hno
  have hheld := h.lock q (by simpa using hno)
  rcases hlock with hl | hl
  · rw [hl] at hheld
    cases hheld
  rw [hl] at hheld
  cases hheld
  exact hq rfl

/-- A process moves on without the lock, or gives it back. -/
lemma Lineage.leave {p : Slot} (h : Lineage s) (hsame : SameFamily s.k s'.k)
    (hpc : s'.pc = Function.update s.pc p pc) (hp : s.kind p = .active)
    (hlock : s.waitLock = none ∨ s.waitLock = some p) (hout : pc.holds = false)
    (hcreates : ∀ i, ¬ pc.creates i) : Lineage s' := by
  refine h.goto hsame hpc hp ?_ ?_ hcreates ?_
  · intro hin
    rw [hout] at hin
    cases hin
  · intro q hq hin
    rw [h.alone hlock q hq] at hin
    cases hin
  · rintro status next rfl
    cases hout

/-- A process moves on and keeps the lock it has. -/
lemma Lineage.stay {p : Slot} (h : Lineage s) (hsame : SameFamily s.k s'.k)
    (hpc : s'.pc = Function.update s.pc p pc) (hp : s.kind p = .active)
    (hold : (s.pc p).holds = pc.holds) (hlock : s'.waitLock = s.waitLock)
    (hcreates : ∀ i, ¬ pc.creates i)
    (hexit : ∀ status next, pc = .exiting status next →
      p ≠ initproc ∧ ∀ i, s.parent i = some p → next ≤ i.val) : Lineage s' := by
  refine h.goto hsame hpc hp ?_ ?_ hcreates hexit
  · intro hin
    rw [hlock]
    exact h.lock p (hold.trans hin)
  intro q _ hin
  rw [hlock]
  exact h.lock q hin

lemma SameFamily.refl (k : KernelState) : SameFamily k k := fun _ => ⟨rfl, rfl⟩

lemma Inv.step (h : Inv s) (hm : Move pol s fl s') : Inv s' := by
  have hseat := h.seated
  have hlineage := h.lineage
  have hchange : ∀ {p i kind parent pc lock books}, Change s p i kind parent pc lock books →
      Becomes s s' i kind parent → s'.pc = Function.update s.pc p pc → s'.waitLock = lock →
      s'.books = books → Inv s' := fun hc hb hpc hlock hbooks =>
    ⟨Seated.family h.seated hm, h.lineage.change hc hb hpc hlock, h.ledger.change hc hb hbooks⟩
  have hsame : SameFamily s.k s'.k → s'.books = s.books →
      (SameFamily s.k s'.k → Lineage s') → Inv s' := fun hf hbooks hl =>
    ⟨Seated.family h.seated hm, hl hf, h.ledger.of_same hf hbooks⟩
  cases hm with
  | environment henv _ hk =>
    exact hsame (SameFamily.of_move hseat henv hk) rfl fun hf => hlineage.of_same hf rfl rfl
  | @fork c p i on _ hfree =>
    have hi : s.kind i = .free := kindOf_eq_free.mpr hfree
    refine hchange (.fork hi (active_of_on hseat on)) ?_ rfl rfl rfl
    refine Becomes.of_slot (fun j hj => allocproc_of_ne i s.k hj) ?_ ?_
    · simp [State.kind, kindOf, allocproc]
    · exact hlineage.free i hi ▸ by simp [State.parent, allocproc]
  | @forkFail c p i on _ hfree =>
    refine hsame (SameFamily.of_slot (i := i) (fun j hj => allocFail_of_ne i s.k hj) ?_ ?_) rfl
      fun hf => hlineage.of_same hf rfl rfl
    · simp [kindOf, freeproc, hfree]
    · simp [freeproc, allocproc]
  | @adopt c p i on hat _ hused =>
    have hi : s.kind i = .embryo := kindOf_eq_embryo.mpr hused
    exact hchange (.adopt hat hi) (Becomes.modify rfl hi rfl) rfl rfl rfl
  | @forkReady c p i on hat hused =>
    obtain ⟨n, hn⟩ := makeRunnable_self pol i s.k
    refine hchange (.forkReady hat (kindOf_eq_embryo.mpr hused))
      (Becomes.of_slot (fun j hj => makeRunnable_of_ne pol i s.k hj) ?_ ?_) rfl rfl rfl
    · simp [State.kind, kindOf, hn]
    · simp [State.parent, hn]
  | @exitBegin c p status on hat hother hlock =>
    refine hsame (SameFamily.refl _) rfl fun hf => hlineage.goto hf rfl (active_of_on hseat on)
      (fun _ => rfl) ?_ (by simp [Pc.creates]) ?_
    · intro q hq hin
      rw [hlineage.alone (.inl hlock) q hq] at hin
      cases hin
    intro status' next heq
    cases heq
    exact ⟨hother, fun i _ => Nat.zero_le _⟩
  | @reparentChild c p i status on hat hchild =>
    exact hchange (.reparent hat hchild) (Becomes.modify rfl rfl rfl) rfl rfl rfl
  | @reparentOther c p i status on hat hother =>
    refine hsame (SameFamily.refl _) rfl fun hf => hlineage.stay hf rfl (active_of_on hseat on)
      (by rw [hat]; rfl) rfl (by simp [Pc.creates]) ?_
    intro status' next heq
    cases heq
    constructor
    · rintro rfl
      exact hlineage.init.2 _ _ hat
    intro j hj
    -- slot `i` itself is not a child
    have hle := (hlineage.parent j p hj).2 _ _ hat
    have hne : j ≠ i := by
      rintro rfl
      exact hother hj
    have := Fin.val_ne_of_ne hne
    omega
  | @becomeZombie c p status on hat _ =>
    exact hchange (.zombie hat (active_of_on hseat on)) (Becomes.modify rfl rfl rfl) rfl rfl rfl
  | @waitBegin c p l on hat hlock =>
    refine hsame (SameFamily.refl _) rfl fun hf => hlineage.goto hf rfl (active_of_on hseat on)
      (fun _ => rfl) ?_ (by simp [Pc.creates]) (fun _ _ heq => by cases heq)
    intro q hq hin
    rw [hlineage.alone (.inl hlock) q hq] at hin
    cases hin
  | scanNext on hat _ | sleepSkip on hat =>
    exact hsame (SameFamily.refl _) rfl fun hf => hlineage.stay hf rfl (active_of_on hseat on)
      (by rw [hat]; rfl) rfl (by simp [Pc.creates]) (fun _ _ heq => by cases heq)
  | scanFail on hat _ _ | giveUp on hat | unlock on hat =>
    exact hsame (SameFamily.refl _) rfl fun hf => hlineage.leave hf rfl (active_of_on hseat on)
      (.inr (hlineage.lock _ (by rw [hat]; rfl))) rfl (by simp [Pc.creates])
  | @collect c p i havekids on hat hchild hended =>
    exact hchange (.collect hat (kindOf_eq_zombie.mpr ⟨hended, rfl, rfl⟩) rfl hchild)
      (Becomes.modify rfl rfl rfl) rfl rfl rfl
  | @register c p havekids on hat =>
    have hfamily : SameFamily s.k (s.k.modify p fun q => { q with chan := procChan p }) :=
      SameFamily.modify rfl rfl
    exact hsame hfamily rfl fun hf => hlineage.stay hf rfl (active_of_on hseat on)
      (by rw [hat]; rfl) rfl (by simp [Pc.creates]) (fun _ _ heq => by cases heq)
  | sleep on hat _ =>
    exact hsame (SameFamily.sleep (hseat.running on)) rfl fun hf => hlineage.stay hf rfl
      (active_of_on hseat on) (by rw [hat]; rfl) rfl (by simp [Pc.creates])
      (fun _ _ heq => by cases heq)

/-! ## Every run -/

lemma kind_start (i : Slot) :
    (State.start pol).kind i = if i = initproc then .active else .free := by
  show kindOf ((boot pol).proc i) = _
  rcases boot_proc pol i with ⟨hi, hp⟩ | ⟨hi, n, hp⟩
  · rw [hp, if_neg hi]
    rfl
  · rw [hp, if_pos hi]
    rfl

lemma parent_start (i : Slot) : (State.start pol).parent i = none := by
  show ((boot pol).proc i).parent = _
  rcases boot_proc pol i with ⟨-, hp⟩ | ⟨-, n, hp⟩
  all_goals
    rw [hp]
    rfl

lemma Inv.start : Inv (State.start pol) := by
  have hpc : ∀ p, (State.start pol).pc p = .idle := fun _ => rfl
  constructor
  · exact Seated.boot
  · constructor
    all_goals simp +contextual [hpc, kind_start, parent_start, Pc.holds, Pc.creates]
  have hexits : (State.start pol).exits = [] := rfl
  have hwaits : (State.start pol).waits = [] := rfl
  have hnone : ∀ i pid status, (State.start pol).kind i ≠ .zombie pid status := by
    intro i pid status
    rw [kind_start]
    split <;> simp
  constructor
  all_goals simp [hexits, hwaits, hnone]

lemma Inv.of_run (h : Run (Family.step pol) anyStep (State.start pol) ls s) : Inv s :=
  h.invariant Inv Inv.start (fun _ _ _ _ hs hinv => hinv.step (Move.of_step hs))

end

/-- Every exit is collected once. In every reachable state, a process whose
creation is complete has a parent that has not exited, a free slot has none,
and the exits are those of the zombies and of the receipts, each exit once. -/
theorem exit_collected_once (pol : Policy) (ls : List Label) (s : State)
    (h : Run (step pol) anyStep (State.start pol) ls s) :
    (∀ i, i ≠ initproc → (s.k.proc i).state ≠ .unused → (s.k.proc i).state ≠ .used →
      ∃ q, (s.k.proc i).parent = some q ∧ (s.k.proc q).live) ∧
    (∀ i, (s.k.proc i).state = .unused → (s.k.proc i).parent = none) ∧
    (s.waits.map Receipt.serial).Nodup ∧
    (∀ r ∈ s.waits, s.exits[r.serial]? = some (r.pid, r.status) ∧ r.parent = some r.waiter) ∧
    ∀ n pid status, s.exits[n]? = some (pid, status) → n ∉ s.waits.map Receipt.serial →
      ∃ i, (s.k.proc i).state = .zombie ∧ (s.k.proc i).pid = pid ∧
        (s.k.proc i).xstate = status ∧ s.serial i = n := by
  have hinv := Inv.of_run h
  refine ⟨?_, ?_, hinv.ledger.once, hinv.ledger.receipt, ?_⟩
  · intro i hi hfree hused
    have hparent := hinv.lineage.child i hi (mt kindOf_eq_free.mp hfree)
      (mt kindOf_eq_embryo.mp hused)
    obtain ⟨q, hq⟩ := Option.ne_none_iff_exists'.mp hparent
    exact ⟨q, hq, live_of_active (hinv.lineage.parent i q hq).1⟩
  · exact fun i hi => hinv.lineage.free i (kindOf_eq_free.mpr hi)
  · intro n pid status hn hnot
    obtain ⟨i, hi, hserial⟩ := hinv.ledger.kept n _ hn hnot
    obtain ⟨hzombie, hpid, hstatus⟩ := kindOf_eq_zombie.mp hi
    exact ⟨i, hzombie, hpid, hstatus, hserial⟩

/-- init forks a child, which exits with status 7; the first `wait` of init
cannot copy the status out, the second one can. -/
def waitTwice : List Label :=
  ([.environment (.dispatch 0 0), .fork 0 1, .adopt 0, .forkReady 0,
    .environment (.dispatch 1 1), .exitBegin 1 7] : List Label) ++
  List.replicate 64 (.reparent 1) ++
  ([.becomeZombie 1, .waitBegin 0, .scan 0 false, .scan 0 true,
    .waitBegin 0, .scan 0 false, .scan 0 false] : List Label)

theorem exit_collected_once_wait_twice :
    ∃ s, Run (step .mlfq) anyStep (State.start .mlfq) waitTwice s ∧
      s.waits = [⟨0, 0, some 0, 2, 7⟩] ∧ (s.waits.map Receipt.serial).Nodup := by
  refine Run.exists_imp (P := fun s => s.waits = [⟨0, 0, some 0, 2, 7⟩]) (by decide +kernel) ?_
  exact fun s hs hw => ⟨hw, (exit_collected_once .mlfq waitTwice s hs).2.2.1⟩

end CshellXv6.Kernel.Family
