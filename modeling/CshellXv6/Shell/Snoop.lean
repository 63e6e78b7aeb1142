import CshellXv6.Lib.Tally
import CshellXv6.Lib.Words
import Mathlib.Data.List.Sort

/-! # `snoop`

`c-shell/src/activities.c`: the loop in which `snoop` follows a traced process from one
stop to the next and counts its system calls, and the order in which it prints them. The
stops that a process really makes (`Event`) are told apart from what `waitpid` reports
(`Status`): `snoop` sees that a stop is one of a system call, but has to remember by
itself whether it is at its beginning or at its end.

Starting or attaching to the process is left out. Times are kept without the rounding
of a `double`.
-/

namespace CshellXv6.Shell.Snoop

open Lib List

/-- `struct timespec`. -/
structure Timespec where
  sec : Int
  nsec : Int
deriving DecidableEq, Repr

/-- `(end.tv_sec - start.tv_sec) + (end.tv_nsec - start.tv_nsec) / 1e9`. -/
def elapsed (start stop : Timespec) : ℚ :=
  (stop.sec - start.sec) + (stop.nsec - start.nsec) / 10 ^ 9

/-- `system_call`. -/
structure SystemCall where
  num : Int
  name : String
  count : Int
  time : ℚ
  first : Nat
deriving DecidableEq, Repr

/-- What `waitpid` reports. `orig_rax` is what `PTRACE_GETREGS` gives, if it succeeds. -/
inductive Status where
  | exited
  | signaled
  | syscallStop (orig_rax : Option Nat)
  | signalStop (sig : Nat)
deriving DecidableEq, Repr

/-- The variables of the loop. -/
structure Trace where
  calls : List SystemCall
  in_syscall : Bool
  curr : Int
  start : Timespec
deriving DecidableEq, Repr

section

-- `syscall_names` has nothing for the numbers it leaves out
variable (syscall_names : List (Option String))

def callName (num : Int) : String :=
  if 0 ≤ num then (syscall_names.getD num.toNat none).getD ("syscall_" ++ toString num)
  else "syscall_" ++ toString num

/-- The row of a call that has ended once more. -/
def SystemCall.again (time : ℚ) (c : SystemCall) : SystemCall :=
  { c with count := toInt (c.count + 1), time := c.time + time }

/-- The loop over `calls` when a call has ended, and what follows if it finds nothing.
There is no `calls[1000]`. -/
def record (curr : Int) (time : ℚ) (calls : List SystemCall) : Option (List SystemCall) :=
  if curr ∈ calls.map SystemCall.num ∨ calls.length < 1000 then
    some (upsert SystemCall.num curr (SystemCall.again time)
      ⟨curr, callName syscall_names curr, 1, time, calls.length⟩ calls)
  else none

/-- The call that has begun is counted. -/
def Trace.finish (now : Timespec) (s : Trace) : Option Trace :=
  (record syscall_names s.curr (elapsed s.start now) s.calls).map fun calls =>
    { s with calls := calls, in_syscall := false }

/-- A stop of a system call. -/
def Trace.stop (now : Timespec) (orig_rax : Nat) (s : Trace) : Option Trace :=
  if s.in_syscall then s.finish syscall_names now
  else some { s with curr := toInt orig_rax, start := now, in_syscall := true }

/-- `while (1)`. A process that is killed is reported like one that goes on, but the next
`waitpid` fails. -/
def Trace.loop : List (Status × Timespec) → Trace → Option Trace
  | [], s => some s
  | (.exited, now) :: _, s => if s.in_syscall then s.finish syscall_names now else some s
  | (.syscallStop (some orig_rax), now) :: rest, s =>
    (s.stop syscall_names now orig_rax).bind (Trace.loop rest)
  | _ :: rest, s => Trace.loop rest s

def Trace.init : Trace := ⟨[], false, -1, ⟨0, 0⟩⟩

def compare2 (a b : SystemCall) : Int :=
  if a.count ≠ b.count then toInt (b.count - a.count) else toInt ((a.first : Int) - b.first)

/-- The rows that `snoop` prints. -/
def snoop (statuses : List (Status × Timespec)) : Option (List SystemCall) :=
  (Trace.init.loop syscall_names statuses).map fun s =>
    s.calls.insertionSort fun a b => compare2 a b ≤ 0

end

/-! ## What the process does -/

/-- A stop of the process: it enters a system call, comes back from one, or gets a
signal. -/
inductive Event where
  | enter (orig_rax : Nat)
  | leave (orig_rax : Nat)
  | signal (sig : Nat)
deriving DecidableEq, Repr

def Event.status : Event → Status
  | .enter orig_rax => .syscallStop (some orig_rax)
  | .leave orig_rax => .syscallStop (some orig_rax)
  | .signal sig => .signalStop sig

/-- Entering and leaving alternate; the argument says whether the process is in a call. -/
def alternates : Bool → List Event → Bool
  | _, [] => true
  | false, .enter _ :: rest => alternates true rest
  | true, .leave _ :: rest => alternates false rest
  | inside, .signal _ :: rest => alternates inside rest
  | _, _ => false

/-- The number of a system call: the kernel looks at the lower half of the register. -/
def callNumber (orig_rax : Nat) : Int := toInt orig_rax

/-- The numbers of the calls entered. -/
def entered : List Event → List Int
  | [] => []
  | .enter orig_rax :: rest => callNumber orig_rax :: entered rest
  | _ :: rest => entered rest

/-- The numbers of the calls in the order in which they end, the last one by the exit of
the process. -/
def completed : Option Int → List Event → List Int
  | pending, [] => pending.toList
  | _, .enter orig_rax :: rest => completed (some (callNumber orig_rax)) rest
  | pending, .leave _ :: rest => pending.toList ++ completed none rest
  | pending, .signal _ :: rest => completed pending rest

variable {pending : Option Int} {es : List Event}

lemma completed_eq (h : alternates pending.isSome es = true) :
    completed pending es = pending.toList ++ entered es := by
  induction es generalizing pending with
  | nil => simp [completed, entered]
  | cons e rest ih =>
    cases e with
    | enter orig_rax =>
      cases pending with
      | none =>
        have hrest : alternates (some (callNumber orig_rax)).isSome rest = true := h
        rw [completed, ih hrest]
        rfl
      | some n => cases h
    | leave orig_rax =>
      cases pending with
      | none => cases h
      | some n =>
        have hrest : alternates (none : Option Int).isSome rest = true := h
        rw [completed, ih hrest]
        rfl
    | signal sig =>
      have hrest : alternates pending.isSome rest = true := by
        cases pending <;> exact h
      rw [completed, ih hrest]
      rfl

/-! ## What `snoop` counts -/

/-- The table counts the calls that have ended, and its rows are numbered. -/
structure Table (ks : List Int) (calls : List SystemCall) : Prop where
  tallied : Tallied SystemCall.num SystemCall.count (fun m => toInt m) ks calls
  places : calls.map SystemCall.first = List.range calls.length

lemma Table.nil : Table [] [] := ⟨Tallied.nil, rfl⟩

section

variable (syscall_names : List (Option String)) {ks : List Int} {calls : List SystemCall}
variable {curr n : Int} {s : Trace}

/-- One more call ends. -/
lemma Table.record (h : Table ks calls) (time : ℚ) (hroom : (firsts (ks ++ [curr])).length ≤ 1000) :
    ∃ calls', record syscall_names curr time calls = some calls' ∧ Table (ks ++ [curr]) calls' := by
  have hlen : calls.length = (firsts ks).length := by
    rw [← h.tallied.keys, length_map]
  have hmem : curr ∈ calls.map SystemCall.num ↔ curr ∈ ks := by
    rw [h.tallied.keys, mem_firsts]
  have hfits : curr ∈ calls.map SystemCall.num ∨ calls.length < 1000 := by
    by_cases hcurr : curr ∈ ks
    · exact .inl (hmem.mpr hcurr)
    right
    rw [firsts_append_of_notMem hcurr, length_append, length_singleton] at hroom
    omega
  refine ⟨_, if_pos hfits, ?_, ?_⟩
  · refine h.tallied.upsert (fun _ => rfl) rfl ?_ rfl
    intro c m hc
    show toInt (c.count + 1) = toInt (m + 1 : Nat)
    rw [hc, toInt_toInt_add, Nat.cast_add, Nat.cast_one]
  by_cases hcurr : curr ∈ calls.map SystemCall.num
  · have hfirst : (upsert SystemCall.num curr (SystemCall.again time)
        ⟨curr, callName syscall_names curr, 1, time, calls.length⟩ calls).map SystemCall.first =
          calls.map SystemCall.first := map_upsert_of_mem (fun _ => rfl) hcurr
    have hlength := congrArg List.length hfirst
    rw [length_map, length_map] at hlength
    rw [hfirst, h.places, hlength]
  · rw [upsert_of_notMem hcurr, map_append, h.places, length_append, length_singleton, range_succ]
    rfl

/-- The variables of the loop say what the process has done. -/
structure Follows (s : Trace) (ks : List Int) (pending : Option Int) : Prop where
  table : Table ks s.calls
  inside : s.in_syscall = pending.isSome
  number : ∀ n ∈ pending, s.curr = n

lemma Follows.init : Follows Trace.init [] none := by
  constructor
  · exact Table.nil
  · rfl
  · intro n hn
    cases hn

lemma Follows.finish (h : Follows s ks (some n)) (now : Timespec)
    (hroom : (firsts (ks ++ [n])).length ≤ 1000) :
    ∃ s', s.finish syscall_names now = some s' ∧ Follows s' (ks ++ [n]) none := by
  have hcurr : s.curr = n := h.number n rfl
  subst hcurr
  obtain ⟨calls', hrecord, htable⟩ :=
    h.table.record syscall_names (elapsed s.start now) hroom
  refine ⟨{ s with calls := calls', in_syscall := false }, ?_, ?_⟩
  · rw [Trace.finish, hrecord]
    rfl
  constructor
  · exact htable
  · rfl
  · intro n hn
    cases hn

/-- What the loop makes of the stops of a process that exits in the end. -/
lemma Follows.loop {es : List (Event × Timespec)} {exit : Timespec}
    (h : Follows s ks pending) (halt : alternates pending.isSome (es.map Prod.fst) = true)
    (hroom : (firsts (ks ++ completed pending (es.map Prod.fst))).length ≤ 1000) :
    ∃ s', s.loop syscall_names (es.map (Prod.map Event.status id) ++ [(.exited, exit)]) = some s' ∧
      Table (ks ++ completed pending (es.map Prod.fst)) s'.calls := by
  induction es generalizing s ks pending with
  | nil =>
    have hloop : s.loop syscall_names [(.exited, exit)] =
        if s.in_syscall then s.finish syscall_names exit else some s := rfl
    cases pending with
    | none =>
      refine ⟨s, ?_, ?_⟩
      · exact hloop.trans (if_neg (by rw [h.inside]; simp))
      · simpa [completed] using h.table
    | some n =>
      obtain ⟨s', hs', hfollows⟩ := h.finish syscall_names exit hroom
      exact ⟨s', (hloop.trans (if_pos h.inside)).trans hs', hfollows.table⟩
  | cons e rest ih =>
    obtain ⟨e, now⟩ := e
    cases e with
    | enter orig_rax =>
      cases pending with
      | some n => cases halt
      | none =>
        have hnext : Follows { s with
            curr := toInt orig_rax, start := now, in_syscall := true } ks
            (some (callNumber orig_rax)) := by
          constructor
          · exact h.table
          · rfl
          · intro n hn
            rw [← Option.some.inj hn, callNumber]
        obtain ⟨s', hs', htable⟩ := ih hnext halt hroom
        refine ⟨s', ?_, htable⟩
        rw [← hs']
        have hstop : s.stop syscall_names now orig_rax = some { s with
            curr := toInt orig_rax, start := now, in_syscall := true } :=
          if_neg (by rw [h.inside]; simp)
        show (s.stop syscall_names now orig_rax).bind _ = _
        rw [hstop]
        rfl
    | leave orig_rax =>
      cases pending with
      | none => cases halt
      | some n =>
        have hroom' : (firsts (ks ++ [n] ++ completed none (rest.map Prod.fst))).length ≤
            1000 := by
          rw [append_assoc]
          exact hroom
        obtain ⟨s1, hs1, hnext⟩ := h.finish syscall_names now ((length_firsts_le _ _).trans hroom')
        obtain ⟨s', hs', htable⟩ := ih hnext halt hroom'
        refine ⟨s', ?_, ?_⟩
        · have hstop : s.stop syscall_names now orig_rax = some s1 :=
            (if_pos h.inside).trans hs1
          rw [← hs']
          show (s.stop syscall_names now orig_rax).bind _ = _
          rw [hstop]
          rfl
        · rw [append_assoc] at htable
          exact htable
    | signal sig =>
      have hrest : alternates pending.isSome (rest.map Prod.fst) = true := by
        cases pending <;> exact halt
      exact ih h hrest hroom

/-! ## The order of the rows -/

variable {syscall_names} {c b a : SystemCall}

/-- `a` is above `b`: it has been counted more often, or as often and ended first. -/
def above (ks : List Int) (a b : SystemCall) : Prop :=
  b.count < a.count ∨ a.count = b.count ∧ ks.idxOf a.num < ks.idxOf b.num

lemma Table.nodup (h : Table ks calls) : calls.Nodup := by
  refine List.Nodup.of_map SystemCall.num ?_
  rw [h.tallied.keys]
  exact nodup_firsts ks

/-- The place of a row. -/
lemma Table.getElem? (h : Table ks calls) (hc : c ∈ calls) : calls[c.first]? = some c := by
  obtain ⟨i, hi⟩ := List.getElem?_of_mem hc
  have hplace : (calls.map SystemCall.first)[i]? = some c.first := by
    rw [List.getElem?_map, hi]
    rfl
  have hlt := (List.getElem?_eq_some_iff.mp hi).1
  rw [h.places, List.getElem?_range hlt] at hplace
  rw [← Option.some.inj hplace]
  exact hi

/-- The rows stand in the order in which their calls ended first. -/
lemma Table.idxOf_lt (h : Table ks calls) (ha : a ∈ calls) (hb : b ∈ calls)
    (hlt : a.first < b.first) : ks.idxOf a.num < ks.idxOf b.num := by
  have hnum : ∀ c ∈ calls, (firsts ks)[c.first]? = some c.num := by
    intro c hc
    rw [← h.tallied.keys, List.getElem?_map, h.getElem? hc]
    rfl
  obtain ⟨hla, hga⟩ := List.getElem?_eq_some_iff.mp (hnum a ha)
  obtain ⟨hlb, hgb⟩ := List.getElem?_eq_some_iff.mp (hnum b hb)
  have hpair := pairwise_iff_getElem.mp (pairwise_firsts ks) a.first b.first hla hlb hlt
  rwa [hga, hgb] at hpair

lemma Table.count_eq (h : Table ks calls) (hmany : ∀ n, ks.count n < 2 ^ 31)
    (hc : c ∈ calls) : c.count = ks.count c.num := by
  rw [h.tallied.counts c hc]
  exact toInt_of_lt (hmany c.num)

/-- The order of `compare2` without the arithmetic of an `int`. -/
def atLeast (a b : SystemCall) : Prop := b.count < a.count ∨ a.count = b.count ∧ a.first ≤ b.first

instance (a b : SystemCall) : Decidable (atLeast a b) := inferInstanceAs (Decidable (_ ∨ _))

instance : Std.Total atLeast := by
  constructor
  intro a b
  unfold atLeast
  omega

instance : IsTrans SystemCall atLeast := by
  constructor
  intro a b c
  unfold atLeast
  omega

lemma Table.compare2_iff (h : Table ks calls)
    (hmany : ∀ n, ks.count n < 2 ^ 31) (hroom : (firsts ks).length ≤ 1000)
    (ha : a ∈ calls) (hb : b ∈ calls) : compare2 a b ≤ 0 ↔ atLeast a b := by
  have hfirst : ∀ c ∈ calls, c.first < 1000 := by
    intro c hc
    have hlt := (List.getElem?_eq_some_iff.mp (h.getElem? hc)).1
    rw [← h.tallied.keys, length_map] at hroom
    omega
  have hcount : ∀ c ∈ calls, 0 ≤ c.count ∧ c.count < 2 ^ 31 := by
    intro c hc
    rw [h.count_eq hmany hc]
    have := hmany c.num
    omega
  have ha1 := hfirst a ha
  have hb1 := hfirst b hb
  have ha2 := hcount a ha
  have hb2 := hcount b hb
  unfold compare2 atLeast
  split
  all_goals
    rw [toInt_of_range (by omega) (by omega)]
    omega

lemma Table.pairwise_above (h : Table ks calls) (hmany : ∀ n, ks.count n < 2 ^ 31)
    (hroom : (firsts ks).length ≤ 1000) :
    (calls.insertionSort fun a b => compare2 a b ≤ 0).Pairwise (above ks) := by
  have hsame : (calls.insertionSort fun a b => compare2 a b ≤ 0) = calls.insertionSort atLeast := by
    have hmap := map_insertionSort (fun a b => compare2 a b ≤ 0) atLeast id calls
      fun a ha b hb => h.compare2_iff hmany hroom ha hb
    simpa using hmap
  rw [hsame]
  have hperm := perm_insertionSort atLeast calls
  have hnodup : (calls.insertionSort atLeast).Nodup := hperm.nodup_iff.mpr h.nodup
  refine ((pairwise_insertionSort atLeast calls).and hnodup).imp_of_mem ?_
  rintro a b ha hb ⟨hlt | ⟨heq, hle⟩, hne⟩
  · exact .inl hlt
  have ha' := hperm.mem_iff.mp ha
  have hb' := hperm.mem_iff.mp hb
  refine .inr ⟨heq, h.idxOf_lt ha' hb' (lt_of_le_of_ne hle ?_)⟩
  intro hfirst
  have hrow := h.getElem? ha'
  rw [hfirst, h.getElem? hb'] at hrow
  exact hne (Option.some.inj hrow).symm

/-- What the loop makes of a process, and what `snoop` prints. -/
lemma exists_table {es : List (Event × Timespec)} {exit : Timespec}
    (halt : alternates false (es.map Prod.fst) = true)
    (hroom : (entered (es.map Prod.fst)).dedup.length ≤ 1000) :
    ∃ calls, Table (entered (es.map Prod.fst)) calls ∧
      snoop syscall_names (es.map (Prod.map Event.status id) ++ [(.exited, exit)]) =
        some (calls.insertionSort fun a b => compare2 a b ≤ 0) := by
  have hcompleted : completed none (es.map Prod.fst) = entered (es.map Prod.fst) :=
    completed_eq halt
  have hfirsts : (firsts ([] ++ completed none (es.map Prod.fst))).length ≤ 1000 := by
    rw [nil_append, hcompleted, (firsts_perm_dedup _).length_eq]
    exact hroom
  obtain ⟨s, hs, htable⟩ : ∃ s, Trace.init.loop syscall_names
      (es.map (Prod.map Event.status id) ++ [(.exited, exit)]) = some s ∧ _ :=
    Follows.init.loop syscall_names halt hfirsts
  rw [nil_append, hcompleted] at htable
  exact ⟨s.calls, htable, by rw [snoop, hs]; rfl⟩

/-- **The summary of `snoop` is a histogram.** For every process whose stops alternate between
entering and leaving a system call, with signals anywhere, and that exits in the end,
maybe inside a call: if it makes calls with at most 1000 different numbers, and less than
`2 ^ 31` with each of them, the table has one row for each number, which says how often it
was called, the rows add up to all calls, and they are ordered by how often, and else by
which ended first. -/
theorem snoop_histogram {es : List (Event × Timespec)} {exit : Timespec}
    (halt : alternates false (es.map Prod.fst) = true)
    (hroom : (entered (es.map Prod.fst)).dedup.length ≤ 1000)
    (hmany : ∀ n, (entered (es.map Prod.fst)).count n < 2 ^ 31) :
    ∃ table, snoop syscall_names (es.map (Prod.map Event.status id) ++ [(.exited, exit)]) =
        some table ∧
      (table.map SystemCall.num).Nodup ∧
      (∀ n, n ∈ table.map SystemCall.num ↔ n ∈ entered (es.map Prod.fst)) ∧
      (∀ row ∈ table, row.count = (completed none (es.map Prod.fst)).count row.num) ∧
      (table.map SystemCall.count).sum = (entered (es.map Prod.fst)).length ∧
      table.Pairwise (above (completed none (es.map Prod.fst))) := by
  have hcompleted : completed none (es.map Prod.fst) = entered (es.map Prod.fst) :=
    completed_eq halt
  obtain ⟨calls, htable, hsnoop⟩ := exists_table halt hroom
  rw [← (firsts_perm_dedup _).length_eq] at hroom
  rw [hcompleted]
  have hperm := perm_insertionSort (fun a b => compare2 a b ≤ 0) calls
  refine ⟨_, hsnoop, ?_, ?_, ?_, ?_, htable.pairwise_above hmany hroom⟩
  · rw [(hperm.map _).nodup_iff, htable.tallied.keys]
    exact nodup_firsts _
  · intro n
    rw [(hperm.map _).mem_iff, htable.tallied.keys, mem_firsts]
  · intro row hrow
    exact htable.count_eq hmany (hperm.mem_iff.mp hrow)
  rw [(hperm.map _).sum_eq, ← sum_count_firsts, ← htable.tallied.keys, map_map,
    Nat.cast_list_sum, map_map]
  refine congrArg List.sum (map_congr_left fun row hrow => ?_)
  exact htable.count_eq hmany hrow

end

/-- A process that writes, reads and writes again, gets a signal in between, and exits
inside a call. -/
def writer : List (Event × Timespec) :=
  [(.enter 1, ⟨0, 0⟩), (.leave 1, ⟨0, 5⟩), (.enter 0, ⟨1, 0⟩), (.signal 5, ⟨1, 0⟩),
    (.leave 0, ⟨2, 0⟩), (.enter 1, ⟨3, 0⟩), (.leave 1, ⟨3, 7⟩), (.enter 60, ⟨4, 0⟩)]

theorem snoop_histogram_writer :
    ∃ table, snoop [some "read", some "write"]
        (writer.map (Prod.map Event.status id) ++ [(.exited, ⟨5, 0⟩)]) = some table ∧
      (∀ row ∈ table, row.count = [1, 0, 1, 60].count row.num) ∧
      table.Pairwise (above [1, 0, 1, 60]) := by
  have hcount : ∀ n, (entered (writer.map Prod.fst)).count n < 2 ^ 31 := by
    intro n
    exact count_le_length.trans_lt (by decide)
  obtain ⟨table, hsnoop, -, -, hrows, -, habove⟩ : ∃ table, snoop [some "read", some "write"]
      (writer.map (Prod.map Event.status id) ++ [(.exited, ⟨5, 0⟩)]) = some table ∧ _ :=
    snoop_histogram (by decide) (by decide) hcount
  exact ⟨table, hsnoop, hrows, habove⟩

/-- A process that calls `read` over and over. -/
def reader (m : Nat) : List (Event × Timespec) :=
  (List.replicate m [(.enter 0, ⟨0, 0⟩), (.leave 0, ⟨0, 0⟩)]).flatten

lemma reader_succ (m : Nat) :
    (reader (m + 1)).map Prod.fst = .enter 0 :: .leave 0 :: (reader m).map Prod.fst := rfl

lemma alternates_reader (m : Nat) : alternates false ((reader m).map Prod.fst) = true := by
  induction m with
  | zero => rfl
  | succ m ih =>
    rw [reader_succ]
    exact ih

lemma entered_reader (m : Nat) :
    entered ((reader m).map Prod.fst) = List.replicate m (callNumber 0) := by
  induction m with
  | zero => rfl
  | succ m ih =>
    rw [reader_succ, replicate_succ, ← ih]
    rfl

lemma dedup_entered_reader (m : Nat) : (entered ((reader m).map Prod.fst)).dedup.length ≤ 1000 := by
  rw [entered_reader]
  cases m with
  | zero => decide
  | succ m =>
    rw [replicate_dedup (Nat.succ_ne_zero m)]
    decide

/-- The row of `read`. -/
lemma snoop_reader {m : Nat} (hm : m ≠ 0) :
    ∃ table, snoop [] ((reader m).map (Prod.map Event.status id) ++ [(.exited, ⟨0, 0⟩)]) =
        some table ∧
      ∃ row ∈ table, row.count = toInt m ∧
        (entered ((reader m).map Prod.fst)).count row.num = m := by
  obtain ⟨calls, htable, hsnoop⟩ : ∃ calls, _ ∧ snoop [] ((reader m).map
      (Prod.map Event.status id) ++ [(.exited, ⟨0, 0⟩)]) = some _ :=
    exists_table (alternates_reader m) (dedup_entered_reader m)
  have hnum : callNumber 0 ∈ calls.map SystemCall.num := by
    rw [htable.tallied.keys, mem_firsts, entered_reader]
    exact mem_replicate.mpr ⟨hm, rfl⟩
  obtain ⟨row, hrow, hrownum⟩ := mem_map.mp hnum
  have hcalls : (entered ((reader m).map Prod.fst)).count row.num = m := by
    rw [hrownum, entered_reader, count_replicate_self]
  refine ⟨_, hsnoop, row, (mem_insertionSort _).mpr hrow, ?_, hcalls⟩
  rw [htable.tallied.counts row hrow, hcalls]

/-- `2 ^ 31` calls of `read` are more than an `int` can count. -/
theorem count_wraps : alternates false ((reader (2 ^ 31)).map Prod.fst) = true ∧
    (entered ((reader (2 ^ 31)).map Prod.fst)).dedup.length ≤ 1000 ∧
    ∃ table, snoop [] ((reader (2 ^ 31)).map (Prod.map Event.status id) ++
        [(.exited, ⟨0, 0⟩)]) = some table ∧
      ∃ row ∈ table, row.count = -2 ^ 31 ∧
        (entered ((reader (2 ^ 31)).map Prod.fst)).count row.num = 2 ^ 31 := by
  obtain ⟨table, hsnoop, row, hrow, hcount, hcalls⟩ := snoop_reader (m := 2 ^ 31) (by norm_num)
  have hwrap : toInt ((2 ^ 31 : Nat) : Int) = -2 ^ 31 := by
    simp [toInt_eq_bmod, Int.bmod]
  exact ⟨alternates_reader _, dedup_entered_reader _, table, hsnoop, row, hrow,
    hcount.trans hwrap, hcalls⟩

end CshellXv6.Shell.Snoop
