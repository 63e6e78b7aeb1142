import CshellXv6.Shell.HopRuns

/-! # The history counts the visits

The history after a sequence of hops is the tally (`Lib.Tallied`) of the directories that were
reached: the file holds their records, and the records are those the next reader finds.
-/

namespace CshellXv6.Shell.Hop

open Lib List

/-- A sequence of hops that succeed, none of them `hop .`, and the directories they reach. What
is asked of the hops after the first one is asked for the state in which it leaves the shell. -/
inductive Successful (home_shell : List Char) :
    List (List Char × Answers) → State → List (List Char) → Prop
  | nil (s : State) : Successful home_shell [] s []
  | cons {input : List Char} {ans : Answers} {rest : List (List Char × Answers)} {s : State}
      {dest : List Char} {dests : List (List Char)} (hcurr : ans.curr = true)
      (hnext : ans.next = true) (hdot : input ≠ ['.'])
      (htarget : target home_shell ans input s = some dest)
      (hrest : ∀ s' r, hopto home_shell ans input s = some (s', r) →
        Successful home_shell rest s' dests) :
      Successful home_shell ((input, ans) :: rest) s (dest :: dests)

/-- An absolute path without line ends, which is not too long. -/
structure Recordable (path : List Char) : Prop where
  absolute : path.head? = some '/'
  no_zero : '\x00' ∉ path
  no_return : '\r' ∉ path
  no_newline : '\n' ∉ path
  short : path.length < 4000

/-- The history is that of these visits, of which there may be more to come. -/
structure Kept (visits : List (List Char)) (s : State) (rs : List Rec) : Prop where
  file : s.history.getD [] = write rs
  tallied : Tallied Rec.path Rec.num (fun n : ℕ => toInt n) visits rs
  writable : ∀ r ∈ rs, r.Writable
  clean : ∀ r ∈ rs, '\r' ∉ r.path ∧ '\n' ∉ r.path

section

variable {home dest : List Char} {visits dests : List (List Char)} {s s' : State} {rs : List Rec}
  {now : Int} {r : Rec} {steps : List (List Char × Answers)}

lemma Kept.length (h : Kept visits s rs) : rs.length = (firsts visits).length := by
  rw [← h.tallied.keys, length_map]

/-- The readers find the records. -/
lemma Kept.readers (h : Kept visits s rs) (hlen : (firsts visits).length ≤ 1000) :
    readData (fgetsLines (s.history.getD [])) [] = some rs ∧ entries (s.history.getD []) = rs := by
  rw [h.file]
  exact readers_of_write (h.length ▸ hlen) h.writable h.clean

lemma Kept.records_eq (h : Kept visits s rs) (hlen : (firsts visits).length ≤ 1000) :
    records (s.history.getD []) = rs := by
  obtain ⟨-, -, hrecords⟩ := (readData_eq_some_iff (Nat.zero_le _)).mp (h.readers hlen).1
  exact hrecords

lemma Kept.canCount (h : Kept visits s rs)
    (hlen : (firsts (visits ++ [dest])).length ≤ 1000) : CanCount s.history dest := by
  have hle := Nat.le_trans (length_firsts_le visits [dest]) hlen
  obtain ⟨hwhole, -, -⟩ := (readData_eq_some_iff (Nat.zero_le _)).mp (h.readers hle).1
  rw [CanCount, h.records_eq hle, h.length]
  refine ⟨hwhole, hle, ?_⟩
  by_cases hdest : dest ∈ visits
  · left
    rw [h.tallied.keys]
    exact mem_firsts.mpr hdest
  right
  rw [firsts_append_of_notMem hdest, length_append, length_singleton] at hlen
  omega

/-- One more visit. -/
lemma Kept.count (h : Kept visits s rs) (hdest : Recordable dest)
    (hfile : s'.history = some (write (count dest now rs))) :
    Kept (visits ++ [dest]) s' (count dest now rs) where
  file := by rw [hfile, Option.getD_some]
  tallied := by
    refine h.tallied.upsert (fun _ => rfl) rfl ?_ ?_
    · intro r m hm
      show toInt (r.num + 1) = toInt ((m + 1 : ℕ) : Int)
      rw [hm, toInt_toInt_add]
      rfl
    · exact (toInt_of_lt (by decide)).symm
  writable := by
    refine forall_mem_upsert h.writable ?_ ?_
    · intro r hr
      exact ⟨le_toInt _, toInt_lt _, le_toInt _, toInt_lt _, hr.absolute, hr.no_zero, hr.short⟩
    · exact ⟨by simp, by simp, le_toInt _, toInt_lt _, hdest.absolute, hdest.no_zero, hdest.short⟩
  clean := forall_mem_upsert h.clean (fun r hr => hr) ⟨hdest.no_return, hdest.no_newline⟩

/-- The whole sequence has a result, and its visits are counted. -/
lemma Kept.hops (hrun : Successful home steps s dests) (h : Kept visits s rs)
    (hpaths : ∀ d ∈ dests, Recordable d) (hlen : (firsts (visits ++ dests)).length ≤ 1000) :
    ∃ s' rs', Hop.hops home steps s = some s' ∧ Kept (visits ++ dests) s' rs' := by
  induction hrun generalizing visits rs with
  | nil s => exact ⟨s, rs, rfl, by rwa [append_nil]⟩
  | @cons input ans rest s dest dests hcurr hnext hdot htarget _ ih =>
    obtain ⟨hdest, hpaths⟩ := forall_mem_cons.mp hpaths
    rw [append_cons] at hlen ⊢
    have hone := Nat.le_trans (length_firsts_le (visits ++ [dest]) dests) hlen
    have hhop := hopto_of_target hcurr hnext hdot htarget (h.canCount hone)
    rw [h.records_eq (Nat.le_trans (length_firsts_le visits [dest]) hone)] at hhop
    obtain ⟨s', rs', hrest, hkept⟩ := ih _ _ hhop (h.count hdest rfl) hpaths hlen
    refine ⟨s', rs', ?_, hkept⟩
    rw [Hop.hops, hhop]
    exact hrest

end

/-- **The history counts the visits.** After every sequence of successful hops without
`hop .`, from a state without a history file, to at most 1000 directories with paths of fewer
than 4000 bytes without line ends, each visited fewer than 2^31 times: both readers find one
record for each directory that was reached, in the order of the first visits, with the number
of hops that ended there. -/
theorem history_counts_visits (home_shell : List Char) (steps : List (List Char × Answers))
    (s : State) (dests : List (List Char)) (hrun : Successful home_shell steps s dests)
    (hstart : s.history = none) (hpaths : ∀ d ∈ dests, Recordable d)
    (hdistinct : dests.dedup.length ≤ 1000) (hvisits : ∀ d ∈ dests, dests.count d < 2 ^ 31) :
    ∃ s' rs, hops home_shell steps s = some s' ∧
      readData (fgetsLines (s'.history.getD [])) [] = some rs ∧
      entries (s'.history.getD []) = rs ∧
      (rs.map Rec.path).Nodup ∧ (∀ d, d ∈ rs.map Rec.path ↔ d ∈ dests) ∧
      (rs.map Rec.path).Pairwise (fun d d' => dests.idxOf d < dests.idxOf d') ∧
      ∀ r ∈ rs, r.num = dests.count r.path := by
  have hlen : (firsts dests).length ≤ 1000 := by
    rw [(firsts_perm_dedup dests).length_eq]
    exact hdistinct
  have hempty : Kept [] s [] := by
    refine ⟨?_, Tallied.nil, ?_, ?_⟩
    · rw [hstart]
      rfl
    all_goals simp
  obtain ⟨s', rs, hhops, hkept⟩ := hempty.hops hrun hpaths (by rwa [nil_append])
  rw [nil_append] at hkept
  obtain ⟨hread, hentries⟩ := hkept.readers hlen
  refine ⟨s', rs, hhops, hread, hentries, ?_⟩
  rw [hkept.tallied.keys]
  -- the tally compares paths by its own instance
  have hbeq : (instBEqOfDecidableEq : BEq (List Char)) = List.instBEq :=
    lawful_beq_subsingleton _ _
  have horder := pairwise_firsts dests
  have hcounts := hkept.tallied.counts
  rw [hbeq] at horder hcounts
  refine ⟨nodup_firsts dests, fun d => mem_firsts, horder, fun r hr => ?_⟩
  have hpath : r.path ∈ dests := by
    rw [← mem_firsts, ← hkept.tallied.keys]
    exact mem_map_of_mem hr
  rw [hcounts r hr, toInt_of_lt (hvisits r.path hpath)]

/-- There and back, and there again: two visits to `/a` and one to `/`. -/
theorem history_counts_back :
    ∃ s' rs, hops ['/'] sampleHops sampleState = some s' ∧ entries (s'.history.getD []) = rs ∧
      ∀ r ∈ rs, r.num = [['/', 'a'], ['/'], ['/', 'a']].count r.path := by
  have hthere : hopto ['/'] sampleAnswers ['a'] sampleState =
      some (⟨['/', 'a'], ['/'], some "1 0 /a\n".toList⟩, .ok) := by decide
  have hback : hopto ['/'] sampleAnswers ['-'] ⟨['/', 'a'], ['/'], some "1 0 /a\n".toList⟩ =
      some (⟨['/'], ['/', 'a'], some "1 0 /a\n1 0 /\n".toList⟩, .ok) := by decide
  have hrun : Successful ['/'] sampleHops sampleState [['/', 'a'], ['/'], ['/', 'a']] := by
    refine .cons rfl rfl (by decide) (by decide) fun s' r hhop => ?_
    obtain ⟨rfl, rfl⟩ := Prod.mk.inj (Option.some.inj (hthere.symm.trans hhop))
    refine .cons rfl rfl (by decide) (by decide) fun s' r hhop => ?_
    obtain ⟨rfl, rfl⟩ := Prod.mk.inj (Option.some.inj (hback.symm.trans hhop))
    exact .cons rfl rfl (by decide) (by decide) fun s' _ _ => .nil s'
  have hpaths : ∀ d ∈ [['/', 'a'], ['/'], ['/', 'a']], Recordable d := by
    intro d hd
    simp only [mem_cons, not_mem_nil, or_false] at hd
    rcases hd with rfl | rfl | rfl
    all_goals constructor <;> decide
  obtain ⟨s', rs, hhops, -, hentries, -, -, -, hcounts⟩ :=
    history_counts_visits ['/'] _ sampleState _ hrun rfl hpaths (by decide) (by decide)
  exact ⟨s', rs, hhops, hentries, hcounts⟩

end CshellXv6.Shell.Hop
