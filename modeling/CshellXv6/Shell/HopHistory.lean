import CshellXv6.Shell.Hop

/-! # The history of `hop` as its readers see it

When `new_rec` and `frecency` come to the end of a history file, and what they find in a file
that `new_rec` has written. The file is a table with one record for each directory
(`Lib.Tally`), kept in a text.
-/

namespace CshellXv6.Shell.Hop

open Lib List Option

/-- The record in a line, for `new_rec`. -/
def record (line : List Char) : Option Rec :=
  (fields line).bind fun f => f.2.2.map (toRec f.1 f.2.1)

def records (content : List Char) : List Rec := (fgetsLines content).filterMap record

/-- A line with two fields has a path too. -/
def Whole (line : List Char) : Prop := (fields line).isSome → (record line).isSome

/-- The records in the file, for `frecency`. -/
def entries (content : List Char) : List Rec := (fgetsLines content).filterMap scanEntry

/-- Those whose path contains the name. -/
def matching (dest content : List Char) : List Rec :=
  (entries content).filter fun e => dest <:+: e.path

section

variable {lines : List (List Char)} {line dest destpath content : List Char}
  {data found out : List Rec} {now : Int} {qsort : Qsort} {chdir : List Char → Option (List Char)}

/-! ## Coming to the end -/

lemma record_of_path {freq time path : List Char} (h : fields line = some (freq, time, some path)) :
    record line = some (toRec freq time path) := by
  rw [record, h]
  rfl

lemma record_of_none (h : fields line = none) : record line = none := by
  rw [record, h]
  rfl

lemma readData_eq_some_iff (hdata : data.length ≤ 1000) : readData lines data = some out ↔
    (∀ line ∈ lines, Whole line) ∧ data.length + (lines.filterMap record).length ≤ 1000 ∧
      data ++ lines.filterMap record = out := by
  induction lines generalizing data with
  | nil => simp [readData, hdata]
  | cons line lines ih =>
    rw [readData, forall_mem_cons]
    cases hfields : fields line with
    | none =>
      have hwhole : Whole line := by
        intro h
        rw [hfields] at h
        cases h
      rw [filterMap_cons_none (record_of_none hfields)]
      simp only [hwhole, true_and]
      exact ih hdata
    | some f =>
      obtain ⟨freq, time, path⟩ := f
      dsimp only
      cases path with
      | none =>
        -- the path is missing, and used
        have hnot : ¬ Whole line := by
          intro h
          have hrecord := h (by rw [hfields]; rfl)
          rw [record, hfields] at hrecord
          cases hrecord
        simp [hnot]
      | some path =>
        have hrecord := record_of_path hfields
        have hwhole : Whole line := by
          intro _
          rw [hrecord]
          rfl
        rw [filterMap_cons_some hrecord, bind_some]
        by_cases hlt : data.length < 1000
        · rw [if_pos hlt, ih (by rw [length_append, length_singleton]; omega),
            length_append, length_singleton, append_assoc,
            singleton_append, length_cons]
          simp only [hwhole, true_and]
          rw [Nat.add_right_comm, Nat.add_assoc data.length]
        rw [if_neg hlt]
        constructor
        · intro h
          cases h
        rintro ⟨-, hle, -⟩
        rw [length_cons] at hle
        omega

lemma readMatches_eq_some_iff (hfound : found.length ≤ 1000) :
    readMatches dest lines found = some out ↔
      found.length + ((lines.filterMap scanEntry).filter fun e => dest <:+: e.path).length ≤ 1000 ∧
      found ++ ((lines.filterMap scanEntry).filter fun e => dest <:+: e.path) = out := by
  induction lines generalizing found with
  | nil => simp [readMatches, hfound]
  | cons line lines ih =>
    rw [readMatches]
    cases hentry : scanEntry line with
    | none =>
      rw [filterMap_cons_none hentry]
      exact ih hfound
    | some entry =>
      rw [filterMap_cons_some hentry]
      dsimp only
      by_cases hmatch : dest <:+: entry.path
      · rw [if_pos hmatch, filter_cons_of_pos (by simpa using hmatch), length_cons]
        by_cases hlt : found.length < 1000
        · rw [if_pos hlt, ih (by rw [length_append, length_singleton]; omega),
            length_append, length_singleton, append_assoc,
            singleton_append, Nat.add_right_comm, Nat.add_assoc found.length]
        rw [if_neg hlt]
        constructor
        · intro h
          cases h
        · rintro ⟨hle, -⟩
          omega
      · rw [if_neg hmatch, filter_cons_of_neg (by simpa using hmatch)]
        exact ih hfound

lemma newRec_eq_some_iff {history : Option (List Char)} {text : List Char} :
    newRec history destpath now = some text ↔ (∀ line ∈ fgetsLines (history.getD []), Whole line) ∧
      (records (history.getD [])).length ≤ 1000 ∧
      (destpath ∈ (records (history.getD [])).map Rec.path ∨
        (records (history.getD [])).length < 1000) ∧
      write (count destpath now (records (history.getD []))) = text := by
  rw [newRec, bind_eq_some_iff]
  constructor
  · rintro ⟨data, hdata, hwrite⟩
    obtain ⟨hwhole, hle, rfl⟩ := (readData_eq_some_iff (Nat.zero_le _)).mp hdata
    rw [nil_append] at hwrite
    rw [length_nil, Nat.zero_add] at hle
    split at hwrite
    next hroom => exact ⟨hwhole, hle, hroom, Option.some.inj hwrite⟩
    · cases hwrite
  · rintro ⟨hwhole, hle, hroom, hwrite⟩
    refine ⟨_, (readData_eq_some_iff (Nat.zero_le _)).mpr ⟨hwhole, ?_, rfl⟩, ?_⟩
    · rwa [length_nil, Nat.zero_add]
    · rw [nil_append, ← hwrite]
      exact if_pos hroom

lemma isSome_frecency_iff :
    (frecency (some content) dest now qsort chdir).isSome ↔
      (matching dest content).length ≤ 1000 := by
  rw [frecency, isSome_map, isSome_iff_exists]
  constructor
  · rintro ⟨found, hfound⟩
    have hle := ((readMatches_eq_some_iff (Nat.zero_le _)).mp hfound).1
    rwa [length_nil, Nat.zero_add] at hle
  intro hle
  refine ⟨_, (readMatches_eq_some_iff (Nat.zero_le _)).mpr ⟨?_, rfl⟩⟩
  rwa [length_nil, Nat.zero_add]

end

/-- **When the readers come to the end.** For every content of the file, every directory
that has been entered and every name that is looked for: no field that is missing is used and
no element after the last one, exactly if each line with two fields has a path, there are at
most 1000 such lines, fewer if the directory is not among them, and the name is in at most 1000
paths. -/
theorem readers_complete_iff (content destpath dest : List Char) (now : Int) (qsort : Qsort)
    (chdir : List Char → Option (List Char)) :
    (newRec (some content) destpath now).isSome ∧
      (frecency (some content) dest now qsort chdir).isSome ↔
    (∀ line ∈ fgetsLines content, Whole line) ∧ (records content).length ≤ 1000 ∧
      (destpath ∈ (records content).map Rec.path ∨ (records content).length < 1000) ∧
      (matching dest content).length ≤ 1000 := by
  rw [isSome_frecency_iff, isSome_iff_exists]
  constructor
  · rintro ⟨⟨text, htext⟩, hmatches⟩
    obtain ⟨hwhole, hle, hroom, -⟩ := newRec_eq_some_iff.mp htext
    exact ⟨hwhole, hle, hroom, hmatches⟩
  · rintro ⟨hwhole, hle, hroom, hmatches⟩
    exact ⟨⟨_, newRec_eq_some_iff.mpr ⟨hwhole, hle, hroom, rfl⟩⟩, hmatches⟩

/-- The line `1 2` has no path; `strncpy` is called with a null pointer. -/
theorem newRec_uses_missing_path : newRec (some "1 2\n".toList) "/a".toList 0 = none := by
  decide

/-! ## Reading what was written -/

/-- A record that `new_rec` can write: the numbers are of type `int`, and the path is one that
the system allows. -/
structure Rec.Writable (r : Rec) : Prop where
  num_low : -2 ^ 31 ≤ r.num
  num_high : r.num < 2 ^ 31
  time_low : -2 ^ 31 ≤ r.time
  time_high : r.time < 2 ^ 31
  absolute : r.path.head? = some '/'
  no_zero : '\x00' ∉ r.path
  short : r.path.length < 4000

section

variable {r : Rec} {rs : List Rec} {path rest : List Char} {c : Char} {k : Int}

lemma not_mem_showInt (h : Lib.isspace c = true) : c ∉ showInt k := by
  intro hc
  rw [isspace_of_mem_showInt hc] at h
  cases h

lemma blank_of_mem_showInt (h : c ∈ showInt k) : blank c = false := by
  have hspace := isspace_of_mem_showInt h
  simp only [Lib.isspace, Bool.or_eq_false_iff, decide_eq_false_iff_not] at hspace
  simp [blank, hspace]

lemma no_zero_showInt (k : Int) : '\x00' ∉ showInt k := by
  intro h
  unfold showInt at h
  split at h
  · rcases mem_cons.mp h with heq | h
    · cases heq
    · exact absurd (isDigit_of_mem_toDigits h) (by decide)
  · exact absurd (isDigit_of_mem_toDigits h) (by decide)

/-- Nothing is skipped before an absolute path. -/
lemma dropWhile_of_absolute {skip : Char → Bool} (h : path.head? = some '/')
    (hskip : skip '/' = false) : (path ++ rest).dropWhile skip = path ++ rest := by
  cases path with
  | nil => cases h
  | cons c path =>
    obtain rfl := Option.some.inj h
    simp [hskip]

lemma Rec.Writable.path_ne_nil (h : r.Writable) : r.path ≠ [] := by
  intro hnil
  have habsolute := h.absolute
  rw [hnil] at habsolute
  cases habsolute

lemma Rec.Writable.length_line (h : r.Writable) : r.line.length < pathMax - 1 := by
  have hnum := length_showInt_le h.num_low h.num_high
  have htime := length_showInt_le h.time_low h.time_high
  have hpath := h.short
  rw [Rec.line, length_append, length_cons, length_append, length_cons]
  have hmax : pathMax = 4096 := rfl
  omega

lemma newline_notMem_line (h : '\n' ∉ r.path) : '\n' ∉ r.line := by
  have hnum : '\n' ∉ showInt r.num := not_mem_showInt rfl
  have htime : '\n' ∉ showInt r.time := not_mem_showInt rfl
  simp [Rec.line, hnum, htime, h]

lemma Rec.Writable.zero_notMem_line (h : r.Writable) : '\x00' ∉ r.line ++ ['\n'] := by
  simp [Rec.line, no_zero_showInt, h.no_zero]

/-- The lines of the file. -/
lemma fgetsLines_write (hrs : ∀ r ∈ rs, r.Writable) (hline : ∀ r ∈ rs, '\n' ∉ r.path) :
    fgetsLines (write rs) = rs.map fun r => r.line ++ ['\n'] := by
  have hwrite : write rs = (rs.map Rec.line).flatMap fun l => l ++ ['\n'] := by
    rw [write, flatMap_map]
  have hfits : ∀ l ∈ rs.map Rec.line, '\n' ∉ l ∧ l.length < pathMax - 1 := by
    intro l hl
    obtain ⟨r, hr, rfl⟩ := List.mem_map.mp hl
    exact ⟨newline_notMem_line (hline r hr), (hrs r hr).length_line⟩
  rw [fgetsLines, hwrite, pieces_flatMap hfits, List.map_map, List.map_map]
  refine map_congr_left fun r hr => ?_
  refine takeWhile_eq_self_iff.mpr fun c hc => ?_
  have hzero : c ≠ '\x00' := fun h => (hrs r hr).zero_notMem_line (h ▸ hc)
  simpa using hzero

lemma record_line (h : r.Writable) (hr : '\r' ∉ r.path) (hn : '\n' ∉ r.path) :
    record (r.line ++ ['\n']) = some r := by
  have hnum : ∀ rest, strtok blank (showInt r.num ++ ' ' :: rest) = some (showInt r.num, rest) :=
    fun rest => strtok_append (showInt_ne_nil _) (fun _ => blank_of_mem_showInt) rfl
  have htime : ∀ rest, strtok blank (showInt r.time ++ ' ' :: rest) = some (showInt r.time, rest) :=
    fun rest => strtok_append (showInt_ne_nil _) (fun _ => blank_of_mem_showInt) rfl
  have hpath : strtok lineEnd (r.path ++ ['\n']) = some (r.path, []) := by
    refine strtok_append h.path_ne_nil (fun c hc => ?_) rfl
    have hcr : c ≠ '\r' := fun heq => hr (heq ▸ hc)
    have hlf : c ≠ '\n' := fun heq => hn (heq ▸ hc)
    simp [lineEnd, hcr, hlf]
  have hfields : fields (r.line ++ ['\n']) =
      some (showInt r.num, showInt r.time, some r.path) := by
    rw [Rec.line, append_assoc, cons_append, append_assoc, cons_append, fields,
      hnum, bind_some, htime, map_some, hpath]
    rfl
  have hskip : (r.path ++ []).dropWhile blank = r.path ++ [] :=
    dropWhile_of_absolute h.absolute rfl
  rw [append_nil] at hskip
  have hshort : r.path.length ≤ pathMax - 1 := by
    have hlt := h.short
    have hmax : pathMax = 4096 := rfl
    omega
  rw [record_of_path hfields, toRec, atoi_showInt h.num_low h.num_high,
    atoi_showInt h.time_low h.time_high, hskip, take_of_length_le hshort]

lemma scanEntry_line (h : r.Writable) (hn : '\n' ∉ r.path) :
    scanEntry (r.line ++ ['\n']) = some r := by
  have hdigit : ∀ (rest : List Char) c, (' ' :: rest).head? = some c → c.isDigit = false := by
    rintro rest c hc
    obtain rfl := Option.some.inj hc
    decide
  have hskip : (' ' :: (r.path ++ ['\n'])).dropWhile Lib.isspace = r.path ++ ['\n'] := by
    rw [dropWhile_cons_of_pos rfl]
    exact dropWhile_of_absolute h.absolute rfl
  have htake : ((r.path ++ ['\n']).takeWhile fun c => c ≠ '\n') = r.path := by
    have hall : ∀ c ∈ r.path, (decide (c ≠ '\n')) = true := fun c hc => by
      simpa using fun heq : c = '\n' => hn (heq ▸ hc)
    rw [takeWhile_append_of_pos hall]
    simp
  rw [Rec.line, append_assoc, cons_append, append_assoc, cons_append,
    scanEntry, scanInt_showInt h.num_low h.num_high (hdigit _), bind_some,
    scanInt_cons_of_isspace rfl, scanInt_showInt h.time_low h.time_high (hdigit _),
    bind_some, hskip, htake, if_neg h.path_ne_nil]

/-- The path of a record that `new_rec` reads is a token. -/
lemma no_lineEnd_of_record {line : List Char} (h : record line = some r) :
    ∀ c ∈ r.path, lineEnd c = false := by
  rw [record] at h
  obtain ⟨⟨freq, time, path⟩, hfields, hpath⟩ := bind_eq_some_iff.mp h
  obtain ⟨token, rfl, rfl⟩ := map_eq_some_iff.mp hpath
  rw [fields] at hfields
  obtain ⟨⟨freq', rest⟩, -, htime⟩ := bind_eq_some_iff.mp hfields
  obtain ⟨⟨time', rest'⟩, -, heq⟩ := map_eq_some_iff.mp htime
  obtain ⟨-, hrest⟩ := Prod.mk.inj heq
  obtain ⟨-, htoken⟩ := Prod.mk.inj hrest
  obtain ⟨⟨token', rest''⟩, hstrtok, rfl⟩ := map_eq_some_iff.mp htoken
  intro c hc
  -- blanks in front are skipped, and what is too long is cut off
  exact not_delim_of_mem_strtok hstrtok c (dropWhile_subset _ (mem_of_mem_take hc))

/-- Both readers find the records that were written. -/
lemma readers_of_write (hlen : rs.length ≤ 1000) (hrs : ∀ r ∈ rs, r.Writable)
    (hclean : ∀ r ∈ rs, '\r' ∉ r.path ∧ '\n' ∉ r.path) :
    readData (fgetsLines (write rs)) [] = some rs ∧ entries (write rs) = rs := by
  have hlines := fgetsLines_write hrs fun r hr => (hclean r hr).2
  have hrecord : ∀ r ∈ rs, record (r.line ++ ['\n']) = some r := fun r hr =>
    record_line (hrs r hr) (hclean r hr).1 (hclean r hr).2
  have hrecords : (fgetsLines (write rs)).filterMap record = rs := by
    rw [hlines, filterMap_map]
    exact (filterMap_congr hrecord).trans filterMap_some
  constructor
  · refine (readData_eq_some_iff (Nat.zero_le _)).mpr ⟨?_, ?_, ?_⟩
    · intro line hline _
      rw [hlines] at hline
      obtain ⟨r, hr, rfl⟩ := List.mem_map.mp hline
      rw [hrecord r hr]
      rfl
    · rw [hrecords, length_nil, Nat.zero_add]
      exact hlen
    · rw [hrecords, nil_append]
  · rw [entries, hlines, filterMap_map]
    have hscan : ∀ r ∈ rs, scanEntry (r.line ++ ['\n']) = some r := fun r hr =>
      scanEntry_line (hrs r hr) (hclean r hr).2
    exact (filterMap_congr hscan).trans filterMap_some

end

/-- **When the readers agree with the writer.** For every list of records that `new_rec` can
write: both readers give back the list exactly if no path has a carriage return or a
newline in it. -/
theorem readers_agree_iff (rs : List Rec) (hlen : rs.length ≤ 1000) (hrs : ∀ r ∈ rs, r.Writable) :
    readData (fgetsLines (write rs)) [] = some rs ∧ entries (write rs) = rs ↔
      ∀ r ∈ rs, '\r' ∉ r.path ∧ '\n' ∉ r.path := by
  constructor
  · rintro ⟨hread, -⟩ r hr
    obtain ⟨-, -, hrecords⟩ := (readData_eq_some_iff (Nat.zero_le _)).mp hread
    rw [← hrecords, nil_append] at hr
    obtain ⟨line, -, hrecord⟩ := mem_filterMap.mp hr
    have htoken := no_lineEnd_of_record hrecord
    constructor
    · intro hmem
      cases htoken '\r' hmem
    · intro hmem
      cases htoken '\n' hmem
  · exact readers_of_write hlen hrs

/-- One record, whose path has blanks in it. -/
def sampleRec : Rec := ⟨3, -5, "/a \tb".toList⟩

lemma writable_sampleRec : sampleRec.Writable := by
  constructor <;> decide

theorem readers_agree_blanks : readData (fgetsLines (write [sampleRec])) [] = some [sampleRec] ∧
    entries (write [sampleRec]) = [sampleRec] := by
  refine (readers_agree_iff [sampleRec] (by decide) ?_).mpr ?_
  · exact forall_mem_singleton.mpr writable_sampleRec
  · decide

/-- `new_rec` counts a first visit to a directory whose name has a carriage return in it.
Reading the file, it finds another directory; `frecency` finds the right one. -/
theorem readers_differ_at_carriage_return :
    newRec none "/a\rb".toList 7 = some "1 7 /a\rb\n".toList ∧
    records "1 7 /a\rb\n".toList = [⟨1, 7, "/a".toList⟩] ∧
    entries "1 7 /a\rb\n".toList = [⟨1, 7, "/a\rb".toList⟩] := by
  decide

end CshellXv6.Shell.Hop
