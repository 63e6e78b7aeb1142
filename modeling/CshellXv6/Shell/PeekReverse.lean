import CshellXv6.Shell.Peek

/-! # Reading a file backwards

The chunks make no difference to `print_rev`: it does what a scan of the file byte by
byte from its end does (`printRev_eq`). So the lines it writes are the lines of the
file, the last one first, but for one: an empty line at the beginning of the file has
no newline before it and leaves no tail, and is forgotten (`printRev_lines`).
-/

namespace CshellXv6.Shell.Peek

open Lib List

section

variable {n first : Bool} {size : ℕ+} {content chunk l : List UInt8} {s : RevScan} {c : Int}
  {j r pos : Nat} {b : UInt8} {ls : List (List UInt8)}

/-! ## Without chunks -/

/-- One byte, from the end; the tail is what has been read of the line so far. -/
def backStep (n : Bool) (b : UInt8) (s : RevScan) : RevScan :=
  if b = newline then { s.write n s.tail with tail := [] } else { s with tail := b :: s.tail }

/-- The state without the position in the chunk, when the chunk has been read down to
`j`. -/
def RevScan.at (s : RevScan) (chunk : List UInt8) (j : Nat) : RevScan :=
  { s with tail := (chunk.take s.stop).drop j ++ s.tail, stop := 0 }

/-- Writing a line does not look at the tail, or at the position. -/
lemma RevScan.write_of_eq (line t : List UInt8) (k : Nat) :
    { s with tail := t, stop := k }.write n line =
      { s.write n line with tail := t, stop := k } := by
  unfold RevScan.write
  split
  all_goals rfl

/-- One round of the loop over a chunk. -/
lemma at_step (hb : chunk[j]? = some b) (hj : j < s.stop) :
    (if chunk[j]? = some newline then s.found n chunk j else s).at chunk j =
      backStep n b (s.at chunk (j + 1)) := by
  obtain ⟨hlt, hget⟩ := List.getElem?_eq_some_iff.mp hb
  rw [hb]
  by_cases hnl : b = newline
  · have hpart : (chunk.drop (j + 1)).take (s.stop - (j + 1)) =
        (chunk.take s.stop).drop (j + 1) := by
      rw [drop_take]
    have hnone : (chunk.take j).drop j = [] := by
      rw [drop_eq_nil_iff, length_take]
      omega
    have hwrite := RevScan.write_of_eq (s := s) (n := n)
      ((chunk.take s.stop).drop (j + 1) ++ s.tail) ((chunk.take s.stop).drop (j + 1) ++ s.tail) 0
    rw [if_pos (by rw [hnl]), backStep, if_pos hnl, RevScan.found, hpart]
    simp only [RevScan.at, hnone, nil_append, hwrite]
  · have hnot : ¬ some b = some newline := fun h => hnl (Option.some.inj h)
    have hdrop : (chunk.take s.stop).drop j = b :: (chunk.take s.stop).drop (j + 1) := by
      rw [drop_eq_getElem_cons (by rw [length_take]; omega), getElem_take, hget]
    rw [if_neg hnot, backStep, if_neg hnl]
    simp only [RevScan.at, hdrop, cons_append]

lemma scanDown_at (hj : j ≤ s.stop) (hstop : s.stop ≤ chunk.length) :
    (scanDown n chunk j s).at chunk 0 = (chunk.take j).foldr (backStep n) (s.at chunk j) := by
  induction j generalizing s with
  | zero => rfl
  | succ j ih =>
    have hlt : j < chunk.length := by omega
    have hb := List.getElem?_eq_getElem hlt
    have hstop' : (if chunk[j]? = some newline then s.found n chunk j else s).stop ≤
        chunk.length ∧ j ≤ (if chunk[j]? = some newline then s.found n chunk j else s).stop := by
      split
      · exact ⟨hlt.le, le_refl j⟩
      · omega
    rw [scanDown, ih hstop'.2 hstop'.1, at_step hb hj, take_add_one, hb,
      Option.toList_some, foldr_append, foldr_cons, foldr_nil]

/-- After a chunk the tail is what has been read of the line. -/
lemma keep_at (s : RevScan) (chunk : List UInt8) :
    (s.keep chunk).tail = (s.at chunk 0).tail ∧ (s.keep chunk).curr = s.curr ∧
      (s.keep chunk).out = s.out := by
  unfold RevScan.keep
  split
  · exact ⟨rfl, rfl, rfl⟩
  next hstop =>
    have hzero : s.stop = 0 := by omega
    refine ⟨?_, rfl, rfl⟩
    simp [RevScan.at, hzero]

/-- The state at the beginning of a round. -/
def RevScan.bare (s : RevScan) : RevScan := { s with stop := 0 }

lemma keep_bare : (s.keep chunk).bare = s.at chunk 0 := by
  obtain ⟨htail, hcurr, hout⟩ := keep_at s chunk
  rw [RevScan.bare, htail, hcurr, hout]
  rfl

/-- What a round of `print_rev` reads of its chunk: all, or all but a newline at the end
of the file. -/
def body (first : Bool) (l : List UInt8) : List UInt8 := if first = true then chop newline l else l

lemma body_append (l : List UInt8) (h : chunk ≠ []) :
    body first (l ++ chunk) = l ++ body first chunk := by
  unfold body
  split
  · induction l with
    | nil => rfl
    | cons b l ih =>
      rw [cons_append, chop_cons_of_ne_nil (by simp [h]), ih, cons_append]
  · rfl

lemma take_stop (first : Bool) (hlen : chunk.length = r) :
    chunk.take (if first = true ∧ chunk[r - 1]? = some newline then r - 1 else r) =
      body first chunk := by
  have hlast : chunk[r - 1]? = chunk.getLast? := by
    rw [List.getLast?_eq_getElem?, hlen]
  unfold body chop
  rw [hlast, ← hlen]
  split
  next h => rw [if_pos h.1, if_pos h.2, dropLast_eq_take]
  next h =>
    rw [take_length]
    split
    next hf => rw [if_neg fun hl => h ⟨hf, hl⟩]
    · rfl

/-- The loop of `print_rev` is the scan without chunks. -/
lemma revLoop_bare (hpos : pos ≤ content.length) :
    (revLoop size n content pos first s).bare =
      (body first (content.take pos)).foldr (backStep n) s.bare := by
  induction pos using Nat.strong_induction_on generalizing first s with
  | _ pos ih =>
    rw [revLoop]
    split
    next hlt =>
      have hsize := size.pos
      dsimp only
      generalize hr : (if pos > size then size.val else pos) = r
      have hr' : 0 < r ∧ r ≤ pos := by
        split at hr
        all_goals omega
      have hchunk : ((content.drop (pos - r)).take r).length = r := by
        rw [length_take, length_drop]
        omega
      have hsplit : content.take pos =
          content.take (pos - r) ++ (content.drop (pos - r)).take r := by
        have hsum : pos = pos - r + r := by omega
        conv_lhs => rw [hsum]
        exact take_add
      generalize (content.drop (pos - r)).take r = chunk at hchunk hsplit
      have hne : chunk ≠ [] := ne_nil_of_length_pos (by omega)
      have hstop := take_stop first hchunk
      generalize hst : (if first = true ∧ chunk[r - 1]? = some newline then r - 1 else r) = stop
        at hstop
      have hle : stop ≤ chunk.length := by
        split at hst
        all_goals omega
      have hstart : ({ s with stop := stop } : RevScan).at chunk stop = s.bare := by
        simp [RevScan.at, RevScan.bare]
      have hbelow : body false (content.take (pos - r)) = content.take (pos - r) := rfl
      rw [ih (pos - r) (by omega) (by omega), keep_bare, scanDown_at (le_refl stop) hle,
        hstart, hstop, hsplit, body_append _ hne, foldr_append, hbelow]
    next hzero =>
      have hnil : pos = 0 := by omega
      rw [hnil, take_zero]
      cases first <;> rfl

/-- The last line that `print_rev` writes, if there is a tail. -/
def RevScan.finish (n : Bool) (s : RevScan) : List Piece :=
  if s.tail ≠ [] then (s.write n s.tail).out else s.out

lemma finish_bare : s.bare.finish n = s.finish n := by
  have hwrite : s.bare.write n s.tail = { s.write n s.tail with tail := s.tail, stop := 0 } :=
    RevScan.write_of_eq (s := s) s.tail s.tail 0
  unfold RevScan.finish
  have htail : s.bare.tail = s.tail := rfl
  rw [htail, hwrite]
  rfl

lemma printRev_eq : printRev size n c content =
    ((chop newline (content.take (toInt content.length).toNat)).foldr (backStep n)
      ⟨0, [], c, []⟩).finish n := by
  have hpos := toNat_toInt_le content.length
  unfold printRev
  dsimp only
  rw [← RevScan.finish, ← finish_bare, revLoop_bare hpos, body, if_pos rfl, RevScan.bare]

/-! ## The lines -/

lemma writeAll_append (ls : List (List UInt8)) (line : List UInt8) :
    writeAll n c (ls ++ [line]) = (writeAll n c ls).write n line := by
  rw [writeAll, writeAll, foldl_append]
  rfl

/-- The scan without chunks cuts the text into lines. -/
lemma foldr_backStep : l.foldr (backStep n) ⟨0, [], c, []⟩ =
    { writeAll n c (cutBack newline l).2 with tail := (cutBack newline l).1, stop := 0 } := by
  induction l with
  | nil => rfl
  | cons b l ih =>
    rw [foldr_cons, ih, backStep, cutBack_cons]
    split
    · rw [writeAll_append, RevScan.write_of_eq]
    · rfl

/-- The lines that `print_rev` writes, in that order: an empty line at the beginning of
the file is missing. -/
def reversed (content : List UInt8) : List (List UInt8) := chop [] (lines newline content).reverse

lemma reversed_eq (h : content ≠ []) : reversed content =
    (cutBack newline (chop newline content)).2 ++
      if (cutBack newline (chop newline content)).1 = [] then []
      else [(cutBack newline (chop newline content)).1] := by
  rw [reversed, lines, if_neg h, splitOn_eq_cutBack, reverse_cons, reverse_reverse, chop]
  generalize (cutBack newline (chop newline content)).1 = line
  by_cases hline : line = []
  all_goals simp [hline]

lemma finish_foldr (text : List UInt8) :
    ((chop newline text).foldr (backStep n) ⟨0, [], c, []⟩).finish n =
      (writeAll n c (reversed text)).out := by
  rw [foldr_backStep, RevScan.finish]
  by_cases hnil : text = []
  · subst hnil
    rfl
  rw [reversed_eq hnil]
  generalize (cutBack newline (chop newline text)).1 = line
  by_cases hline : line = []
  · simp [hline]
  · rw [if_pos hline, if_neg hline, writeAll_append, RevScan.write_of_eq]

/-- What `print_rev` writes. If the length of the file does not fit an `int`, it reads
some first part of the file, or nothing. -/
lemma printRev_written : printRev size n c content =
    (writeAll n c (reversed (content.take (toInt content.length).toNat))).out := by
  rw [printRev_eq, finish_foldr]

lemma printRev_lines (h : content.length < 2 ^ 31) :
    printRev size n c content = (writeAll n c (reversed content)).out := by
  rw [printRev_written, toInt_of_lt h, Int.toNat_natCast, take_length]

/-- The size of the chunks does not matter. -/
theorem chunks_irrelevant (h : content.length < 2 ^ 31) :
    (∀ whole : ℕ+, content.length ≤ whole →
      printRev chunkSize n c content = printRev whole n c content) ∧
    printRev chunkSize n c content = (writeAll n c (reversed content)).out := by
  refine ⟨fun whole _ => ?_, printRev_lines h⟩
  rw [printRev_lines h, printRev_lines h]

/-! ## Without numbers -/

/-- Lines that get no number. -/
lemma writeAll_unnumbered (h : ∀ line ∈ ls, ¬ (nonempty line = true ∧ n = true)) :
    writeAll n c ls = ⟨0, [], c, ls.map fun line => ⟨none, line ++ [newline]⟩⟩ := by
  induction ls using List.reverseRecOn with
  | nil => rfl
  | append_singleton ls line ih =>
    rw [writeAll_append, ih fun l hl => h l (mem_append_left _ hl), RevScan.write,
      if_neg (h line (by simp)), map_append]
    rfl

lemma writeAll_out (ls : List (List UInt8)) :
    (writeAll false c ls).out = ls.map fun line => ⟨none, line ++ [newline]⟩ := by
  rw [writeAll_unnumbered (by simp)]

/-- The bytes that are written. -/
lemma render_printRev : (printRev size false c content).flatMap Piece.render =
    (reversed (content.take (toInt content.length).toNat)).flatMap (· ++ [newline]) := by
  rw [printRev_written, writeAll_out, flatMap_map]
  rfl

lemma reversed_of_head (h : content.head? ≠ some newline) :
    reversed content = (lines newline content).reverse := by
  by_cases hnil : content = []
  · subst hnil
    rfl
  have hline : (cutBack newline (chop newline content)).1 ≠ [] := by
    rw [Ne, cutBack_fst_eq_nil, not_or]
    refine ⟨fun hchop => ?_, fun hhead => h (head?_chop hhead)⟩
    unfold chop at hchop
    split at hchop
    next hlast =>
      -- the file is a single newline
      have hone : content = [newline] := by
        rw [← dropLast_append_getLast? newline hlast, hchop]
        rfl
      exact h (by rw [hone]; rfl)
    · exact hnil hchop
  rw [reversed_eq hnil, if_neg hline, lines, if_neg hnil, splitOn_eq_cutBack, reverse_cons,
    reverse_reverse]

/-- An empty line at the beginning is missing. -/
lemma reversed_of_newline (h : content.head? = some newline) :
    (lines newline content).reverse = reversed content ++ [[]] := by
  have hnil : content ≠ [] := by
    rintro rfl
    cases h
  have hline : (cutBack newline (chop newline content)).1 = [] := by
    rw [cutBack_fst_eq_nil]
    cases content with
    | nil => exact absurd rfl hnil
    | cons b l =>
      by_cases hl : l = []
      · subst hl
        left
        rw [Option.some.inj h]
        rfl
      · right
        rw [chop_cons_of_ne_nil hl]
        exact h
  rw [reversed_eq hnil, if_pos hline, lines, if_neg hnil, splitOn_eq_cutBack, reverse_cons,
    reverse_reverse, hline, append_nil]

lemma length_lines_le (content : List UInt8) : content.length ≤
    ((lines newline content).reverse.flatMap (· ++ [newline])).length ∧
    ((reversed content).flatMap (· ++ [newline])).length ≤ content.length + 1 := by
  by_cases hnil : content = []
  · subst hnil
    exact ⟨Nat.zero_le _, Nat.zero_le _⟩
  have hchop := length_chop newline content
  have hlen := length_cutBack newline (chop newline content)
  rw [reversed_eq hnil, lines, if_neg hnil, splitOn_eq_cutBack, reverse_cons, reverse_reverse]
  constructor
  · simp only [flatMap_append, flatMap_singleton, length_append, length_singleton]
    omega
  split
  · simp only [append_nil]
    omega
  simp only [flatMap_append, flatMap_singleton, length_append, length_singleton]
  omega

/-- `peek -r` reverses a file exactly if its length fits an `int` and its first line is
not empty. -/
theorem reverses_iff : (printRev chunkSize false c content).flatMap Piece.render =
      (lines newline content).reverse.flatMap (· ++ [newline]) ↔
    content.length < 2 ^ 31 ∧ content.head? ≠ some newline := by
  rw [render_printRev]
  by_cases hlen : content.length < 2 ^ 31
  · rw [toInt_of_lt hlen, Int.toNat_natCast, take_length]
    by_cases hhead : content.head? = some newline
    · rw [reversed_of_newline hhead]
      simp [hhead]
    · rw [reversed_of_head hhead]
      exact iff_of_true rfl ⟨hlen, hhead⟩
  -- the end of the file is out of reach
  have hshort : (toInt content.length).toNat + 1 < content.length := by
    rw [toInt_eq_bmod, Int.bmod]
    split <;> omega
  have hleft := (length_lines_le (content.take (toInt content.length).toNat)).2
  have hright := (length_lines_le content).1
  rw [length_take] at hleft
  constructor
  · intro heq
    rw [heq] at hleft
    omega
  · intro h
    exact absurd h.1 hlen

end

variable {line : List UInt8}

/-- The lines `"b"` and `line`, the last one first. -/
lemma writeAll_two_lines (hline : newline ∉ line) (hvisible : nonempty line = true) :
    (writeAll true 2 (reversed ([98, newline] ++ line))).out =
      [⟨some 2, line ++ [newline]⟩, ⟨some 1, [98, newline]⟩] := by
  have hne : line ≠ [] := by
    rintro rfl
    cases hvisible
  have hlast : ([98, newline] ++ line).getLast? ≠ some newline := by
    rw [getLast?_append_of_ne_nil _ hne]
    exact fun h => hline (mem_of_getLast? h)
  have hlines : lines newline ([98, newline] ++ line) = [[98], line] := by
    rw [lines, if_neg (by simp), chop, if_neg hlast]
    have hsplit : ([newline].intercalate [[98], line]).splitOn newline = [[98], line] :=
      splitOn_intercalate newline (by simpa using ⟨by decide, hline⟩) (by simp)
    rwa [intercalate_cons_cons, intercalate_singleton, append_assoc] at hsplit
  have hsecond : nonempty [98] = true := by decide
  rw [reversed, hlines]
  simp [chop, writeAll, RevScan.write, hvisible, hsecond]
  decide

/-- Two lines, the second of 5000 bytes: it begins in the chunk that is read last. -/
theorem chunks_irrelevant_two_lines :
    printRev chunkSize true 2 ([98, newline] ++ replicate 5000 97) =
      printRev 5002 true 2 ([98, newline] ++ replicate 5000 97) ∧
    printRev chunkSize true 2 ([98, newline] ++ replicate 5000 97) =
      [⟨some 2, replicate 5000 97 ++ [newline]⟩, ⟨some 1, [98, newline]⟩] := by
  have hlen : ([98, newline] ++ replicate 5000 97 : List UInt8).length = 5002 := by
    rw [length_append, length_replicate]
    rfl
  obtain ⟨hwhole, hout⟩ := chunks_irrelevant (n := true) (c := 2) (hlen.trans_lt (by decide))
  refine ⟨hwhole 5002 hlen.le, hout.trans (writeAll_two_lines ?_ ?_)⟩
  · exact fun h => absurd (eq_of_mem_replicate h) (by decide)
  · exact any_eq_true.mpr ⟨97, mem_replicate.mpr ⟨by decide, rfl⟩, by decide⟩

/-- The file `"\nab"`: the empty first line is missing. -/
theorem first_line_lost :
    (printRev chunkSize false 0 [10, 97, 98]).flatMap Piece.render = [97, 98, 10] ∧
    (lines newline [10, 97, 98]).reverse.flatMap (· ++ [newline]) = [97, 98, 10, 10] := by
  rw [render_printRev]
  decide

end CshellXv6.Shell.Peek
