import CshellXv6.Lib.Lists
import CshellXv6.Shell.PeekNumbers
import Mathlib.Data.List.TakeWhile

/-! # `peek -r` of the standard input and of a file

The lines of the standard input are kept as strings, without a newline at their end and a
carriage return before it (`buff`); a file is read from its end as it is. Both write the same
bytes if the strings are the lines, and the first line is not empty.
-/

namespace CshellXv6.Shell.Peek

open Lib List

/-- What is written to the standard output. -/
def Event.bytes : Event → List UInt8
  | .line piece => piece.render
  | .error _ => []

def bytes (outs : List (List Event)) : List UInt8 := outs.flatten.flatMap Event.bytes

/-- A line without a zero byte, whose last byte but one is no carriage return. -/
def Plain (line : List UInt8) : Prop := 0 ∉ line ∧ line.dropLast.getLast? ≠ some 13

section

variable {content line l : List UInt8} {ls ls' : List (List UInt8)} {b : UInt8} {c c' : Int}

/-! ## The lines of the standard input -/

lemma takeWhile_zero (l t : List UInt8) :
    (l ++ 0 :: t).takeWhile (fun b => !decide (b = 0)) = l.takeWhile fun b => !decide (b = 0) := by
  induction l with
  | nil => rfl
  | cons b l ih => simp only [cons_append, takeWhile_cons, ih]

/-- `buff` keeps the line without its newline, cut before a carriage return that is the last
byte but one and before a zero byte. -/
lemma buffLine_eq (line : List UInt8) : buffLine line = ((chop newline line).take
    (if line.dropLast.getLast? = some 13 then line.length - 2 else line.length)).takeWhile
      fun b => !decide (b = 0) := by
  rcases eq_nil_or_concat line with rfl | ⟨l, b, rfl⟩
  · rfl
  rcases eq_nil_or_concat l with rfl | ⟨l, c, rfl⟩
  · by_cases hb : b = newline
    all_goals simp [buffLine, chop, hb]
  have htake : (l ++ [c]).take (l.length + 2) = l ++ [c] ∧
      (l ++ [c, b]).take (l.length + 2) = l ++ [c, b] :=
    ⟨take_of_length_le (by simp), take_of_length_le (by simp)⟩
  by_cases hb : b = newline
  · by_cases hc : c = 13
    · simp [buffLine, chop, hb, hc, takeWhile_zero]
    have hzero := takeWhile_zero (l ++ [c]) []
    rw [append_assoc] at hzero
    simpa [buffLine, chop, hb, hc, htake] using hzero
  · by_cases hc : c = 13
    · simp [buffLine, chop, hb, hc, takeWhile_zero]
    · simp [buffLine, chop, hb, hc, htake]

lemma mem_chop_of_mem_buffLine (h : b ∈ buffLine line) : b ∈ chop newline line := by
  rw [buffLine_eq] at h
  exact mem_of_mem_take (takeWhile_subset _ h)

lemma takeWhile_of_no_zero (h : 0 ∉ l) : (l.takeWhile fun b => !decide (b = 0)) = l :=
  takeWhile_eq_self_iff.mpr fun b hb => by simpa using fun heq : b = 0 => h (heq ▸ hb)

lemma zero_mem_chop : 0 ∈ chop newline line ↔ 0 ∈ line := by
  rcases eq_nil_or_concat line with rfl | ⟨l, b, rfl⟩
  · rfl
  by_cases hb : b = newline
  · simp [chop, hb, newline]
  · simp [chop, hb]

/-- The whole line is kept if it is plain. -/
lemma buffLine_eq_chop_iff : buffLine line = chop newline line ↔ Plain line := by
  have hlen := length_chop newline line
  constructor
  · intro h
    have hno : 0 ∉ line := by
      intro hmem
      rw [← zero_mem_chop, ← h, buffLine_eq] at hmem
      simpa using mem_takeWhile_imp hmem
    refine ⟨hno, fun hcr => ?_⟩
    -- the line has two bytes at least, and loses one
    have htwo : 1 < line.length := by
      by_contra hle
      have hnil : line.dropLast = [] := eq_nil_of_length_eq_zero (by simp; omega)
      rw [hnil] at hcr
      cases hcr
    have hcut := congrArg List.length h
    rw [buffLine_eq, if_pos hcr] at hcut
    have hle := (takeWhile_sublist (fun b : UInt8 => !decide (b = 0))
      (l := (chop newline line).take (line.length - 2))).length_le
    rw [hcut, length_take] at hle
    omega
  · rintro ⟨hno, hcr⟩
    rw [buffLine_eq, if_neg hcr, take_of_length_le hlen.2]
    exact takeWhile_of_no_zero fun hmem => hno (zero_mem_chop.mp hmem)

/-! ## What is written -/

lemma flatMap_newline (ls : List (List UInt8)) :
    ls.flatMap (· ++ [newline]) = [newline].intercalate (ls ++ [[]]) := by
  induction ls with
  | nil => simp
  | cons line ls ih =>
    rw [flatMap_cons, ih]
    cases ls with
    | nil => simp
    | cons next ls => simp [intercalate_cons_cons]

/-- The bytes show the lines. -/
lemma eq_of_flatMap (h : ∀ line ∈ ls, newline ∉ line) (h' : ∀ line ∈ ls', newline ∉ line)
    (heq : ls.flatMap (· ++ [newline]) = ls'.flatMap (· ++ [newline])) : ls = ls' := by
  have hsplit : ∀ xs : List (List UInt8), (∀ line ∈ xs, newline ∉ line) →
      (xs.flatMap (· ++ [newline])).splitOn newline = xs ++ [[]] := by
    intro xs hxs
    rw [flatMap_newline]
    refine splitOn_intercalate newline ?_ (by simp)
    simpa [or_imp, forall_and] using hxs
  exact append_cancel_right ((hsplit ls h).symm.trans (heq ▸ hsplit ls' h'))

lemma newline_notMem_lines : ∀ line ∈ lines newline content, newline ∉ line := by
  intro line hline hmem
  unfold lines at hline
  split at hline
  · cases hline
  · simpa using not_separator_of_mem_splitOnP _ _ line hline newline hmem

lemma newline_notMem_buff : ∀ line ∈ buff content, newline ∉ line := by
  intro line hline hmem
  obtain ⟨whole, hwhole, rfl⟩ := mem_map.mp hline
  have hlines : chop newline whole ∈ lines newline content := by
    rw [← map_chop_getlines]
    exact mem_map_of_mem hwhole
  exact newline_notMem_lines _ hlines (mem_chop_of_mem_buffLine hmem)

lemma mem_of_mem_reversed (h : line ∈ reversed content) : line ∈ lines newline content := by
  unfold reversed chop at h
  split at h
  · exact mem_reverse.mp (mem_of_mem_dropLast h)
  · exact mem_reverse.mp h

lemma flatten_getlines (l : List UInt8) : (getlines newline l).flatten = l := by
  induction l with
  | nil => rfl
  | cons b l ih =>
    rw [getlines]
    split
    · rw [flatten_cons, ih, singleton_append]
    split
    next hnil =>
      rw [← ih, hnil]
      rfl
    next x xs hcons =>
      rw [← ih, hcons]
      rfl

lemma bytes_stdin (env : Env) (n : Bool) : bytes (peekFiles env n true ["-"]) =
    (writeAll n (if n then toInt (toInt ((buff env.stdin).countP nonempty)) else 0)
      (buff env.stdin).reverse).out.flatMap Piece.render := by
  have hpath : path env.home_shell "-" = "-" := rfl
  simp [peekFiles, prepareInputs, outputs, hpath, bytes, flatMap_map, Event.bytes]

lemma bytes_file (env : Env) (n : Bool) {name : String} (hname : path env.home_shell name ≠ "-")
    (hfile : env.file (path env.home_shell name) = .regular content) :
    bytes (peekFiles env n true [name]) =
      (printRev chunkSize n (if n then toInt (toInt (cnt content)) else 0) content).flatMap
        Piece.render := by
  simp [peekFiles, prepareInputs, outputs, hname, hfile, bytes, flatMap_map, Event.bytes,
    nonemptyOf]

/-- Without numbers, the lines of both sources are the same. -/
lemma buff_eq_reversed (h : (writeAll false c (buff content).reverse).out.flatMap
      Piece.render = (printRev chunkSize false c' content).flatMap Piece.render) :
    (buff content).reverse = reversed (content.take (toInt content.length).toNat) := by
  rw [render_printRev, writeAll_out, flatMap_map] at h
  refine eq_of_flatMap (fun line hline => ?_) (fun line hline => ?_) h
  · exact newline_notMem_buff line (mem_reverse.mp hline)
  · exact newline_notMem_lines line (mem_of_mem_reversed hline)

/-- Nothing is read of a file whose length is a negative `int`. -/
lemma length_lt_of_buff_eq (hsize : content.length < 2 ^ 32)
    (h : (buff content).reverse = reversed (content.take (toInt content.length).toNat)) :
    content.length < 2 ^ 31 := by
  by_contra hlong
  have hpos : (toInt content.length).toNat = 0 := by
    rw [toInt_eq_bmod, Int.bmod]
    split <;> omega
  rw [hpos, take_zero] at h
  have hnil : getlines newline content = [] :=
    map_eq_nil_iff.mp (reverse_eq_nil_iff.mp h)
  have hcontent := flatten_getlines content
  rw [hnil] at hcontent
  rw [← hcontent] at hlong
  exact hlong (by decide)

end

/-- **When the source does not matter.** `peek -r` writes the same bytes for a text as a file and
as the standard input, with and without `-n`, exactly if the text has fewer than 2^31 bytes, does
not begin with a newline and has plain lines only. From 2^32 bytes on, `int pos` may keep some
beginning of the file, and a zero byte may cut the standard input at the same place. -/
theorem sources_agree_iff (env : Env) (name : String) (content : List UInt8)
    (hname : path env.home_shell name ≠ "-")
    (hfile : env.file (path env.home_shell name) = .regular content)
    (hstdin : env.stdin = content) (hsize : content.length < 2 ^ 32) :
    (∀ n, bytes (peekFiles env n true ["-"]) = bytes (peekFiles env n true [name])) ↔
      content.length < 2 ^ 31 ∧ content.head? ≠ some newline ∧
        ∀ line ∈ getlines newline content, Plain line := by
  have hlines : (getlines newline content).map (chop newline) = lines newline content :=
    map_chop_getlines
  constructor
  · intro h
    have hfalse := h false
    rw [bytes_stdin, bytes_file env false hname hfile, hstdin] at hfalse
    have hsame := buff_eq_reversed hfalse
    have hlen := length_lt_of_buff_eq hsize hsame
    rw [toInt_of_lt hlen, Int.toNat_natCast, take_length] at hsame
    have hhead : content.head? ≠ some newline := by
      intro hhead
      -- the file loses its first line
      have hcount := congrArg List.length (reversed_of_newline hhead)
      rw [← hsame, ← hlines] at hcount
      simp [buff] at hcount
    refine ⟨hlen, hhead, fun line hline => ?_⟩
    rw [reversed_of_head hhead, reverse_inj, ← hlines] at hsame
    exact buffLine_eq_chop_iff.mp (map_inj_left.mp hsame line hline)
  · rintro ⟨hlen, hhead, hplain⟩ n
    have hbuff : buff content = lines newline content := by
      rw [← hlines]
      exact map_congr_left fun line hline => buffLine_eq_chop_iff.mpr (hplain line hline)
    rw [bytes_stdin, bytes_file env n hname hfile, hstdin, hbuff, printRev_lines hlen,
      reversed_of_head hhead, cnt_eq, countP_eq_length_filter]

/-- The text is the standard input, and the file `f`. -/
def twice (content : List UInt8) : Env := ⟨"/", fun _ => .regular content, content⟩

/-- The text `"ab\nc"`. -/
theorem sources_agree_plain :
    bytes (peekFiles (twice [97, 98, 10, 99]) false true ["-"]) =
      bytes (peekFiles (twice [97, 98, 10, 99]) false true ["f"]) ∧
    bytes (peekFiles (twice [97, 98, 10, 99]) true true ["-"]) =
      bytes (peekFiles (twice [97, 98, 10, 99]) true true ["f"]) := by
  have h := (sources_agree_iff (twice [97, 98, 10, 99]) "f" [97, 98, 10, 99] (by decide) rfl
    rfl (by decide)).mpr ⟨by decide, by decide, by simp [getlines, newline, Plain]⟩
  exact ⟨h false, h true⟩

/-- The text `"a\r\n"`: the carriage return of the standard input is gone. -/
theorem source_matters : bytes (peekFiles (twice [97, 13, 10]) false true ["-"]) = [97, 10] ∧
    bytes (peekFiles (twice [97, 13, 10]) false true ["f"]) = [97, 13, 10] := by
  have hfile : bytes (peekFiles (twice [97, 13, 10]) false true ["f"]) =
      (printRev chunkSize false 0 [97, 13, 10]).flatMap Piece.render :=
    bytes_file _ _ (by decide) rfl
  rw [hfile, render_printRev]
  decide

end CshellXv6.Shell.Peek
