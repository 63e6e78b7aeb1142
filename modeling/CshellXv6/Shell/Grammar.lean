import Mathlib.Computability.Language
import CshellXv6.Shell.Lexer

/-! # The grammar of the shell

The grammar that `check` of `grammar.c` stands for, written down as languages
over the token types, and the proof that `check` accepts that grammar and
nothing else.

`check` is a loop with one token of lookahead, so it knows nothing of groups
and commands. What it has left to read after a word is the language `follow`;
unfolding the three nested repetitions of the grammar once each gives the
equation `follow_unfold`, whose cases are the branches of the loop.
-/

namespace CshellXv6.Shell.Grammar

open List

open scoped Computability

/-- One token of type `t`. -/
def tok (t : Types) : Language Types := {[t]}

/-- `'<' | '>' | '>>'`. -/
def redirection : Language Types := tok .less + tok .greater + tok .greater2

/-- `';' | '&'`. -/
def separator : Language Types := tok .colon + tok .and

/-- `WORD | ('<' | '>' | '>>') WORD`. -/
def argument : Language Types := tok .word + redirection * tok .word

/-- `atomic ::= WORD (WORD | ('<' | '>' | '>>') WORD)*`. -/
def atomic : Language Types := tok .word * argument∗

/-- `group ::= atomic ('|' atomic)*`. -/
def group : Language Types := atomic * (tok .pipe * atomic)∗

/-- `line ::= group ((';' | '&') group)* ['&']`. -/
def line : Language Types := group * (separator * group)∗ * (1 + tok .and)

/-- What may follow a word of a line. -/
def follow : Language Types :=
  argument∗ * ((tok .pipe * atomic)∗ * ((separator * group)∗ * (1 + tok .and)))

lemma line_eq : line = tok .word * follow := by
  simp only [line, group, atomic, follow, mul_assoc]

/-- One round of a repetition, with what comes after it. -/
lemma kstar_mul_unfold (l m : Language Types) : l∗ * m = m + l * (l∗ * m) := by
  conv_lhs => rw [← Language.one_add_self_mul_kstar_eq_kstar l]
  rw [add_mul, one_mul, mul_assoc]

/-- A word of a line is followed by nothing, by a last `&`, by another word, or
by one of the other operators and a word. -/
lemma follow_unfold :
    follow = 1 + tok .and + tok .word * follow +
      (redirection + tok .pipe + separator) * (tok .word * follow) := by
  have hsep : (separator * group)∗ * (1 + tok .and) =
      1 + tok .and + separator * (tok .word * follow) := by
    rw [kstar_mul_unfold, ← line_eq, line]
    simp only [mul_assoc]
  have hpipe : (tok .pipe * atomic)∗ * ((separator * group)∗ * (1 + tok .and)) =
      1 + tok .and + separator * (tok .word * follow) + tok .pipe * (tok .word * follow) := by
    rw [kstar_mul_unfold, hsep, ← hsep]
    simp only [atomic, follow, mul_assoc]
  calc follow = 1 + tok .and + separator * (tok .word * follow) +
        tok .pipe * (tok .word * follow) + argument * follow := by
          conv_lhs => rw [follow, kstar_mul_unfold, ← follow, hpipe]
    _ = _ := by
          simp only [argument, add_mul, mul_assoc]
          abel

variable {t u : Types} {ts : List Types} {l : Language Types}

@[simp] lemma mem_tok : ts ∈ tok t ↔ ts = [t] := Iff.rfl

@[simp] lemma nil_notMem_tok_mul : [] ∉ tok t * l := by
  intro h
  obtain ⟨a, rfl, b, -, hab⟩ := Language.mem_mul.mp h
  cases hab

@[simp] lemma cons_mem_tok_mul : u :: ts ∈ tok t * l ↔ u = t ∧ ts ∈ l := by
  constructor
  · intro h
    obtain ⟨a, rfl, b, hb, hab⟩ := Language.mem_mul.mp h
    cases hab
    exact ⟨rfl, hb⟩
  · rintro ⟨rfl, h⟩
    exact Language.append_mem_mul (mem_tok.mpr rfl) h

/-- A line may end after any of its words. -/
lemma nil_mem_follow : [] ∈ follow := by
  rw [follow_unfold]
  exact .inl (.inl (.inl Language.nil_mem_one))

/-- The equation of `follow`, by the first token: one case for each branch of
the loop of `check`. -/
lemma cons_mem_follow : u :: ts ∈ follow ↔
    (u = .and ∧ ts = []) ∨ (u = .word ∧ ts ∈ follow) ∨
      (u ≠ .word ∧ ts ∈ tok .word * follow) := by
  conv_lhs => rw [follow_unfold]
  simp only [Language.mem_add, Language.mem_one, redirection, separator, add_mul,
    cons_mem_tok_mul, mem_tok, reduceCtorEq, List.cons.injEq, false_or]
  cases u <;> simp

/-- The loop of `check` accepts what may follow a word. -/
lemma checkLoop_iff (ts : List Token) : checkLoop ts = true ↔ ts.map Token.type ∈ follow := by
  induction ts with
  | nil => simp [checkLoop, nil_mem_follow]
  | cons t ts ih =>
    rw [map_cons, cons_mem_follow, checkLoop.eq_def]
    cases ts with
    | nil => rcases hty : t.type <;> simp [hty, nil_mem_follow, checkLoop]
    | cons u us =>
      -- a word under the cursor is skipped, so the lookahead costs nothing
      have hword : (if u.type ≠ .word then false else checkLoop (u :: us)) = true ↔
          (u :: us).map Token.type ∈ tok .word * follow := by
        rw [map_cons, cons_mem_tok_mul]
        split
        next hu => simp [hu]
        next hu =>
          rw [ih, map_cons, cons_mem_follow]
          simp [not_not.mp hu]
      dsimp only
      split
      next hand =>
        rw [hword]
        simp [hand]
      next hand =>
        split
        next hty =>
          rw [ih]
          simp [hty]
        next hty =>
          rw [hword]
          simp [hand, hty]

/-- `check` accepts the empty line and the lines of the grammar, and no
others. -/
theorem check_iff_line (tokens : List Token) :
    check tokens = true ↔ tokens = [] ∨ tokens.map Token.type ∈ line := by
  cases tokens with
  | nil => simp [check]
  | cons t ts =>
    rw [line_eq, map_cons, cons_mem_tok_mul, ← checkLoop_iff, check]
    by_cases ht : t.type = .word
    all_goals simp [ht]

end CshellXv6.Shell.Grammar
