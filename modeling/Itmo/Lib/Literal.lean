import Mathlib.Algebra.GroupWithZero.Nat
import Mathlib.Data.List.Count

/-! Statements with quoted literals in them, as a lexer reads them: a literal goes
from a quote to the next quote, and two quotes in a row inside it stand for one.
What is outside of literals is left as it is. -/

namespace Itmo.Lib

variable {α : Type*}

inductive Token (α : Type*) where
  | literal (content : List α)
  | char (c : α)
  deriving DecidableEq

/-- Where the lexer is. After a quote inside a literal, only the next character
tells whether the literal has ended. -/
inductive LexState (α : Type*) where
  | outside
  | inside (content : List α)
  | quoted (content : List α)

variable [DecidableEq α]

/-- The tokens of the rest of a text; a literal that is left open is an error. -/
def lexFrom (quote : α) : LexState α → List α → Option (List (Token α))
  | .outside, [] => some []
  | .inside _, [] => none
  | .quoted content, [] => some [.literal content]
  | .outside, c :: cs =>
    if c = quote then lexFrom quote (.inside []) cs
    else (lexFrom quote .outside cs).map (.char c :: ·)
  | .inside content, c :: cs =>
    if c = quote then lexFrom quote (.quoted content) cs
    else lexFrom quote (.inside (content ++ [c])) cs
  | .quoted content, c :: cs =>
    if c = quote then lexFrom quote (.inside (content ++ [quote])) cs
    else (lexFrom quote .outside cs).map fun tokens => .literal content :: .char c :: tokens

def lex (quote : α) (text : List α) : Option (List (Token α)) := lexFrom quote .outside text

/-- The contents of the literals. -/
def literals (tokens : List (Token α)) : List (List α) :=
  tokens.filterMap fun
    | .literal content => some content
    | .char _ => none

/-- The statement ends with its one terminator. -/
def SingleStatement (terminator : α) (tokens : List (Token α)) : Prop :=
  ∃ body, tokens = body ++ [.char terminator] ∧ .char terminator ∉ body

variable {quote : α}

/-! ### Plain text -/

theorem lexFrom_outside_append {pre : List α} (h : quote ∉ pre) (cs : List α) :
    lexFrom quote .outside (pre ++ cs) =
      (lexFrom quote .outside cs).map (pre.map .char ++ ·) := by
  induction pre with
  | nil => simp
  | cons c pre ih =>
    rw [List.mem_cons, not_or] at h
    have hc : c ≠ quote := Ne.symm h.1
    rw [List.cons_append, lexFrom, if_neg hc, ih h.2, Option.map_map]
    rfl

theorem lexFrom_inside_append {s : List α} (h : quote ∉ s) (content cs : List α) :
    lexFrom quote (.inside content) (s ++ cs) = lexFrom quote (.inside (content ++ s)) cs := by
  induction s generalizing content with
  | nil => simp
  | cons c s ih =>
    rw [List.mem_cons, not_or] at h
    have hc : c ≠ quote := Ne.symm h.1
    rw [List.cons_append, lexFrom, if_neg hc, ih h.2, List.append_assoc, List.singleton_append]

/-- A literal without a quote in it is read as it is. -/
theorem lexFrom_literal {s : List α} (h : quote ∉ s) {c : α} (hc : c ≠ quote) (cs : List α) :
    lexFrom quote .outside (quote :: (s ++ quote :: c :: cs)) =
      (lexFrom quote .outside (c :: cs)).map (.literal s :: ·) := by
  have hopen : lexFrom quote .outside (quote :: (s ++ quote :: c :: cs)) =
      lexFrom quote (.inside s) (quote :: c :: cs) := by
    rw [lexFrom, if_pos rfl, lexFrom_inside_append h, List.nil_append]
  have hclose : lexFrom quote (.inside s) (quote :: c :: cs) =
      (lexFrom quote .outside cs).map fun tokens => .literal s :: .char c :: tokens := by
    rw [lexFrom, if_pos rfl, lexFrom, if_neg hc]
  have hnext : lexFrom quote .outside (c :: cs) =
      (lexFrom quote .outside cs).map (.char c :: ·) := by
    rw [lexFrom, if_neg hc]
  rw [hopen, hclose, hnext, Option.map_map]
  rfl

/-! ### Counting quotes -/

/-- The quotes that the tokens were written with. -/
def quotes (quote : α) (tokens : List (Token α)) : ℕ :=
  ((literals tokens).map fun content => 2 * content.count quote + 2).sum

theorem quotes_char (c : α) (tokens : List (Token α)) :
    quotes quote (.char c :: tokens) = quotes quote tokens := rfl

theorem quotes_literal (content : List α) (tokens : List (Token α)) :
    quotes quote (.literal content :: tokens) =
      2 * content.count quote + 2 + quotes quote tokens := rfl

/-- The quotes that were read before the rest of the text. -/
def LexState.quotes (quote : α) : LexState α → ℕ
  | .outside => 0
  | .inside content => 2 * content.count quote + 1
  | .quoted content => 2 * content.count quote + 2

/-- The lexer loses no quote. -/
theorem count_of_lexFrom {state : LexState α} {text : List α} {tokens : List (Token α)}
    (h : lexFrom quote state text = some tokens) :
    state.quotes quote + text.count quote = quotes quote tokens := by
  induction text generalizing state tokens with
  | nil =>
    cases state with
    | outside =>
      cases h
      rfl
    | inside content => cases h
    | quoted content =>
      cases h
      rfl
  | cons c cs ih =>
    by_cases hc : c = quote
    · subst hc
      rw [List.count_cons_self]
      cases state with
      | outside =>
        rw [lexFrom, if_pos rfl] at h
        have := ih h
        simp only [LexState.quotes, List.count_nil] at this ⊢
        omega
      | inside content =>
        rw [lexFrom, if_pos rfl] at h
        have := ih h
        simp only [LexState.quotes] at this ⊢
        omega
      | quoted content =>
        rw [lexFrom, if_pos rfl] at h
        have := ih h
        simp only [LexState.quotes, List.count_append, List.count_singleton_self] at this ⊢
        omega
    · rw [List.count_cons_of_ne hc]
      cases state with
      | outside =>
        rw [lexFrom, if_neg hc] at h
        obtain ⟨rest, hrest, rfl⟩ := Option.map_eq_some_iff.mp h
        rw [quotes_char, ← ih hrest]
      | inside content =>
        rw [lexFrom, if_neg hc] at h
        have := ih h
        simp only [LexState.quotes, List.count_append, List.count_singleton, beq_iff_eq,
          if_neg hc] at this ⊢
        omega
      | quoted content =>
        rw [lexFrom, if_neg hc] at h
        obtain ⟨rest, hrest, rfl⟩ := Option.map_eq_some_iff.mp h
        have := ih hrest
        rw [quotes_literal, quotes_char]
        simp only [LexState.quotes] at this ⊢
        omega

/-- If the one literal of a text is what stands between its two quotes, there is no
other quote. -/
theorem not_mem_of_literals {pre s post : List α} (hpre : quote ∉ pre) (hpost : quote ∉ post)
    {tokens : List (Token α)}
    (h : lex quote (pre ++ quote :: (s ++ quote :: post)) = some tokens)
    (hliterals : literals tokens = [s]) : quote ∉ s := by
  have hcount := count_of_lexFrom h
  rw [quotes, hliterals] at hcount
  simp only [LexState.quotes, List.count_append, List.count_cons_self, List.map_cons, List.map_nil,
    List.sum_cons, List.sum_nil, List.count_eq_zero.mpr hpre, List.count_eq_zero.mpr hpost]
    at hcount
  rw [← List.count_eq_zero]
  omega

end Itmo.Lib
