/-
Text without its escape sequences.

An escape sequence is an escape character with an opening bracket behind it, and all up to the next
`m`. What a terminal with colours gets differs from what any other gets in such sequences only, if
the texts that are shown have none of their own: without them, a line is the same in both.
-/
import Unimported.Terminal.Style

set_option autoImplicit false

namespace Unimported.Terminal

/-- The text without its escape sequences, read inside of one or not. -/
def withoutEscapesFrom : Bool → List Char → List Char
  | _, [] => []
  | true, c :: rest => withoutEscapesFrom (c ≠ 'm') rest
  | false, '\x1b' :: '[' :: rest => withoutEscapesFrom true rest
  | false, c :: rest => c :: withoutEscapesFrom false rest

/-- The text without its escape sequences. -/
def withoutEscapes (text : List Char) : List Char := withoutEscapesFrom false text

example : withoutEscapes ['a', '\x1b', '[', '1', ';', '3', '2', 'm', 'b', '\x1b', 'm']
    = ['a', 'b', '\x1b', 'm'] := by decide

variable {text : List Char}

theorem withoutEscapes_cons {c : Char} (hc : c ≠ escape) (rest : List Char) :
    withoutEscapes (c :: rest) = c :: withoutEscapes rest := by
  rw [withoutEscapes, withoutEscapesFrom]
  · rfl
  · exact fun _ heq _ => hc heq

/-- A text is left as it is up to its first escape character. -/
theorem withoutEscapes_append (h : escape ∉ text) (rest : List Char) :
    withoutEscapes (text ++ rest) = text ++ withoutEscapes rest := by
  induction text with
  | nil => rfl
  | cons c text ih =>
    have hc : c ≠ escape := (List.ne_of_not_mem_cons h).symm
    rw [List.cons_append, withoutEscapes_cons hc, ih (List.not_mem_of_not_mem_cons h),
      List.cons_append]

/-- The sequence that turns a style on is one sequence. -/
theorem withoutEscapes_start (s : Style) (rest : List Char) :
    withoutEscapes (s.start ++ rest) = withoutEscapes rest := by
  cases s with
  | plain => rfl
  | bold => rfl
  | dim => rfl
  | colour c => cases c <;> rfl
  | boldColour c => cases c <;> rfl

theorem withoutEscapes_reset (rest : List Char) :
    withoutEscapes (reset ++ rest) = withoutEscapes rest := rfl

theorem afterResets_of_not_mem (again : List Char) (h : escape ∉ text) :
    afterResets again text = text := by
  induction text with
  | nil => rfl
  | cons c text ih =>
    have hc : c ≠ escape := (List.ne_of_not_mem_cons h).symm
    rw [afterResets, ih (List.not_mem_of_not_mem_cons h)]
    exact fun _ heq _ => hc heq

/-! ## Lines

What is written of a span begins and ends with whole escape sequences, if it has any, and
its own text has none. So the sequences are deleted span by span, whatever follows. -/

/-- The character is in no span of the line. -/
def Line.Lacks (line : Line) (c : Char) : Prop := ∀ span ∈ line, c ∉ span.text

theorem withoutEscapes_span {span : Span} (h : escape ∉ span.text) (rest : List Char) :
    withoutEscapes (span.write true ++ rest) = span.text ++ withoutEscapes rest := by
  rw [Span.write, Bool.true_and]
  -- In a style the text stands between two sequences; without one it stands alone.
  by_cases hstyle : (span.style != .plain) = true
  · rw [if_pos hstyle, afterResets_of_not_mem _ h, List.append_assoc, List.append_assoc,
      withoutEscapes_start, withoutEscapes_append h, withoutEscapes_reset]
  · rw [if_neg hstyle, withoutEscapes_append h]

theorem withoutEscapes_line {line : Line} (h : line.Lacks escape) (rest : List Char) :
    withoutEscapes (line.write true ++ rest) = line.write false ++ withoutEscapes rest := by
  induction line with
  | nil => rfl
  | cons span line ih =>
    obtain ⟨hspan, hline⟩ := List.forall_mem_cons.1 h
    rw [Line.write, List.flatMap_cons, List.append_assoc, withoutEscapes_span hspan]
    rw [← Line.write, ih hline, Line.write, Line.write, List.flatMap_cons, List.append_assoc]
    rfl

/-- **Lines with colours are lines without, once the escape sequences are deleted**, if no text in
them has an escape character. -/
theorem withoutEscapes_writeLines {lines : List Line} (h : ∀ line ∈ lines, line.Lacks escape) :
    withoutEscapes (writeLines true lines) = writeLines false lines := by
  induction lines with
  | nil => rfl
  | cons line lines ih =>
    obtain ⟨hline, hlines⟩ := List.forall_mem_cons.1 h
    rw [writeLines, List.flatMap_cons, List.append_assoc, withoutEscapes_line hline,
      List.singleton_append, withoutEscapes_cons (by decide), ← writeLines, ih hlines, writeLines,
      writeLines, List.flatMap_cons, List.append_assoc, List.singleton_append]

end Unimported.Terminal
