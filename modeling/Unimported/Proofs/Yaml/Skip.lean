/-
From one YAML token to the next.

Between two tokens there are blanks, comments and line breaks, and byte order marks at the front of
lines. What is left of the text behind them stands on no line before, and on a later one if a
comment came first and the text goes on.
-/
import Unimported.Proofs.Yaml.Kept
import Unimported.Proofs.Yaml.Plain

set_option autoImplicit false

namespace Unimported.Yaml.Lexer

variable {l : Lexer} {line column index : Nat} {text : List Char} {c : Char}

/-! ## Byte order marks

A mark is skipped at the front of a line only, and a line that has begun has none. -/

theorem skipMark_of_head (h : text.headD '\x00' ≠ byteOrderMark) :
    skipMark (locate line column index text) = locate line column index text := by
  cases text with
  | nil => exact if_neg fun hmark => h hmark.2
  | cons c text => exact if_neg fun hmark => h hmark.2

theorem skipMark_locate (line column index : Nat) (text : List Char) : ∃ column' index' text',
    skipMark (locate line column index text) = locate line column' index' text' ∧
      (text.headD '\x00' ≠ byteOrderMark → text' = text) := by
  by_cases hmark : text.headD '\x00' = byteOrderMark
  · cases text with
    | nil => cases hmark
    | cons c text =>
      obtain rfl : c = byteOrderMark := hmark
      rw [locate_cons rfl, skipMark]
      split
      · exact ⟨_, _, text, rfl, fun hne => absurd rfl hne⟩
      · exact ⟨column, index, byteOrderMark :: text, (locate_cons rfl).symm, fun _ => rfl⟩
  · exact ⟨column, index, text, skipMark_of_head hmark, fun _ => rfl⟩

theorem skipMark_of_column (line column index : Nat) (text : List Char) :
    skipMark (locate line (column + 1) index text) = locate line (column + 1) index text := by
  have hcolumn : ∀ c, ¬ (column + 1 = 0 ∧ c = byteOrderMark) := fun c hmark =>
    Nat.succ_ne_zero column hmark.1
  cases text with
  | nil => rw [locate, skipMark, if_neg (hcolumn '\x00')]
  | cons c text => rw [locate, skipMark, if_neg (hcolumn c)]

/-! ## The rest of a line

Behind blanks a line may have a comment, which goes up to the end of the line. So all that
is skipped on a line stays on it. -/

theorem dropWhile_of_head {p : Char → Bool} (h : p (text.headD '\x00') = false) :
    text.dropWhile p = text := by
  cases text with
  | nil => rfl
  | cons c text => exact List.dropWhile_cons_of_neg (Bool.eq_false_iff.1 h)

/-- A comment ends with its line. -/
theorem skipLine_locate (line column index : Nat) (text : List Char) : ∃ column' index' text',
    skipLine (locate line column index text) = locate line column' index' text' ∧
      isLineEnd (text'.headD '\x00') = true := by
  obtain ⟨column', index', -, hrest⟩ :=
    skipChars_locate (p := fun c => !isLineEnd c) line column index text rfl
      fun c hc => isBreak_of_isLineEnd (by simpa using hc)
  refine ⟨column', index', _, hrest, ?_⟩
  cases hdrop : text.dropWhile fun c => !isLineEnd c with
  | nil => rfl
  | cons c rest =>
    have hc := List.head?_dropWhile_not (fun c => !isLineEnd c) text
    rw [hdrop] at hc
    simpa using hc

theorem isSpace_of_passes (h : l.passes c = true) : isSpace c = true := by
  simp only [passes, Bool.or_eq_true, Bool.and_eq_true] at h
  exact Bool.or_eq_true_iff.2 (h.imp_right And.right)

theorem passes_eq_false (h : isSpace c = false) : l.passes c = false :=
  Bool.eq_false_iff.2 fun hpasses => Bool.eq_false_iff.1 h (isSpace_of_passes hpasses)

/-- What is left of a line stands on it. Of a comment, and of a text that ends, nothing is left. -/
theorem lineRest_locate (hrest : l.rest = locate line column index text) :
    ∃ column' index' text', l.lineRest = locate line column' index' text' ∧
      (isEnd (text.headD '\x00') = true ∨ text.headD '\x00' = '#' →
        isLineEnd (text'.headD '\x00') = true) := by
  obtain ⟨columnM, indexM, textM, hmark, hsame⟩ := skipMark_locate line column index text
  obtain ⟨columnB, indexB, -, hblanks⟩ := skipChars_locate (p := l.passes) line columnM indexM textM
    (passes_eq_false rfl) fun c hc => isBreak_of_isSpace (isSpace_of_passes hc)
  have hlineRest : l.lineRest = if (textM.dropWhile l.passes).headD '\x00' = '#'
      then skipLine (locate line columnB indexB (textM.dropWhile l.passes))
      else locate line columnB indexB (textM.dropWhile l.passes) := by
    rw [lineRest, hrest, hmark, hblanks, peek_locate]
  by_cases hcomment : (textM.dropWhile l.passes).headD '\x00' = '#'
  · obtain ⟨columnC, indexC, textC, hline, hend⟩ :=
      skipLine_locate line columnB indexB (textM.dropWhile l.passes)
    exact ⟨columnC, indexC, textC, by rw [hlineRest, if_pos hcomment, hline], fun _ => hend⟩
  · refine ⟨columnB, indexB, _, by rw [hlineRest, if_neg hcomment], ?_⟩
    -- neither a mark nor a blank stands in front
    intro hhead
    have hplain : text.headD '\x00' ≠ byteOrderMark ∧ isSpace (text.headD '\x00') = false := by
      rcases hhead with hhead | hhead
      · rw [isEnd, beq_iff_eq] at hhead
        rw [hhead]
        decide
      · rw [hhead]
        decide
    obtain rfl := hsame hplain.1
    rw [dropWhile_of_head (passes_eq_false hplain.2)] at hcomment ⊢
    exact Bool.or_eq_true_iff.2 (.inr (hhead.resolve_right hcomment))

/-- What is left of a line is an end of the text. -/
theorem lineRest_suffix (l : Lexer) : l.lineRest <:+ l.rest := by
  have hmark : skipMark l.rest <:+ l.rest := by
    cases l.rest with
    | nil => exact List.suffix_refl _
    | cons spot rest =>
      rw [skipMark]
      split
      · exact List.suffix_cons spot rest
      · exact List.suffix_refl _
  have hblanks : skipChars l.passes (skipMark l.rest) <:+ l.rest :=
    (List.dropWhile_suffix _).trans hmark
  rw [lineRest]
  split
  · exact (List.dropWhile_suffix _).trans hblanks
  · exact hblanks

/-! ## Lines

Lines are skipped one at a time as long as nothing else stands on them. With the fuel as the
number of lines, what is left is on no line before, and on a later one if there was a line
end at all. -/

/-- To go to the next token leaves all but the rest of the text as it is. -/
theorem skipToToken_frame (l : Lexer) (fuel : Nat) :
    ∃ rest keyAllowed, l.skipToToken fuel = { l with rest := rest, keyAllowed := keyAllowed } := by
  induction fuel generalizing l with
  | zero => exact ⟨l.rest, l.keyAllowed, rfl⟩
  | succ fuel ih =>
    rw [skipToToken_succ]
    split
    · obtain ⟨rest, keyAllowed, hskip⟩ := ih _
      exact ⟨rest, keyAllowed, hskip⟩
    · exact ⟨l.lineRest, l.keyAllowed, rfl⟩

/-- Where no key may start, blanks in front of a word are skipped, tabs included. -/
theorem skipToToken_word {after : List Char}
    (hrest : l.rest = locate line (column + 1) index text) (hallowed : l.keyAllowed = false)
    (hafter : text.dropWhile isSpace = c :: after) (hword : isWordEnd c = false) (hhash : c ≠ '#')
    (fuel : Nat) : ∃ column' index',
      l.skipToToken (fuel + 1)
        = { l with rest := locate line (column' + 1) index' (c :: after) } := by
  -- outside the places for keys tabs are blanks as well
  have hpasses : l.passes = isSpace := by
    funext d
    simp [passes, isSpace, hallowed]
  obtain ⟨column', index', hle, hblanks⟩ := skipChars_locate (p := isSpace) line (column + 1) index
    text rfl fun d => isBreak_of_isSpace
  obtain ⟨column', rfl⟩ := Nat.exists_eq_add_one_of_ne_zero (by omega : column' ≠ 0)
  have hlineRest : l.lineRest = locate line (column' + 1) index' (c :: after) := by
    rw [lineRest, hrest, skipMark_of_column, hpasses, hblanks, hafter, peek_locate]
    exact if_neg hhash
  have hbreak := isBreak_of_isLineEnd (Bool.or_eq_false_iff.1 hword).2
  refine ⟨column', index', ?_⟩
  rw [skipToToken_succ, hlineRest, peek_locate]
  exact if_neg (Bool.eq_false_iff.1 hbreak)

theorem here_line (h : l.rest = locate line column index text) : l.here.line = line := by
  rw [here, h]
  cases text <;> rfl

/-- Behind a line break the next line begins. -/
theorem tail_locate_break (line column index : Nat) (h : isBreak (text.headD '\x00') = true) :
    ∃ index' text', (locate line column index text).tail = locate (line + 1) 0 index' text' := by
  cases text with
  | nil => cases h
  | cons c text =>
    have hc : isBreak c = true := h
    exact ⟨_, text, by rw [locate_cons_break hc, List.tail_cons]⟩

/-- What is left behind the lines that are skipped is on no line before them. -/
theorem line_le_skipToToken (hrest : l.rest = locate line column index text) (fuel : Nat) :
    ∃ line' column' index' text',
      (l.skipToToken fuel).rest = locate line' column' index' text' ∧ line ≤ line' := by
  induction fuel generalizing l line column index text with
  | zero => exact ⟨line, column, index, text, hrest, Nat.le_refl line⟩
  | succ fuel ih =>
    obtain ⟨columnR, indexR, textR, hline, -⟩ := lineRest_locate hrest
    rw [skipToToken_succ, hline, peek_locate]
    split
    · rename_i hbreak
      obtain ⟨indexT, textT, htail⟩ := tail_locate_break line columnR indexR hbreak
      obtain ⟨line', column', index', text', hskip, hle⟩ :=
        ih (l := { l with rest := _, keyAllowed := l.keyAllowed || !l.inFlow }) htail
      exact ⟨line', column', index', text', hskip, by omega⟩
    · exact ⟨line, columnR, indexR, textR, rfl, Nat.le_refl line⟩

/-- A comment is skipped with its line, unless the text ends with it. -/
theorem line_lt_skipToToken_of_comment (hrest : l.rest = locate line column index text)
    (hhead : isEnd (text.headD '\x00') = true ∨ text.headD '\x00' = '#') (fuel : Nat) :
    ∃ line' column' index' text',
      (l.skipToToken (fuel + 1)).rest = locate line' column' index' text' ∧
      (line < line' ∨ isEnd (text'.headD '\x00') = true) := by
  obtain ⟨columnR, indexR, textR, hline, hend⟩ := lineRest_locate hrest
  rw [skipToToken_succ, hline, peek_locate]
  split
  · rename_i hbreak
    obtain ⟨indexT, textT, htail⟩ := tail_locate_break line columnR indexR hbreak
    obtain ⟨line', column', index', text', hskip, hle⟩ := line_le_skipToToken
      (l := { l with rest := _, keyAllowed := l.keyAllowed || !l.inFlow }) htail fuel
    exact ⟨line', column', index', text', hskip, .inl hle⟩
  · rename_i hbreak
    exact ⟨line, columnR, indexR, textR, rfl,
      .inr ((Bool.or_eq_true_iff.1 (hend hhead)).resolve_left hbreak)⟩

/-- Behind a plain scalar whose first line has no key, the next token stands on a later line. -/
theorem line_lt_skipToToken {first : Nat} (hrest : l.rest = locate line column index text)
    (hline : first < line ∨
      line = first ∧ (isEnd (text.headD '\x00') = true ∨ text.headD '\x00' = '#')) (fuel : Nat) :
    ∃ line' column' index' text',
      (l.skipToToken (fuel + 1)).rest = locate line' column' index' text' ∧
      (first < line' ∨ isEnd (text'.headD '\x00') = true) := by
  rcases hline with hlt | ⟨rfl, hhead⟩
  · obtain ⟨line', column', index', text', hskip, hle⟩ := line_le_skipToToken hrest (fuel + 1)
    exact ⟨line', column', index', text', hskip, .inl (by omega)⟩
  · exact line_lt_skipToToken_of_comment hrest hhead fuel

end Unimported.Yaml.Lexer
