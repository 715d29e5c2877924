/-
Where a plain scalar of a YAML text ends.

A plain scalar may run over several lines, but a key lies within one. So what decides whether a
plain scalar could be a key is its first line: whether a colon with nothing or a blank behind it
comes before a comment. If there is none, the scalar ends with the text, at a comment or on a later
line.
-/
import Unimported.Yaml.Scalar
import Mathlib.Logic.Basic
import Mathlib.Data.List.Basic

set_option autoImplicit false

namespace Unimported.Yaml

variable {line column index : Nat} {text : List Char} {c : Char}

/-! ## Spots

A spot is a character with its line and column, and the text is taken apart into spots
before it is read. So what is known of the characters has to be turned into facts on spots
and back. -/

@[simp] theorem peek_locate : peek (locate line column index text) = text.headD '\x00' := by
  cases text <;> rfl

/-- The spots hold the characters of the text, and null behind them. -/
theorem map_char_locate (line column index : Nat) (text : List Char) :
    (locate line column index text).map Spot.char = text ++ ['\x00'] := by
  induction text generalizing line column index with
  | nil => rfl
  | cons c text ih =>
    rw [locate, List.map_cons, List.cons_append]
    split <;> rw [ih]

@[simp] theorem length_locate : (locate line column index text).length = text.length + 1 := by
  rw [← List.length_map, map_char_locate, List.length_append]
  rfl

/-- Behind a character that ends no line the text goes on in the next column. -/
theorem locate_cons (hc : isBreak c = false) :
    locate line column index (c :: text)
      = ⟨c, line, column, index⟩ :: locate line (column + 1) (index + c.utf8Size) text := by
  rw [locate, hc]
  rfl

theorem locate_cons_break (hc : isBreak c = true) :
    locate line column index (c :: text)
      = ⟨c, line, column, index⟩ :: locate (line + 1) 0 (index + c.utf8Size) text := by
  rw [locate, hc]
  rfl

/-- What is skipped on a line leaves a place further right on it. -/
theorem skipChars_locate {p : Char → Bool} (line column index : Nat) (text : List Char)
    (hend : p '\x00' = false) (hbreak : ∀ c, p c = true → isBreak c = false) :
    ∃ column' index', column ≤ column' ∧
      skipChars p (locate line column index text)
        = locate line column' index' (text.dropWhile p) := by
  induction text generalizing column index with
  | nil =>
    refine ⟨column, index, Nat.le_refl column, ?_⟩
    rw [locate, skipChars, List.dropWhile_cons, hend]
    rfl
  | cons c text ih =>
    cases hp : p c with
    | false =>
      refine ⟨column, index, Nat.le_refl column, ?_⟩
      rw [locate, skipChars, List.dropWhile_cons, List.dropWhile_cons, hp]
      rfl
    | true =>
      obtain ⟨column', index', hle, hrest⟩ := @ih (column + 1) (index + c.utf8Size)
      refine ⟨column', index', by omega, ?_⟩
      rw [locate_cons (hbreak c hp), skipChars, List.dropWhile_cons, List.dropWhile_cons, hp]
      exact hrest

theorem isBreak_of_isSpace (h : isSpace c = true) : isBreak c = false := by
  rcases (by simpa [isSpace] using h : c = ' ' ∨ c = '\t') with rfl | rfl <;> rfl

theorem isBreak_of_isLineEnd (h : isLineEnd c = false) : isBreak c = false :=
  (Bool.or_eq_false_iff.1 h).1

/-- A marker stands at the front of a line, and consists of one character. -/
theorem isMarker_cons {mark : Char} {spot : Spot} {rest : Spots}
    (h : spot.column ≠ 0 ∨ spot.char ≠ mark) : isMarker mark (spot :: rest) = false := by
  match rest with
  | [] => rfl
  | [_] => rfl
  | second :: third :: rest => rcases h with h | h <;> simp [isMarker, h]

theorem atMarker_cons {spot : Spot} {rest : Spots} (h : spot.column ≠ 0) :
    atMarker (spot :: rest) = false := by
  rw [atMarker, isMarker_cons (.inl h), isMarker_cons (.inl h), Bool.or_false]

/-! ## Keys on the first line

Whether a line has a key depends on one character of context, namely whether a blank stands
in front. Each lemma takes one character off the text. -/

/-- Whether a colon with nothing or a blank behind it comes before the end of the line and before a
comment. `afterBlank` tells whether a blank stands in front of the text. -/
def hasKey (afterBlank : Bool) : List Char → Bool
  | [] => false
  | c :: rest =>
    if isLineEnd c then false
    else if c = ':' ∧ isWordEnd (rest.headD '\x00') then true
    else if c = '#' ∧ afterBlank then false
    else hasKey (isSpace c) rest

theorem hasKey_blank {afterBlank : Bool} (hc : isSpace c = true) :
    hasKey afterBlank (c :: text) = hasKey true text := by
  rcases (by simpa [isSpace] using hc : c = ' ' ∨ c = '\t') with rfl | rfl <;> rfl

theorem hasKey_colon {afterBlank : Bool} (htext : isWordEnd (text.headD '\x00') = true) :
    hasKey afterBlank (':' :: text) = true := by
  rw [hasKey, if_neg (by decide), if_pos ⟨rfl, htext⟩]

theorem hasKey_word {afterBlank : Bool} (hc : isWordEnd c = false)
    (hcolon : ¬ (c = ':' ∧ isWordEnd (text.headD '\x00') = true))
    (hcomment : ¬ (c = '#' ∧ afterBlank = true)) :
    hasKey afterBlank (c :: text) = hasKey false text := by
  obtain ⟨hspace, hend⟩ := Bool.or_eq_false_iff.1 hc
  rw [hasKey, if_neg (by simp [hend]), if_neg hcolon, if_neg hcomment, hspace]

/-! ## Plain scalars

The scanner makes one of four steps at each character. With the steps as an inductive type,
each fact about the whole scalar is an induction on the text with these four cases. -/

section

variable {read : List Char} {gap : Gap} {spot : Spot} {rest : Spots} {s : Scanned}

/-- What one character may do to a plain scalar outside all collections. -/
inductive PlainStep (read : List Char) (gap : Gap) (spot : Spot) (rest : Spots) (s : Scanned) : Prop
  | blank (hspace : isSpace spot.char = true)
      (h : scanPlain false 0 read (gap.addBlank spot.char) rest = .ok s)
  | lineBreak (hbreak : isBreak spot.char = true)
      (h : scanPlain false 0 read (gap.addBreak spot.char) rest = .ok s)
  | stop (hs : s = ⟨read.reverse, gap.broken, spot :: rest⟩)
      (hstop : endsBeforeWord false 0 read gap spot rest = true ∨
        spot.char = ':' ∧ isWordEnd (peek rest) = true)
  | word (hword : isWordEnd spot.char = false)
      (hends : endsBeforeWord false 0 read gap spot rest = false)
      (h : scanPlain false 0 (spot.char :: (gap.folded ++ read)) .empty rest = .ok s)

/-- **What one character does to a plain scalar outside all collections.** -/
theorem plainStep_of_scanPlain (h : scanPlain false 0 read gap (spot :: rest) = .ok s) :
    PlainStep read gap spot rest s := by
  rw [scanPlain] at h
  rcases ite_eq_iff.1 h with ⟨hspace, h⟩ | ⟨hspace, h⟩
  · rcases ite_eq_iff.1 h with ⟨-, h⟩ | ⟨-, h⟩
    · cases h
    · exact .blank hspace h
  rcases ite_eq_iff.1 h with ⟨hbreak, h⟩ | ⟨hbreak, h⟩
  · exact .lineBreak hbreak h
  rcases ite_eq_iff.1 h with ⟨hends, h⟩ | ⟨hends, h⟩
  · exact .stop (Except.ok.inj h).symm (.inl hends)
  -- outside collections the two tests for them never hold
  rw [Bool.false_and, Bool.false_and, if_neg Bool.false_ne_true, Bool.false_and,
    Bool.or_false] at h
  rcases ite_eq_iff.1 h with ⟨hcolon, h⟩ | ⟨-, h⟩
  · exact .stop (Except.ok.inj h).symm (.inr (by simpa using hcolon))
  · refine .word ?_ (Bool.eq_false_iff.2 hends) h
    have hend : isEnd spot.char = false := by
      rw [endsBeforeWord, Bool.or_assoc, Bool.or_eq_true, not_or] at hends
      exact Bool.eq_false_iff.2 hends.1
    rw [isWordEnd, isLineEnd, hend, Bool.eq_false_iff.2 hspace, Bool.eq_false_iff.2 hbreak]
    rfl

/-- What is behind a plain scalar is a rest of the text, and on no line before it. -/
theorem scanPlain_locate
    (h : scanPlain false 0 read gap (locate line column index text) = .ok s) :
    ∃ line' column' index' text', s.rest = locate line' column' index' text' ∧ line ≤ line' := by
  induction text generalizing read gap line column index with
  | nil =>
    have hs : s = ⟨read.reverse, gap.broken, locate line column index []⟩ :=
      (Except.ok.inj h).symm
    exact ⟨line, column, index, [], by rw [hs], Nat.le_refl line⟩
  | cons c text ih =>
    -- the scalar goes on behind the character, on the same line or the next one
    have hon : ∀ {read gap}, scanPlain false 0 read gap
          (locate line column index (c :: text)).tail = .ok s →
        ∃ line' column' index' text',
          s.rest = locate line' column' index' text' ∧ line ≤ line' := by
      intro read gap h
      cases hbreak : isBreak c with
      | true =>
        rw [locate_cons_break hbreak] at h
        obtain ⟨line', column', index', text', hrest, hle⟩ := ih h
        exact ⟨line', column', index', text', hrest, by omega⟩
      | false =>
        rw [locate_cons hbreak] at h
        exact ih h
    cases plainStep_of_scanPlain h with
    | blank _ h => exact hon h
    | lineBreak _ h => exact hon h
    | stop hs _ => exact ⟨line, column, index, c :: text, by rw [hs]; rfl, Nat.le_refl line⟩
    | word _ _ h => exact hon h

/-- What has been read of a plain scalar stays. -/
theorem scanPlain_value_ne_nil (hread : read ≠ [])
    (h : scanPlain false 0 read gap rest = .ok s) : s.value ≠ [] := by
  induction rest generalizing read gap with
  | nil =>
    obtain rfl := Except.ok.inj h
    exact List.reverse_ne_nil_iff.2 hread
  | cons spot rest ih =>
    cases plainStep_of_scanPlain h with
    | blank _ h => exact ih hread h
    | lineBreak _ h => exact ih hread h
    | stop hs _ => exact hs ▸ List.reverse_ne_nil_iff.2 hread
    | word _ _ h => exact ih (List.cons_ne_nil _ _) h

/-- **Where a plain scalar ends whose first line has no key.** It ends on a later line, with the
text or at a comment. -/
theorem scanPlain_of_not_hasKey
    (h : scanPlain false 0 read gap (locate line column index text) = .ok s) (hread : read ≠ [])
    (hbroken : gap.broken = false) (hcolumn : 0 < column)
    (hkey : hasKey (!gap.blanks.isEmpty) text = false) :
    ∃ line' column' index' text', s.rest = locate line' column' index' text' ∧
      (line < line' ∨
        line' = line ∧ (isEnd (text'.headD '\x00') = true ∨ text'.headD '\x00' = '#')) := by
  induction text generalizing read gap column index with
  | nil =>
    have hs : s = ⟨read.reverse, gap.broken, locate line column index []⟩ :=
      (Except.ok.inj h).symm
    exact ⟨line, column, index, [], by rw [hs], .inr ⟨rfl, .inl rfl⟩⟩
  | cons c text ih =>
    cases plainStep_of_scanPlain h with
    | blank hspace h =>
      have hgap : gap.addBlank c = { gap with blanks := c :: gap.blanks } := by
        rw [Gap.addBlank, hbroken]
        rfl
      rw [isBreak_of_isSpace hspace, hgap] at h
      exact ih h hread hbroken (Nat.succ_pos column) ((hasKey_blank hspace).symm.trans hkey)
    | lineBreak hbreak h =>
      -- whatever follows stands on a later line
      rw [hbreak] at h
      obtain ⟨line', column', index', text', hrest, hle⟩ := scanPlain_locate h
      exact ⟨line', column', index', text', hrest, .inl hle⟩
    | stop hs hstop =>
      refine ⟨line, column, index, c :: text, by rw [hs]; rfl, .inr ⟨rfl, ?_⟩⟩
      rcases hstop with hends | ⟨hcolon, hnext⟩
      · rw [endsBeforeWord, atMarker_cons (Nat.ne_of_gt hcolumn)] at hends
        simp at hends
        tauto
      · obtain rfl : c = ':' := hcolon
        rw [show isBreak ':' = false from rfl, if_neg Bool.false_ne_true, peek_locate] at hnext
        cases (hasKey_colon hnext).symm.trans hkey
    | word hword hends h =>
      obtain ⟨hspace, hend⟩ := Bool.or_eq_false_iff.1 hword
      -- a word goes on at the character, so it is neither a colon that makes a key nor a
      -- comment
      have hcolon : ¬ (c = ':' ∧ isWordEnd (text.headD '\x00') = true) := by
        rintro ⟨rfl, hnext⟩
        cases (hasKey_colon hnext).symm.trans hkey
      have hcomment : ¬ (c = '#' ∧ (!gap.blanks.isEmpty) = true) := by
        rintro ⟨rfl, hblank⟩
        simp [endsBeforeWord, Gap.isEmpty, hblank] at hends
      rw [isBreak_of_isLineEnd hend] at h
      exact ih h (List.cons_ne_nil _ _) rfl (Nat.succ_pos column)
        ((hasKey_word hword hcolon hcomment).symm.trans hkey)

end

end Unimported.Yaml
