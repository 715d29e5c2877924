/-
Strings of JSON texts, character by character.

A reader need not look ahead: the first character of what is left says whether the string ends,
whether a character stands for itself, and how far an escape sequence goes. So from each text at
most one string can be read, and it is the one that the grammar finds at the front of the text.
-/
import Unimported.Proofs.Json.Grammar
import Unimported.Proofs.Text.Utf8
import Mathlib.Data.List.TakeWhile
import Mathlib.Tactic.SplitIfs

set_option autoImplicit false

namespace Unimported.Json

variable {text rest s written digits : List Char} {chars : List Char} {c : Char} {n unit : Nat}

/-- What is behind a character, if the text starts with it. -/
def expect? (c : Char) (text : List Char) : Option (List Char) :=
  if text.head? = some c then some text.tail else none

theorem expect?_eq_some_iff : expect? c text = some rest ↔ text = c :: rest := by
  cases text with
  | nil => simp [expect?]
  | cons d text => simp [expect?]

/-! ## Escape sequences

Each reader comes with two lemmas. What the grammar allows is read, whatever stands behind
it, and what has been read is what the grammar allows. Together they say that the reader and
the grammar agree, and they go through the larger readers in the same way. -/

/-- Reads four hexadecimal digits. -/
def readUnit? : List Char → Option (Nat × List Char)
  | a :: b :: c :: d :: rest => (unit? [a, b, c, d]).map fun unit => (unit, rest)
  | _ => none

theorem exists_of_unit? (h : unit? digits = some n) : ∃ a b c d, digits = [a, b, c, d] := by
  match digits, h with
  | [a, b, c, d], _ => exact ⟨a, b, c, d, rfl⟩

theorem readUnit?_append (h : unit? digits = some n) (rest : List Char) :
    readUnit? (digits ++ rest) = some (n, rest) := by
  obtain ⟨a, b, c, d, rfl⟩ := exists_of_unit? h
  change (unit? [a, b, c, d]).map (fun unit => (unit, rest)) = some (n, rest)
  rw [h, Option.map_some]

theorem exists_of_readUnit? (h : readUnit? text = some (n, rest)) :
    ∃ digits, text = digits ++ rest ∧ unit? digits = some n := by
  match text, h with
  | a :: b :: c :: d :: behind, h =>
    obtain ⟨unit, hunit, heq⟩ := Option.map_eq_some_iff.1 h
    obtain ⟨rfl, rfl⟩ := Prod.mk.inj heq
    exact ⟨[a, b, c, d], rfl, hunit⟩

theorem hexValue?_lt (h : hexValue? c = some n) : n < 16 := by
  rw [hexValue?] at h
  split_ifs at h with hdigit hsmall hlarge
  · rw [Char.isDigit, Bool.and_eq_true, decide_eq_true_eq, decide_eq_true_eq] at hdigit
    have hle : c.toNat ≤ '9'.toNat := hdigit.2
    rw [← Option.some.inj h]
    exact Nat.lt_of_le_of_lt (Nat.sub_le_sub_right hle _) (by decide)
  · have hle : c.toNat ≤ 'f'.toNat := hsmall.2
    rw [← Option.some.inj h]
    exact Nat.lt_of_le_of_lt (Nat.add_le_add_right (Nat.sub_le_sub_right hle _) _) (by decide)
  · have hle : c.toNat ≤ 'F'.toNat := hlarge.2
    rw [← Option.some.inj h]
    exact Nat.lt_of_le_of_lt (Nat.add_le_add_right (Nat.sub_le_sub_right hle _) _) (by decide)

theorem unit?_lt (h : unit? digits = some n) : n < 0x10000 := by
  obtain ⟨a, b, c, d, rfl⟩ := exists_of_unit? h
  simp only [unit?, Option.bind_eq_bind, Option.pure_def, Option.bind_eq_some_iff,
    Option.some.injEq] at h
  obtain ⟨a', ha, b', hb, c', hc, d', hd, rfl⟩ := h
  have ha := hexValue?_lt ha
  have hb := hexValue?_lt hb
  have hc := hexValue?_lt hc
  have hd := hexValue?_lt hd
  omega

/-- Reads the second half of a surrogate pair. -/
def readLow? (text : List Char) : Option (Nat × List Char) :=
  (((expect? '\\' text).bind (expect? 'u')).bind readUnit?).filter fun (unit, _) => IsLow unit

theorem readLow?_append (h : unit? digits = some unit) (hlow : IsLow unit) (rest : List Char) :
    readLow? ('\\' :: 'u' :: (digits ++ rest)) = some (unit, rest) := by
  rw [readLow?, expect?_eq_some_iff.2 rfl, Option.bind_some, expect?_eq_some_iff.2 rfl,
    Option.bind_some, readUnit?_append h, Option.filter_some_pos (by simpa using hlow)]

theorem exists_of_readLow? (h : readLow? text = some (unit, rest)) :
    ∃ digits, text = '\\' :: 'u' :: (digits ++ rest) ∧ unit? digits = some unit ∧ IsLow unit := by
  obtain ⟨hread, hlow⟩ := Option.filter_eq_some_iff.1 h
  obtain ⟨behind, hread, hunit⟩ := Option.bind_eq_some_iff.1 hread
  obtain ⟨behind', hslash, hletter⟩ := Option.bind_eq_some_iff.1 hread
  obtain ⟨digits, rfl, hdigits⟩ := exists_of_readUnit? hunit
  obtain rfl := expect?_eq_some_iff.1 hletter
  exact ⟨digits, expect?_eq_some_iff.1 hslash, hdigits, by simpa using hlow⟩

/-- Reads the code behind `\u`, and for the first half of a surrogate pair the second one. -/
def readCode? (text : List Char) : Option (Char × List Char) :=
  (readUnit? text).bind fun (unit, rest) =>
    if IsHigh unit then
      (readLow? rest).map fun (low, rest) => (Char.ofNat (ofPair unit low), rest)
    else if IsLow unit then none
    else some (Char.ofNat unit, rest)

/-- Reads what is behind a backslash. -/
def readEscape? (text : List Char) : Option (Char × List Char) :=
  match expect? 'u' text with
  | some rest => readCode? rest
  | none => text.head?.bind fun letter => (letterEscapes.lookup letter).map fun c => (c, text.tail)

/-- Reads a character of a string. -/
def readChar? (text : List Char) : Option (Char × List Char) :=
  match expect? '\\' text with
  | some rest => readEscape? rest
  | none => text.head?.bind fun c => if isPlain c = true then some (c, text.tail) else none

/-! ## Characters

A code point above the first 65536 is written as two halves, which no character has for its
code point. So a unit that is a half must have its other half behind it, and one that is
none stands alone. -/

theorem toNat_ofPair {high low : Nat} (hhigh : IsHigh high) (hlow : IsLow low) :
    (Char.ofNat (ofPair high low)).toNat = ofPair high low := by
  have hbounds : 0x10000 ≤ ofPair high low ∧ ofPair high low < 0x110000 := by
    obtain ⟨hhigh, hhigh'⟩ := hhigh
    obtain ⟨hlow, hlow'⟩ := hlow
    unfold ofPair
    omega
  exact Text.Utf8.toNat_ofNat (.inr ⟨Nat.lt_of_lt_of_le (by decide) hbounds.1, hbounds.2⟩)

theorem toNat_ofUnit (hunit : unit < 0x10000) (hhigh : ¬ IsHigh unit) (hlow : ¬ IsLow unit) :
    (Char.ofNat unit).toNat = unit := by
  have hvalid : unit.isValidChar := by
    rw [IsHigh] at hhigh
    rw [IsLow] at hlow
    rw [Nat.isValidChar]
    omega
  exact Text.Utf8.toNat_ofNat hvalid

/-- No character has half of a surrogate pair as its code point. -/
theorem not_surrogate (c : Char) : ¬ IsHigh c.toNat ∧ ¬ IsLow c.toNat := by
  have hvalid : c.toNat < 0xD800 ∨ 0xDFFF < c.toNat ∧ c.toNat < 0x110000 := c.valid
  rw [IsHigh, IsLow]
  omega

theorem exists_of_readCode? (hread : readCode? text = some (c, rest)) :
    ∃ s, text = s ++ rest ∧ SpellsChar c ('\\' :: 'u' :: s) := by
  obtain ⟨⟨unit, behind⟩, hunit, h⟩ := Option.bind_eq_some_iff.1 hread
  obtain ⟨digits, rfl, hdigits⟩ := exists_of_readUnit? hunit
  dsimp only at h
  -- a pair, then half of one, which cannot be read, then a unit by itself
  split_ifs at h with hhigh hlow
  · obtain ⟨⟨low, behind'⟩, hread', heq⟩ := Option.map_eq_some_iff.1 h
    obtain ⟨rfl, rfl⟩ := Prod.mk.inj heq
    obtain ⟨digits', rfl, hdigits', hlow⟩ := exists_of_readLow? hread'
    refine ⟨digits ++ '\\' :: 'u' :: digits', by simp, ?_⟩
    exact .pair hdigits hdigits' hhigh hlow (toNat_ofPair hhigh hlow)
  · obtain ⟨rfl, rfl⟩ := Prod.mk.inj (Option.some.inj h)
    refine ⟨digits, rfl, .unit ?_⟩
    rw [toNat_ofUnit (unit?_lt hdigits) hhigh hlow, hdigits]

theorem exists_of_readChar? (h : readChar? text = some (c, rest)) :
    ∃ s, text = s ++ rest ∧ SpellsChar c s := by
  rw [readChar?] at h
  split at h
  case h_1 behind hslash =>
    obtain rfl := expect?_eq_some_iff.1 hslash
    -- an escape, by its code or by its letter
    rw [readEscape?] at h
    split at h
    case h_1 behind' hletter =>
      obtain rfl := expect?_eq_some_iff.1 hletter
      obtain ⟨s, rfl, hs⟩ := exists_of_readCode? h
      exact ⟨_, rfl, hs⟩
    case h_2 =>
      obtain ⟨letter, hhead, h⟩ := Option.bind_eq_some_iff.1 h
      obtain ⟨behind', rfl⟩ := List.head?_eq_some_iff.1 hhead
      obtain ⟨c', hlookup, heq⟩ := Option.map_eq_some_iff.1 h
      obtain ⟨rfl, rfl⟩ := Prod.mk.inj heq
      refine ⟨['\\', letter], rfl, .letter ?_⟩
      obtain ⟨front, back, hsplit, -⟩ := List.lookup_eq_some_iff.1 hlookup
      rw [hsplit]
      exact List.mem_append_right _ List.mem_cons_self
  case h_2 =>
    -- a character that stands for itself
    obtain ⟨d, hhead, h⟩ := Option.bind_eq_some_iff.1 h
    obtain ⟨behind, rfl⟩ := List.head?_eq_some_iff.1 hhead
    split_ifs at h with hplain
    obtain ⟨rfl, rfl⟩ := Prod.mk.inj (Option.some.inj h)
    exact ⟨[d], rfl, .plain hplain⟩

theorem readChar?_append (h : SpellsChar c s) (rest : List Char) :
    readChar? (s ++ rest) = some (c, rest) := by
  cases h with
  | plain hplain =>
    have hslash : c ≠ '\\' := by rintro rfl; exact absurd hplain (by decide)
    simp [readChar?, expect?, hslash, hplain]
  | @letter letter _ hmem =>
    revert hmem
    simp only [letterEscapes, List.mem_cons, List.not_mem_nil, or_false, Prod.mk.injEq]
    rintro (⟨rfl, rfl⟩ | ⟨rfl, rfl⟩ | ⟨rfl, rfl⟩ | ⟨rfl, rfl⟩ | ⟨rfl, rfl⟩ | ⟨rfl, rfl⟩ |
      ⟨rfl, rfl⟩ | ⟨rfl, rfl⟩) <;> rfl
  | @unit _ digits hunit =>
    -- A character is no half of a pair, so no second unit is looked for.
    have hc := not_surrogate c
    change readCode? (digits ++ rest) = some (c, rest)
    rw [readCode?, readUnit?_append hunit, Option.bind_some]
    dsimp only
    rw [if_neg hc.1, if_neg hc.2, Char.ofNat_toNat]
  | @pair _ first second high low hfirst hsecond hhigh hlow hc =>
    change readCode? ((first ++ '\\' :: 'u' :: second) ++ rest) = some (c, rest)
    rw [readCode?, List.append_assoc, readUnit?_append hfirst, Option.bind_some]
    dsimp only
    rw [if_pos hhigh, List.cons_append, List.cons_append, readLow?_append hsecond hlow,
      Option.map_some, ← hc, Char.ofNat_toNat]

/-! ## Strings

A string is read one character at a time. Each takes a step, and each has at least one
character in the text, so the length of the text is steps enough. -/

/-- Reads the characters of a string up to its last quote, so many at most. -/
def readText : Nat → List Char → Option (List Char × List Char)
  | 0, _ => none
  | fuel + 1, text =>
    match expect? '"' text with
    | some rest => some ([], rest)
    | none => (readChar? text).bind fun (c, rest) =>
      (readText fuel rest).map fun (chars, rest) => (c :: chars, rest)

theorem SpellsChar.exists_cons (h : SpellsChar c s) : ∃ d rest, s = d :: rest ∧ d ≠ '"' := by
  cases h with
  | plain hplain => exact ⟨_, _, rfl, by rintro rfl; exact absurd hplain (by decide)⟩
  | letter => exact ⟨_, _, rfl, by decide⟩
  | unit => exact ⟨_, _, rfl, by decide⟩
  | pair => exact ⟨_, _, rfl, by decide⟩

theorem readText_append (h : SpellsText chars s) {fuel : Nat} (hfuel : s.length ≤ fuel)
    (rest : List Char) : readText fuel (s ++ rest) = some (chars, rest) := by
  induction h generalizing fuel with
  | quote =>
    obtain ⟨fuel, rfl⟩ := Nat.exists_eq_add_of_le' hfuel
    rw [List.singleton_append, List.length_singleton, readText, expect?_eq_some_iff.2 rfl]
  | @char c chars written behind hchar _ ih =>
    -- What a character is written with is not the quote, and takes at least one step.
    obtain ⟨d, written', hwritten, hquote⟩ := hchar.exists_cons
    have hlength : behind.length + 1 ≤ fuel := by
      rw [List.length_append, hwritten, List.length_cons] at hfuel
      omega
    obtain ⟨fuel, rfl⟩ := Nat.exists_eq_add_of_le' (Nat.le_of_add_left_le hlength)
    have hnone : expect? '"' (written ++ behind ++ rest) = none := by
      rw [hwritten]
      simp [expect?, hquote]
    rw [readText, hnone]
    dsimp only
    rw [List.append_assoc, readChar?_append hchar, Option.bind_some,
      ih (Nat.le_of_add_le_add_right hlength), Option.map_some]

theorem exists_of_readText {fuel : Nat} (h : readText fuel text = some (chars, rest)) :
    ∃ s, text = s ++ rest ∧ SpellsText chars s := by
  induction fuel generalizing text chars with
  | zero => cases h
  | succ fuel ih =>
    rw [readText] at h
    split at h
    case h_1 behind hquote =>
      obtain ⟨rfl, rfl⟩ := Prod.mk.inj (Option.some.inj h)
      exact ⟨['"'], expect?_eq_some_iff.1 hquote, .quote⟩
    case h_2 =>
      obtain ⟨⟨c, behind⟩, hchar, h⟩ := Option.bind_eq_some_iff.1 h
      obtain ⟨⟨chars', rest'⟩, htext, heq⟩ := Option.map_eq_some_iff.1 h
      obtain ⟨rfl, rfl⟩ := Prod.mk.inj heq
      obtain ⟨written, rfl, hwritten⟩ := exists_of_readChar? hchar
      obtain ⟨s, rfl, hs⟩ := ih htext
      exact ⟨written ++ s, (List.append_assoc ..).symm, .char hwritten hs⟩

/-! ## Blanks and keys

Blanks are skipped as far as they go. What stands behind them in the grammar is never a
blank, so the grammar cuts the text in the same place. -/

/-- The text behind the blanks in front. -/
def skipGap (text : List Char) : List Char := text.dropWhile isSpace

theorem skipGap_append {gap : List Char} (hgap : IsGap gap) (text : List Char) :
    skipGap (gap ++ text) = skipGap text := List.dropWhile_append_of_pos hgap

theorem skipGap_cons (h : isSpace c = false) (text : List Char) :
    skipGap (c :: text) = c :: text :=
  List.dropWhile_cons_of_neg (by rw [h]; exact Bool.false_ne_true)

theorem exists_gap (text : List Char) : ∃ gap, IsGap gap ∧ text = gap ++ skipGap text :=
  ⟨text.takeWhile isSpace, fun _ hc => List.mem_takeWhile_imp hc,
    List.takeWhile_append_dropWhile.symm⟩

/-- Reads a key and the colon behind it. -/
def readKey (fuel : Nat) (text : List Char) : Option (String × List Char) :=
  (expect? '"' (skipGap text)).bind fun rest => (readText fuel rest).bind fun (chars, rest) =>
    (expect? ':' (skipGap rest)).map fun rest => (String.ofList chars, rest)

theorem readKey_append {key : String} (h : SpellsKey key s) {fuel : Nat}
    (hfuel : s.length ≤ fuel) (rest : List Char) :
    readKey fuel (s ++ rest) = some (key, rest) := by
  obtain ⟨hbefore, htext, hafter⟩ := h
  rename_i before text after
  have hlength : text.length ≤ fuel := by
    simp only [List.length_append, List.length_cons] at hfuel
    omega
  have hfront : skipGap (before ++ '"' :: text ++ after ++ [':'] ++ rest)
      = '"' :: (text ++ (after ++ ':' :: rest)) := by
    rw [List.append_assoc, List.append_assoc, List.append_assoc, skipGap_append hbefore]
    exact skipGap_cons (by decide) _
  have hcolon : skipGap (after ++ ':' :: rest) = ':' :: rest := by
    rw [skipGap_append hafter]
    exact skipGap_cons (by decide) _
  rw [readKey, hfront, expect?_eq_some_iff.2 rfl, Option.bind_some,
    readText_append htext hlength, Option.bind_some]
  dsimp only
  rw [hcolon, expect?_eq_some_iff.2 rfl, Option.map_some, String.ofList_toList]

theorem exists_of_readKey {fuel : Nat} {key : String}
    (hread : readKey fuel text = some (key, rest)) : ∃ s, text = s ++ rest ∧ SpellsKey key s := by
  obtain ⟨behind, hquote, hread⟩ := Option.bind_eq_some_iff.1 hread
  obtain ⟨⟨chars, behind'⟩, htext, hread⟩ := Option.bind_eq_some_iff.1 hread
  obtain ⟨rest', hcolon, heq⟩ := Option.map_eq_some_iff.1 hread
  obtain ⟨rfl, rfl⟩ := Prod.mk.inj heq
  obtain ⟨before, hbefore, hfront⟩ := exists_gap text
  obtain ⟨s, rfl, hs⟩ := exists_of_readText htext
  obtain ⟨after, hafter, hback⟩ := exists_gap behind'
  rw [expect?_eq_some_iff.1 hcolon] at hback
  rw [expect?_eq_some_iff.1 hquote] at hfront
  refine ⟨before ++ '"' :: s ++ after ++ [':'], ?_, .mk hbefore ?_ hafter⟩
  · rw [hfront, hback]
    simp only [List.append_assoc, List.cons_append, List.nil_append]
  · rwa [String.toList_ofList]

end Unimported.Json
