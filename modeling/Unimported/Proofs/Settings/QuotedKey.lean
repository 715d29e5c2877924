/-
Quoted keys of TOML as YAML sees them.

A key in quotes is a quoted scalar in YAML, which reads the same characters, if it can read them at
all: the escapes of TOML are escapes of YAML too. Blanks and line breaks are folded there, which
changes the scalar but not where it ends.
-/
import Unimported.Proofs.Settings.Lead

set_option autoImplicit false

namespace Unimported.Settings

open Toml (isCommentChar)
open Yaml (unifyBreaks locate isBreak isSpace peek Lexer)

variable {line column index : Nat} {text rest : List Char} {c : Char} {single : Bool}
  {read : List Char} {gap : Yaml.Gap} {spots : Yaml.Spots} {s : Yaml.Scanned} {value : List Char}

/-! ## One character

The cases of a quoted scalar are told apart once, for any character that is in the text.
After that there is a lemma for each character that means something, and one for all the
others. -/

/-- Inside a quoted scalar there is neither a marker nor the end of the text, and blanks and line
breaks are read as gaps. -/
theorem scanQuoted_text
    (h : Yaml.scanQuoted single .text read gap (⟨c, line, column, index⟩ :: spots) = .ok s) :
    ((isSpace c = true ∨ isBreak c = true) ∧
        ∃ gap', Yaml.scanQuoted single .text read gap' spots = .ok s) ∨
      (if single then
          if c = '\'' then Yaml.scanQuoted single .quote (gap.folded ++ read) .empty spots
          else Yaml.scanQuoted single .text (c :: (gap.folded ++ read)) .empty spots
        else if c = '"' then .ok ⟨(gap.folded ++ read).reverse, false, spots⟩
        else if c = '\\' then Yaml.scanQuoted single .escape (gap.folded ++ read) .empty spots
        else Yaml.scanQuoted single .text (c :: (gap.folded ++ read)) .empty spots) = .ok s := by
  rw [Yaml.scanQuoted] at h
  rcases ite_eq_iff.1 h with ⟨-, h⟩ | ⟨-, h⟩
  · cases h
  rcases ite_eq_iff.1 h with ⟨-, h⟩ | ⟨-, h⟩
  · cases h
  rcases ite_eq_iff.1 h with ⟨hspace, h⟩ | ⟨-, h⟩
  · exact .inl ⟨.inl hspace, _, h⟩
  rcases ite_eq_iff.1 h with ⟨hbreak, h⟩ | ⟨-, h⟩
  · exact .inl ⟨.inr hbreak, _, h⟩
  · exact .inr h

/-- A character that neither ends the scalar nor stands for another one. -/
theorem scanQuoted_other (hc : c ≠ Lexer.quoteOf single ∧ (single = false → c ≠ '\\'))
    (h : Yaml.scanQuoted single .text read gap (⟨c, line, column, index⟩ :: spots) = .ok s) :
    ∃ read' gap', Yaml.scanQuoted single .text read' gap' spots = .ok s := by
  rcases scanQuoted_text h with ⟨-, gap', h⟩ | h
  · exact ⟨read, gap', h⟩
  · cases single with
    | true => exact ⟨_, _, ((if_neg hc.1).symm.trans h :)⟩
    | false => exact ⟨_, _, ((if_neg (hc.2 rfl)).symm.trans ((if_neg hc.1).symm.trans h) :)⟩

theorem scanQuoted_single
    (h : Yaml.scanQuoted true .text read gap (⟨'\'', line, column, index⟩ :: spots) = .ok s) :
    ∃ read', Yaml.scanQuoted true .quote read' .empty spots = .ok s := by
  rcases scanQuoted_text h with ⟨hblank, -⟩ | h
  · exact absurd hblank (by decide)
  · exact ⟨_, h⟩

/-- A quote that no other one follows ends the scalar. -/
theorem scanQuoted_quote (hpeek : peek spots ≠ '\'')
    (h : Yaml.scanQuoted true .quote read gap spots = .ok s) : s.rest = spots := by
  cases spots with
  | nil => cases h
  | cons spot spots =>
    rw [Yaml.scanQuoted] at h
    obtain rfl := Except.ok.inj (((ite_eq_iff.1 h).resolve_left fun hquote => hpeek hquote.1).2)
    rfl

theorem scanQuoted_double
    (h : Yaml.scanQuoted false .text read gap (⟨'"', line, column, index⟩ :: spots) = .ok s) :
    s.rest = spots := by
  rcases scanQuoted_text h with ⟨hblank, -⟩ | h
  · exact absurd hblank (by decide)
  · obtain rfl := Except.ok.inj h
    rfl

theorem scanQuoted_backslash
    (h : Yaml.scanQuoted false .text read gap (⟨'\\', line, column, index⟩ :: spots) = .ok s) :
    ∃ read', Yaml.scanQuoted false .escape read' .empty spots = .ok s := by
  rcases scanQuoted_text h with ⟨hblank, -⟩ | h
  · exact absurd hblank (by decide)
  · exact ⟨_, h⟩

/-- One character is read, and the text goes on on this line or the next one. -/
theorem exists_locate_unifyBreaks (line column index : Nat) (text : List Char) (hc : c ≠ '\r') :
    ∃ line' column' index', locate line column index (unifyBreaks (c :: text))
      = ⟨if c = '\u0085' then '\n' else c, line, column, index⟩
        :: locate line' column' index' (unifyBreaks text) := by
  rw [unifyBreaks_cons hc]
  cases hbreak : isBreak (if c = '\u0085' then '\n' else c) with
  | true => exact ⟨_, _, _, Yaml.locate_cons_break hbreak⟩
  | false => exact ⟨_, _, _, Yaml.locate_cons hbreak⟩

/-- What TOML reads of a string, YAML reads as well. -/
theorem scanQuoted_commentChar (hc : isCommentChar c = true)
    (h : Yaml.scanQuoted single .text read gap
      (locate line column index (unifyBreaks (c :: text))) = .ok s)
    (hother : c ≠ Lexer.quoteOf single ∧ (single = false → c ≠ '\\')) :
    ∃ read' gap' line' column' index', Yaml.scanQuoted single .text read' gap'
      (locate line' column' index' (unifyBreaks text)) = .ok s := by
  have hreturn : c ≠ '\r' := by
    rintro rfl
    cases hc
  obtain ⟨line', column', index', hlocate⟩ :=
    exists_locate_unifyBreaks line column index text hreturn
  -- a line separator is no quote and no backslash either, before it is made a line end and
  -- after
  rw [hlocate] at h
  obtain ⟨read', gap', h⟩ := scanQuoted_other (by
    split
    · cases single <;> exact ⟨by decide, fun _ => by decide⟩
    · exact hother) h
  exact ⟨read', gap', line', column', index', h⟩

/-- A character that stands for itself is read, and the text goes on on this line or the next. -/
theorem exists_locate_same (line column index : Nat) (text : List Char)
    (hc : c ≠ '\r' ∧ c ≠ '\u0085') :
    ∃ line' column' index', locate line column index (unifyBreaks (c :: text))
      = ⟨c, line, column, index⟩ :: locate line' column' index' (unifyBreaks text) := by
  obtain ⟨line', column', index', hlocate⟩ :=
    exists_locate_unifyBreaks line column index text hc.1
  exact ⟨line', column', index', by rw [hlocate, if_neg hc.2]⟩

theorem scanQuoted_escape (hbreak : isBreak c = false)
    (h : Yaml.scanQuoted single .escape read gap (⟨c, line, column, index⟩ :: spots) = .ok s) :
    (∀ e, Yaml.simpleEscapes.lookup c = some e →
        Yaml.scanQuoted single .text (e :: read) .empty spots = .ok s) ∧
      (Yaml.simpleEscapes.lookup c = none → ∀ n, Yaml.digitEscapes.lookup c = some n →
        Yaml.scanQuoted single (.digits n 0) read .empty spots = .ok s) := by
  rw [Yaml.scanQuoted] at h
  simp only [hbreak] at h
  constructor
  · intro e he
    rw [he] at h
    exact h
  · intro hnone n hn
    rw [hnone, hn] at h
    exact h

theorem lookup_mem {α β : Type} [BEq α] [LawfulBEq α] {entries : List (α × β)} {a : α} {b : β}
    (h : entries.lookup a = some b) : (a, b) ∈ entries := by
  obtain ⟨before, after, hall, -⟩ := List.lookup_eq_some_iff.1 h
  rw [hall]
  exact List.mem_append_right before List.mem_cons_self

/-- What TOML escapes with one letter, YAML does too. -/
theorem lookup_simpleEscapes {e : Char} (h : Toml.escapes.lookup c = some e) :
    (c ≠ '\r' ∧ c ≠ '\u0085') ∧ isBreak c = false ∧
      (Yaml.simpleEscapes.lookup c).isSome = true :=
  (by decide : ∀ entry ∈ Toml.escapes, (entry.1 ≠ '\r' ∧ entry.1 ≠ '\u0085') ∧
    isBreak entry.1 = false ∧ (Yaml.simpleEscapes.lookup entry.1).isSome = true) _ (lookup_mem h)

/-- What TOML escapes with a number of digits, YAML does too. -/
theorem lookup_digitEscapes {n : Nat} (h : Toml.longEscapes.lookup c = some n) :
    (c ≠ '\r' ∧ c ≠ '\u0085') ∧ isBreak c = false ∧ Yaml.simpleEscapes.lookup c = none ∧
      Yaml.digitEscapes.lookup c = some n :=
  (by decide : ∀ entry ∈ Toml.longEscapes, (entry.1 ≠ '\r' ∧ entry.1 ≠ '\u0085') ∧
    isBreak entry.1 = false ∧ Yaml.simpleEscapes.lookup entry.1 = none ∧
      Yaml.digitEscapes.lookup entry.1 = some entry.2) _ (lookup_mem h)

/-! ## Whole keys

The string and the scalar go through the same text, in step. What each has read so far may
differ, since blanks are folded, and so may the lines and columns. Hence the induction is on
the text, for anything that has been read, and what it shows is where both end. -/

/-- **A literal key** is a single-quoted scalar. -/
theorem scanQuoted_literal {seen : List Char} (h : Toml.readLiteral seen text = .ok (value, rest))
    (hrest : (unifyBreaks rest).headD '\x00' ≠ '\'')
    (hscan : Yaml.scanQuoted true .text read gap (locate line column index (unifyBreaks text))
      = .ok s) :
    ∃ line' column' index', s.rest = locate line' (column' + 1) index' (unifyBreaks rest) := by
  induction text generalizing seen read gap line column index with
  | nil => cases h
  | cons c text ih =>
    rw [Toml.readLiteral] at h
    rcases ite_eq_iff.1 h with ⟨rfl, h⟩ | ⟨hquote, h⟩
    · obtain ⟨-, rfl⟩ := Prod.mk.inj (Except.ok.inj h)
      rw [unifyBreaks_cons (by decide), if_neg (by decide), Yaml.locate_cons rfl] at hscan
      obtain ⟨read', hscan⟩ := scanQuoted_single hscan
      exact ⟨line, column, _, scanQuoted_quote (Yaml.peek_locate ▸ hrest) hscan⟩
    · rcases ite_eq_iff.1 h with ⟨hc, h⟩ | ⟨-, h⟩
      · obtain ⟨_, _, _, _, _, hscan⟩ := scanQuoted_commentChar hc hscan ⟨hquote, nofun⟩
        exact ih h hscan
      · cases h

/-- What YAML is in the middle of where TOML is in the middle of something. -/
def modeOf : Toml.StringMode → Yaml.QuoteMode
  | .escape => .escape
  | .digits missing value => .digits missing value
  | _ => .text

/-- TOML reads a text as the rest of a string and YAML as that of a scalar, both from the same place
in it. -/
def BothRead (text value rest : List Char) (s : Yaml.Scanned) : Prop :=
  ∃ mode seen read gap line column index, Toml.readBasic mode seen text = .ok (value, rest) ∧
    Yaml.scanQuoted false (modeOf mode) read gap (locate line column index (unifyBreaks text))
      = .ok s

/-- The string ends with a quote in both forms, or both go on. -/
theorem bothRead_text {seen : List Char}
    (h : Toml.readBasic .text seen (c :: text) = .ok (value, rest))
    (hscan : Yaml.scanQuoted false .text read gap
      (locate line column index (unifyBreaks (c :: text))) = .ok s) :
    (rest = text ∧ ∃ index', s.rest = locate line (column + 1) index' (unifyBreaks text)) ∨
      BothRead text value rest s := by
  rcases ite_eq_iff.1 h with ⟨rfl, h⟩ | ⟨hquote, h⟩
  · rw [unifyBreaks_cons (by decide), if_neg (by decide), Yaml.locate_cons rfl] at hscan
    exact .inl ⟨(Prod.mk.inj (Except.ok.inj h)).2.symm, _, scanQuoted_double hscan⟩
  right
  rcases ite_eq_iff.1 h with ⟨rfl, h⟩ | ⟨hescape, h⟩
  · rw [unifyBreaks_cons (by decide), if_neg (by decide), Yaml.locate_cons rfl] at hscan
    obtain ⟨read', hscan⟩ := scanQuoted_backslash hscan
    exact ⟨.escape, seen, read', _, _, _, _, h, hscan⟩
  rcases ite_eq_iff.1 h with ⟨hc, h⟩ | ⟨-, h⟩
  · obtain ⟨read', gap', line', column', index', hscan⟩ :=
      scanQuoted_commentChar hc hscan ⟨hquote, fun _ => hescape⟩
    exact ⟨.text, c :: seen, read', gap', line', column', index', h, hscan⟩
  · cases h

/-- What TOML escapes, YAML does too. -/
theorem bothRead_escape {seen : List Char}
    (h : Toml.readBasic .escape seen (c :: text) = .ok (value, rest))
    (hscan : Yaml.scanQuoted false .escape read gap
      (locate line column index (unifyBreaks (c :: text))) = .ok s) :
    BothRead text value rest s := by
  rw [Toml.readBasic] at h
  -- both tables of TOML are parts of those of YAML, so each lookup succeeds in both forms
  cases hsimple : Toml.escapes.lookup c with
  | some e =>
    rw [hsimple] at h
    obtain ⟨hstands, hbreak, hyaml⟩ := lookup_simpleEscapes hsimple
    obtain ⟨e', hyaml⟩ := Option.isSome_iff_exists.1 hyaml
    obtain ⟨line', column', index', hlocate⟩ :=
      exists_locate_same line column index text hstands
    rw [hlocate] at hscan
    exact ⟨.text, e :: seen, _, _, line', column', index', h,
      (scanQuoted_escape hbreak hscan).1 e' hyaml⟩
  | none =>
    cases hdigits : Toml.longEscapes.lookup c with
    | some n =>
      rw [hsimple, hdigits] at h
      obtain ⟨hstands, hbreak, hnone, hyaml⟩ := lookup_digitEscapes hdigits
      obtain ⟨line', column', index', hlocate⟩ :=
        exists_locate_same line column index text hstands
      rw [hlocate] at hscan
      exact ⟨.digits n 0, seen, _, _, line', column', index', h,
        (scanQuoted_escape hbreak hscan).2 hnone n hyaml⟩
    | none =>
      rw [hsimple, hdigits] at h
      cases h

/-- Hexadecimal digits are read alike, and the same numbers are characters. -/
theorem bothRead_digits {seen : List Char} {missing number : Nat}
    (h : Toml.readBasic (.digits missing number) seen (c :: text) = .ok (value, rest))
    (hscan : Yaml.scanQuoted false (.digits missing number) read gap
      (locate line column index (unifyBreaks (c :: text))) = .ok s) :
    BothRead text value rest s := by
  rw [Toml.readBasic] at h
  cases hdigit : Toml.digitValue? c with
  | none =>
    rw [hdigit] at h
    cases h
  | some digit =>
    rw [hdigit] at h
    have hstands : c ≠ '\r' ∧ c ≠ '\u0085' := by
      constructor <;> rintro rfl <;> cases hdigit
    have hyaml : Yaml.hexValue? c = some digit := hdigit
    obtain ⟨line', column', index', hlocate⟩ :=
      exists_locate_same line column index text hstands
    rw [hlocate, Yaml.scanQuoted] at hscan
    simp only [hyaml] at hscan
    -- more digits are missing, or the number is complete and has to be a character
    rcases ite_eq_iff.1 h with ⟨hmore, h⟩ | ⟨hlast, h⟩
    · rw [if_neg (Nat.not_le.2 hmore)] at hscan
      exact ⟨.digits _ _, seen, _, _, line', column', index', h, hscan⟩
    · rw [if_pos (Nat.not_lt.1 hlast)] at hscan
      rcases ite_eq_iff.1 h with ⟨hrange, h⟩ | ⟨-, h⟩
      · rw [Yaml.charOfNat?, if_pos hrange] at hscan
        exact ⟨.text, _, _, _, line', column', index', h, hscan⟩
      · cases h

/-- **A basic key** is a double-quoted scalar. -/
theorem rest_of_bothRead (h : BothRead text value rest s) :
    ∃ line' column' index', s.rest = locate line' (column' + 1) index' (unifyBreaks rest) := by
  induction text with
  | nil =>
    obtain ⟨mode, seen, read, gap, line, column, index, h, -⟩ := h
    cases h
  | cons c text ih =>
    obtain ⟨mode, seen, read, gap, line, column, index, h, hscan⟩ := h
    -- where TOML folds lines, YAML reads text
    have htext : Toml.readBasic .text seen (c :: text) = .ok (value, rest) →
        modeOf mode = .text →
        ∃ line' column' index', s.rest = locate line' (column' + 1) index' (unifyBreaks rest) := by
      intro h hmode
      rw [hmode] at hscan
      rcases bothRead_text h hscan with ⟨rfl, index', hrest⟩ | hboth
      · exact ⟨line, column, index', hrest⟩
      · exact ih hboth
    cases mode with
    | text => exact htext h rfl
    | fold => exact htext h rfl
    | foldStart => exact htext h rfl
    | escape => exact ih (bothRead_escape h hscan)
    | digits missing number => exact ih (bothRead_digits h hscan)

end Unimported.Settings
