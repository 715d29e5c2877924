/-
Words of JSON texts: numbers, and the names of the three values that have one.

The grammar says of a number which parts it has, and not where they are. But each part starts with a
character that the parts before it lack, so cutting at these characters finds them, and whether a
text is a number can be decided. With that, `word?` reads the value that a word spells.
-/
import Unimported.Proofs.Json.Grammar
import Mathlib.Data.List.TakeWhile

set_option autoImplicit false

namespace Unimported.Json

variable {text front rest digits : List Char} {c : Char} {t : Tree}

/-- Characters are taken from the front up to the first one that fails the test. -/
theorem split_front {p : Char → Bool} (hfront : ∀ c ∈ front, p c = true)
    (hrest : ∀ c ∈ rest.head?, p c = false) :
    (front ++ rest).takeWhile p = front ∧ (front ++ rest).dropWhile p = rest := by
  rw [List.takeWhile_append_of_pos hfront, List.dropWhile_append_of_pos hfront]
  cases rest with
  | nil => exact ⟨List.append_nil _, rfl⟩
  | cons c rest =>
    have hc : ¬ p c = true := by rw [hrest c rfl]; exact Bool.false_ne_true
    rw [List.takeWhile_cons_of_neg hc, List.dropWhile_cons_of_neg hc, List.append_nil]
    exact ⟨rfl, rfl⟩

/-! ## The parts of a number

Each part is decided by its first character and by what is behind it. The instances follow
the constructors of the grammar, one case for each. -/

/-- The text of a natural number. -/
def IsNatural (text : List Char) : Prop := ∃ n, text = Nat.toDigits 10 n

theorem isNatural_iff :
    IsNatural text ↔ Nat.toDigits 10 (Nat.ofDigitChars 10 text 0) = text := by
  constructor
  · rintro ⟨n, rfl⟩
    rw [Nat.ofDigitChars_ten_toDigits]
  · intro h
    exact ⟨_, h.symm⟩

instance : Decidable (IsNatural text) := decidable_of_iff _ isNatural_iff.symm

instance : Decidable (IsDigits text) :=
  decidable_of_iff (text.isEmpty = false ∧ text.all Char.isDigit = true) (by
    rw [List.isEmpty_eq_false_iff, List.all_eq_true]
    rfl)

instance : Decidable (IsSigned text) :=
  decidable_of_iff (IsNatural text ∨ text.head? = some '-' ∧ IsNatural text.tail) (by
    constructor
    · rintro (⟨n, rfl⟩ | ⟨hhead, n, htail⟩)
      · exact .plain n
      · obtain ⟨rest, rfl⟩ := List.head?_eq_some_iff.1 hhead
        obtain rfl : rest = Nat.toDigits 10 n := htail
        exact .minus n
    · rintro (n | n)
      · exact .inl ⟨n, rfl⟩
      · exact .inr ⟨rfl, n, rfl⟩)

instance : Decidable (IsFraction text) :=
  decidable_of_iff (text = [] ∨ text.head? = some '.' ∧ IsDigits text.tail) (by
    constructor
    · rintro (rfl | ⟨hhead, hdigits⟩)
      · exact .none
      · obtain ⟨rest, rfl⟩ := List.head?_eq_some_iff.1 hhead
        exact .digits hdigits
    · rintro (_ | hdigits)
      · exact .inl rfl
      · exact .inr ⟨rfl, hdigits⟩)

instance : Decidable (IsPower text) :=
  decidable_of_iff
    (IsDigits text ∨ (text.head? = some '+' ∨ text.head? = some '-') ∧ IsDigits text.tail) (by
    constructor
    · rintro (hdigits | ⟨hhead | hhead, hdigits⟩)
      · exact .plain hdigits
      · obtain ⟨rest, rfl⟩ := List.head?_eq_some_iff.1 hhead
        exact .plus hdigits
      · obtain ⟨rest, rfl⟩ := List.head?_eq_some_iff.1 hhead
        exact .minus hdigits
    · rintro (hdigits | hdigits | hdigits)
      · exact .inl hdigits
      · exact .inr ⟨.inl rfl, hdigits⟩
      · exact .inr ⟨.inr rfl, hdigits⟩)

instance : Decidable (IsExponent text) :=
  decidable_of_iff (text = [] ∨ text.head?.any isMark = true ∧ IsPower text.tail) (by
    constructor
    · rintro (rfl | ⟨hhead, hpower⟩)
      · exact .none
      · obtain ⟨mark, hmem, hmark⟩ := (Option.any_eq_true _ _).1 hhead
        obtain ⟨rest, rfl⟩ := List.head?_eq_some_iff.1 hmem
        exact .power hmark hpower
    · rintro (_ | ⟨hmark, hpower⟩)
      · exact .inl rfl
      · exact .inr ⟨hmark, hpower⟩)

/-! ## Numbers

No part before the exponent has its letter, and none before the fraction has the point. So
the texts that are cut off at these characters are the parts, and the other way round the
parts make up the text again. -/

theorem isDigit_of_mem_toDigits {n : Nat} (h : c ∈ Nat.toDigits 10 n) : c.isDigit = true :=
  Nat.isDigit_of_mem_toDigits (by decide) (by decide) h

theorem isMark_of_isDigit (h : c.isDigit = true) : isMark c = false := by
  rw [isMark, Bool.or_eq_false_iff]
  constructor <;> rw [decide_eq_false_iff_not] <;> rintro rfl <;> exact absurd h (by decide)

theorem IsSigned.mem (h : IsSigned text) (hc : c ∈ text) : c.isDigit = true ∨ c = '-' := by
  cases h with
  | plain n => exact .inl (isDigit_of_mem_toDigits hc)
  | minus n =>
    rcases List.mem_cons.1 hc with rfl | hc
    · exact .inr rfl
    · exact .inl (isDigit_of_mem_toDigits hc)

theorem IsFraction.mem (h : IsFraction text) (hc : c ∈ text) : c.isDigit = true ∨ c = '.' := by
  cases h with
  | none => cases hc
  | digits hdigits =>
    rcases List.mem_cons.1 hc with rfl | hc
    · exact .inr rfl
    · exact .inl (hdigits.2 c hc)

theorem IsPower.mem (h : IsPower text) (hc : c ∈ text) :
    c.isDigit = true ∨ c = '+' ∨ c = '-' := by
  cases h with
  | plain hdigits => exact .inl (hdigits.2 c hc)
  | plus hdigits =>
    rcases List.mem_cons.1 hc with rfl | hc
    · exact .inr (.inl rfl)
    · exact .inl (hdigits.2 c hc)
  | minus hdigits =>
    rcases List.mem_cons.1 hc with rfl | hc
    · exact .inr (.inr rfl)
    · exact .inl (hdigits.2 c hc)

/-- The part of a number before its exponent. -/
def mantissa (text : List Char) : List Char := text.takeWhile fun c => !isMark c

theorem cut_mark {exponent : List Char} (hfront : ∀ c ∈ front, isMark c = false)
    (hexponent : IsExponent exponent) :
    mantissa (front ++ exponent) = front
      ∧ (front ++ exponent).dropWhile (fun c => !isMark c) = exponent := by
  refine split_front (fun c hc => ?_) ?_
  · rw [hfront c hc]
    rfl
  · cases hexponent with
    | none => simp
    | power hmark => simpa using hmark

theorem cut_point {signed fraction : List Char} (hsigned : IsSigned signed)
    (hfraction : IsFraction fraction) :
    (signed ++ fraction).takeWhile (· ≠ '.') = signed
      ∧ (signed ++ fraction).dropWhile (· ≠ '.') = fraction := by
  refine split_front (fun c hc => ?_) (by cases hfraction <;> simp)
  rw [decide_eq_true_eq]
  rintro rfl
  rcases hsigned.mem hc with hdigit | hminus
  · exact absurd hdigit (by decide)
  · exact absurd hminus (by decide)

theorem isMark_of_mem_mantissa {signed fraction : List Char} (hsigned : IsSigned signed)
    (hfraction : IsFraction fraction) : ∀ c ∈ signed ++ fraction, isMark c = false := by
  intro c hc
  rcases List.mem_append.1 hc with hc | hc
  -- before the exponent there are digits, one sign and one point
  · rcases hsigned.mem hc with hdigit | rfl
    · exact isMark_of_isDigit hdigit
    · decide
  · rcases hfraction.mem hc with hdigit | rfl
    · exact isMark_of_isDigit hdigit
    · decide

/-- **Cutting a number at its letter and at its point finds its parts.** -/
theorem isNumber_iff :
    IsNumber text ↔ IsSigned ((mantissa text).takeWhile (· ≠ '.'))
      ∧ IsFraction ((mantissa text).dropWhile (· ≠ '.'))
      ∧ IsExponent (text.dropWhile fun c => !isMark c) := by
  constructor
  · rintro ⟨hsigned, hfraction, hexponent⟩
    have hmark := cut_mark (isMark_of_mem_mantissa hsigned hfraction) hexponent
    have hpoint := cut_point hsigned hfraction
    rw [hmark.1, hmark.2, hpoint.1, hpoint.2]
    exact ⟨hsigned, hfraction, hexponent⟩
  · rintro ⟨hsigned, hfraction, hexponent⟩
    have h := IsNumber.mk hsigned hfraction hexponent
    rwa [List.takeWhile_append_dropWhile, mantissa, List.takeWhile_append_dropWhile] at h

instance : Decidable (IsNumber text) := decidable_of_iff _ isNumber_iff.symm

/-- The characters that numbers are written with. -/
theorem IsNumber.mem (h : IsNumber text) (hc : c ∈ text) :
    c.isDigit = true ∨ c ∈ ['+', '-', '.', 'e', 'E'] := by
  obtain ⟨hsigned, hfraction, hexponent⟩ := h
  rcases List.mem_append.1 hc with hc | hc
  · rcases List.mem_append.1 hc with hc | hc
    · exact (hsigned.mem hc).imp_right fun h => by simp [h]
    · exact (hfraction.mem hc).imp_right fun h => by simp [h]
  · cases hexponent with
    | none => cases hc
    | power hmark hpower =>
      rcases List.mem_cons.1 hc with rfl | hc
      · rw [isMark, Bool.or_eq_true, decide_eq_true_eq, decide_eq_true_eq] at hmark
        exact .inr (by rcases hmark with rfl | rfl <;> decide)
      · exact (hpower.mem hc).imp_right fun h => by rcases h with rfl | rfl <;> decide

/-! ## Reading words

The names come first. A number has no letters but those of an exponent, so it is none of
them. Of the numbers, those that are written as natural numbers have a value. -/

/-- The value that a word spells. -/
def word? (text : List Char) : Option Tree :=
  if text = ['n', 'u', 'l', 'l'] then some .null
  else if text = ['t', 'r', 'u', 'e'] then some (.boolean true)
  else if text = ['f', 'a', 'l', 's', 'e'] then some (.boolean false)
  else if IsNatural text then some (.natural (Nat.ofDigitChars 10 text 0))
  else if IsNumber text then some (.decimal text)
  else none

theorem IsNatural.isNumber (h : IsNatural text) : IsNumber text := by
  obtain ⟨n, rfl⟩ := h
  have hnumber := IsNumber.mk (.plain n) .none .none
  rwa [List.append_nil, List.append_nil] at hnumber

theorem IsNumber.not_mem (h : IsNumber text)
    (hc : c.isDigit = false ∧ c ∉ ['+', '-', '.', 'e', 'E']) : c ∉ text := by
  intro hmem
  rcases h.mem hmem with hdigit | hother
  · rw [hc.1] at hdigit
    cases hdigit
  · exact hc.2 hother

/-- A number is none of the three names. -/
theorem word?_of_isNumber (h : IsNumber text) : word? text =
    if IsNatural text then some (.natural (Nat.ofDigitChars 10 text 0))
    else some (.decimal text) := by
  have hnull : text ≠ ['n', 'u', 'l', 'l'] := by
    rintro rfl
    exact h.not_mem (c := 'n') (by decide) (by decide)
  have htrue : text ≠ ['t', 'r', 'u', 'e'] := by
    rintro rfl
    exact h.not_mem (c := 't') (by decide) (by decide)
  have hfalse : text ≠ ['f', 'a', 'l', 's', 'e'] := by
    rintro rfl
    exact h.not_mem (c := 'f') (by decide) (by decide)
  rw [word?, if_neg hnull, if_neg htrue, if_neg hfalse, if_pos h]

theorem word?_eq_some_iff : word? text = some t ↔ SpellsWord t text := by
  constructor
  · intro h
    rw [word?] at h
    split_ifs at h with hnull htrue hfalse hnatural hnumber
    · obtain rfl := Option.some.inj h
      exact hnull ▸ .null
    · obtain rfl := Option.some.inj h
      exact htrue ▸ .yes
    · obtain rfl := Option.some.inj h
      exact hfalse ▸ .no
    · obtain rfl := Option.some.inj h
      have hword := SpellsWord.natural (Nat.ofDigitChars 10 text 0)
      rwa [isNatural_iff.1 hnatural] at hword
    · obtain rfl := Option.some.inj h
      exact .decimal hnumber fun n hn => hnatural ⟨n, hn⟩
  · rintro (_ | _ | _ | n | ⟨hnumber, hother⟩)
    · rfl
    · rfl
    · rfl
    -- A natural number is a number too, and it is looked for first.
    · have hnatural : IsNatural (Nat.toDigits 10 n) := ⟨n, rfl⟩
      rw [word?_of_isNumber hnatural.isNumber, if_pos hnatural, Nat.ofDigitChars_ten_toDigits]
    · have hnatural : ¬ IsNatural text := fun ⟨n, hn⟩ => hother n hn
      rw [word?_of_isNumber hnumber, if_neg hnatural]

/-- The characters that words are written with. -/
def isWordChar (c : Char) : Bool := c.isDigit || c.isLower || c ∈ ['+', '-', '.', 'E']

theorem isWordChar_of_isNumber (h : IsNumber text) (hc : c ∈ text) : isWordChar c = true := by
  rcases h.mem hc with hdigit | hother
  · rw [isWordChar, hdigit]
    rfl
  · simp only [List.mem_cons, List.not_mem_nil, or_false] at hother
    rcases hother with rfl | rfl | rfl | rfl | rfl <;> decide

theorem SpellsWord.isWordChar (h : SpellsWord t text) (hc : c ∈ text) : isWordChar c = true := by
  cases h with
  | null => exact List.all_eq_true.1 (by decide) c hc
  | yes => exact List.all_eq_true.1 (by decide) c hc
  | no => exact List.all_eq_true.1 (by decide) c hc
  | natural n => exact isWordChar_of_isNumber (IsNatural.isNumber ⟨n, rfl⟩) hc
  | decimal hnumber => exact isWordChar_of_isNumber hnumber hc

theorem IsNumber.ne_nil (h : IsNumber text) : text ≠ [] := by
  obtain ⟨hsigned, -, -⟩ := h
  rename_i signed fraction exponent
  have hne : signed ≠ [] := by
    cases hsigned with
    | plain n => exact Nat.toDigits_ne_nil
    | minus n => exact List.cons_ne_nil _ _
  rw [List.append_assoc]
  exact List.append_ne_nil_of_left_ne_nil hne _

theorem SpellsWord.ne_nil (h : SpellsWord t text) : text ≠ [] := by
  cases h with
  | null => exact List.cons_ne_nil _ _
  | yes => exact List.cons_ne_nil _ _
  | no => exact List.cons_ne_nil _ _
  | natural n => exact Nat.toDigits_ne_nil
  | decimal hnumber => exact hnumber.ne_nil

end Unimported.Json
