/-
Decimals as numbers of JSON texts.

A decimal is written with a point or with an exponent, so it is never taken for a natural number,
and in each of its forms it keeps to the grammar. The digits before the point are the first ones of
a natural number, perhaps with zeros behind them, and such digits are a natural number themselves.
-/
import Unimported.Number.Decimal
import Unimported.Proofs.Json.Word

set_option autoImplicit false

namespace Unimported.Json

variable {text : List Char}

open Number (Decimal zeros)

theorem isDigits_toDigits (n : Nat) : IsDigits (Nat.toDigits 10 n) :=
  ⟨Nat.toDigits_ne_nil, fun _ => isDigit_of_mem_toDigits⟩

theorem isDigit_of_mem_zeros {c : Char} {k : Nat} (h : c ∈ zeros k) : c.isDigit = true := by
  rw [List.eq_of_mem_replicate h]
  decide

/-- The first digits of a natural number are a natural number. -/
theorem isNatural_take {count : Nat} (hcount : 0 < count) (n : Nat) :
    IsNatural ((Nat.toDigits 10 n).take count) := by
  induction n using Nat.strong_induction_on with
  | _ n ih =>
    by_cases hall : (Nat.toDigits 10 n).length ≤ count
    · exact ⟨n, List.take_of_length_le hall⟩
    · have hn : 10 ≤ n := by
        by_contra hsmall
        rw [Nat.toDigits_of_lt_base (Nat.lt_of_not_le hsmall)] at hall
        exact hall hcount
      have hstep := Nat.toDigits_of_base_le (b := 10) (by decide) hn
      have hle : count ≤ (Nat.toDigits 10 (n / 10)).length := by
        rw [hstep, List.length_append, List.length_singleton] at hall
        omega
      rw [hstep, List.take_append_of_le_length hle]
      exact ih (n / 10) (by omega)

/-- A natural number with zeros behind it is one. -/
theorem isNatural_append_zeros {n : Nat} (hn : 0 < n) (k : Nat) :
    IsNatural (Nat.toDigits 10 n ++ zeros k) := by
  induction k generalizing n with
  | zero => exact ⟨n, List.append_nil _⟩
  | succ k ih =>
    have hzero : Nat.toDigits 10 n ++ ['0'] = Nat.toDigits 10 (10 * n + 0) :=
      Nat.toDigits_append_toDigits (b := 10) (d := 0) (by decide) hn (by decide)
    rw [zeros, List.replicate_succ, ← List.singleton_append, ← List.append_assoc, hzero]
    exact ih (by omega)

/-- A number with a point or an exponent. -/
def IsPointed (text : List Char) : Prop := IsNumber text ∧ ∃ c ∈ text, c.isDigit = false

theorem IsPointed.ne_toDigits (h : IsPointed text) (n : Nat) : text ≠ Nat.toDigits 10 n := by
  rintro rfl
  obtain ⟨-, c, hc, hdigit⟩ := h
  rw [isDigit_of_mem_toDigits hc] at hdigit
  cases hdigit

theorem IsPointed.spellsWord (h : IsPointed text) : SpellsWord (.decimal text) text :=
  .decimal h.1 h.ne_toDigits

theorem isPointed_of_fraction {front digits : List Char} (hfront : IsNatural front)
    (hdigits : IsDigits digits) : IsPointed (front ++ '.' :: digits) := by
  obtain ⟨n, rfl⟩ := hfront
  have hnumber := IsNumber.mk (.plain n) (.digits hdigits) .none
  rw [List.append_nil] at hnumber
  exact ⟨hnumber, '.', by simp, by decide⟩

theorem isPointed_of_exponent {front fraction power : List Char} (hfront : IsNatural front)
    (hfraction : IsFraction fraction) (hpower : IsPower power) :
    IsPointed (front ++ fraction ++ 'e' :: power) := by
  obtain ⟨n, rfl⟩ := hfront
  exact ⟨.mk (.plain n) hfraction (.power (by decide) hpower), 'e', by simp, by decide⟩

theorem isPointed_zero {digits : List Char} (hdigits : IsDigits digits) :
    IsPointed ('0' :: '.' :: digits) :=
  isPointed_of_fraction ⟨0, rfl⟩ hdigits

/-- Digits behind the first ones. -/
theorem isDigits_drop {count : Nat} (n : Nat) (h : count < (Nat.toDigits 10 n).length) :
    IsDigits ((Nat.toDigits 10 n).drop count) := by
  refine ⟨?_, fun c hc => isDigit_of_mem_toDigits (List.mem_of_mem_drop hc)⟩
  rw [Ne, List.drop_eq_nil_iff]
  omega

theorem isDigits_zeros_append (k n : Nat) : IsDigits (zeros k ++ Nat.toDigits 10 n) := by
  refine ⟨List.append_ne_nil_of_right_ne_nil _ Nat.toDigits_ne_nil, fun c hc => ?_⟩
  rcases List.mem_append.1 hc with hc | hc
  · exact isDigit_of_mem_zeros hc
  · exact isDigit_of_mem_toDigits hc

/-- **A decimal is written as a number that is not natural.** The cases are the forms in which it is
written. -/
theorem isPointed_write (d : Decimal) : IsPointed d.write := by
  rw [Decimal.write]
  by_cases hzero : d.digits = 0
  · rw [if_pos hzero]
    exact isPointed_zero (isDigits_toDigits 0)
  rw [if_neg hzero]
  dsimp only
  by_cases hwhole : 0 ≤ d.exponent ∧ ((Nat.toDigits 10 d.digits).length + d.exponent : Int) ≤ 16
  -- A whole number: its zeros are written, and one more behind the point.
  · rw [if_pos hwhole]
    exact isPointed_of_fraction (isNatural_append_zeros (Nat.pos_of_ne_zero hzero) _)
      (isDigits_toDigits 0)
  rw [if_neg hwhole]
  by_cases hinside : 0 < ((Nat.toDigits 10 d.digits).length + d.exponent : Int)
      ∧ ((Nat.toDigits 10 d.digits).length + d.exponent : Int) ≤ 16
  -- The point is among the digits.
  · rw [if_pos hinside]
    exact isPointed_of_fraction (isNatural_take (by omega) _) (isDigits_drop _ (by omega))
  rw [if_neg hinside]
  by_cases hbelow : -5 < ((Nat.toDigits 10 d.digits).length + d.exponent : Int)
      ∧ ((Nat.toDigits 10 d.digits).length + d.exponent : Int) ≤ 0
  -- The point is before the digits, with zeros between.
  · rw [if_pos hbelow]
    exact isPointed_zero (isDigits_zeros_append _ _)
  rw [if_neg hbelow]
  -- One digit is before the point, and where there is no other one the point is left out.
  refine isPointed_of_exponent (isNatural_take Nat.one_pos _) ?_ ?_
  · have hlength := List.length_pos_iff.2 (isDigits_toDigits d.digits).1
    split_ifs with hone
    · exact .none
    · exact .digits (isDigits_drop _ (by omega))
  · split_ifs with hnegative
    · exact .minus (isDigits_toDigits _)
    · exact .plus (isDigits_toDigits _)

end Unimported.Json
