/-
Mentions: when a text counts as referring to a file.

A token is mentioned when it is a part of one of the specifiers that the text imports, and "part"
means what it means for lists: something may stand before it and something behind it.
-/
import Unimported.Source.Import
import Mathlib.Data.List.Infix

set_option autoImplicit false

namespace Unimported.Source

/-- Looking for a part at every position is looking for it as a sublist without gaps. -/
theorem occursIn_iff_infix {part text : List Char} :
    occursIn part text = true ↔ part <:+: text := by
  induction text with
  | nil => simp [occursIn]
  | cons c text ih =>
    rw [occursIn, Bool.or_eq_true, ih, List.isPrefixOf_iff_prefix, List.infix_cons_iff]

/-- A text mentions a token exactly when one of its specifiers has the token as a part. -/
theorem mentions_iff {text token : List Char} :
    mentions text token = true ↔ ∃ specifier ∈ importedSpecifiers text, token <:+: specifier := by
  simp only [mentions, List.any_eq_true, occursIn_iff_infix]

end Unimported.Source
