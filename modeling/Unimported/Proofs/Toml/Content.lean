/-
How the content of a TOML text begins.

In front of its first statement a text has empty lines and comments only, and perhaps a byte order
mark. What follows is nothing, the bracket of a header, or a key with a dot or an equals sign behind
it.
-/
import Unimported.Toml.Document
import Unimported.Proofs.Fallible
import Mathlib.Data.List.DropRight

set_option autoImplicit false

namespace Unimported.Toml

variable {text content rest : List Char} {fuel : Nat} {c : Char}

/-- The text without a byte order mark at its front. -/
def withoutMark (text : List Char) : List Char :=
  match text with
  | '\uFEFF' :: rest => rest
  | _ => text

/-- What is left of the text behind empty lines and comments. -/
def contentOf (text : List Char) : List Char :=
  skipLines ((withoutMark text).length + 1) (withoutMark text)

/-- What stands in front of the content. -/
def leadOf (text : List Char) : List Char := text.take (text.length - (contentOf text).length)

/-! ## In front of the content

Whatever is skipped is skipped from the front, so what is left is an end of the text, and
what stands before it is known once its length is. -/

theorem skipComment_suffix (text : List Char) : skipComment text <:+ text := by
  unfold skipComment
  split
  · exact (List.dropWhile_suffix isCommentChar).trans (List.suffix_cons _ _)
  · exact List.suffix_refl _

theorem afterLineEnd?_eq_some (h : afterLineEnd? text = some rest) :
    text = '\n' :: rest ∨ text = '\r' :: '\n' :: rest := by
  unfold afterLineEnd? at h
  split at h
  · exact .inl (by rw [Option.some.inj h])
  · exact .inr (by rw [Option.some.inj h])
  · cases h

theorem afterLineEnd?_suffix (h : afterLineEnd? text = some rest) : rest <:+ text := by
  rcases afterLineEnd?_eq_some h with rfl | rfl
  · exact List.suffix_cons _ _
  · exact List.suffix_append ['\r', '\n'] rest

/-- The content is the end of its text. -/
theorem skipLines_suffix (fuel : Nat) (text : List Char) : skipLines fuel text <:+ text := by
  induction fuel generalizing text with
  | zero => exact List.suffix_refl text
  | succ fuel ih =>
    have hline : skipComment (skipBlanks text) <:+ text :=
      (skipComment_suffix _).trans (List.dropWhile_suffix _)
    rw [skipLines]
    split
    · rename_i rest hend
      exact (ih rest).trans ((afterLineEnd?_suffix hend).trans hline)
    · exact hline

theorem withoutMark_suffix (text : List Char) : withoutMark text <:+ text := by
  unfold withoutMark
  split
  · exact List.suffix_cons _ _
  · exact List.suffix_refl _

theorem leadOf_append_contentOf (text : List Char) : leadOf text ++ contentOf text = text := by
  have hsuffix : contentOf text <:+ text := (skipLines_suffix _ _).trans (withoutMark_suffix text)
  exact List.suffix_iff_eq_append.1 hsuffix

/-! ## The first statement

The reader and `skipLines` take the same lines off the text, so the induction follows the
reader. A statement that is read tells how its text begins; where nothing is read, nothing
is left. -/

/-- How the content may begin. -/
inductive Begins : List Char → Prop
  | nothing : Begins []
  | header (rest : List Char) : Begins ('[' :: rest)
  | field {content after rest : List Char} {key : Key} {c : Char}
      (hkey : readSimpleKey content = .ok (key, after)) (hafter : skipBlanks after = c :: rest)
      (hc : c = '.' ∨ c = '=') : Begins content

/-- Behind the first part of a key there is a dot, or the key ends. -/
theorem readSimpleKey_of_readKeyParts {limit : Nat} {keys : List Key}
    (h : readKeyParts limit text = .ok (keys, rest)) :
    ∃ key after, readSimpleKey (skipBlanks text) = .ok (key, after) ∧
      ((∃ more, skipBlanks after = '.' :: more) ∨ skipBlanks after = rest) := by
  cases limit with
  | zero => cases h
  | succ limit =>
    obtain ⟨⟨key, after⟩, hkey, h⟩ := bind_eq_ok_iff.1 h
    refine ⟨key, after, hkey, ?_⟩
    dsimp only at h
    split at h
    · rename_i more hafter
      exact .inl ⟨more, hafter⟩
    · exact .inr (Prod.mk.inj (pure_eq_ok_iff.1 h)).2

/-- A field begins with the first part of its key. -/
theorem begins_of_readField {statement : Statement} (hcontent : skipBlanks content = content)
    (h : readField fuel content = .ok (statement, rest)) : Begins content := by
  obtain ⟨⟨⟨path, key⟩, text⟩, hkey, h⟩ := bind_eq_ok_iff.1 h
  obtain ⟨⟨keys, behind⟩, hparts, hkey⟩ := bind_eq_ok_iff.1 hkey
  obtain ⟨part, after, hpart, hafter⟩ := readSimpleKey_of_readKeyParts hparts
  rw [hcontent] at hpart
  have hbehind : behind = text := by
    dsimp only at hkey
    split at hkey
    · exact (Prod.mk.inj (pure_eq_ok_iff.1 hkey)).2
    · cases hkey
  -- the first part of the key ends at a dot, or the whole key does at an equals sign
  rcases hafter with ⟨more, hdot⟩ | hend
  · exact .field hpart hdot (.inl rfl)
  · dsimp only at h
    split at h
    · exact .field hpart (hend.trans hbehind) (.inr rfl)
    · cases h

/-- A line ends with the text, or with a line end. -/
theorem endOfLine_eq_ok (h : endOfLine text = .ok rest) :
    skipComment (skipBlanks text) = [] ∧ rest = [] ∨
      afterLineEnd? (skipComment (skipBlanks text)) = some rest := by
  unfold endOfLine at h
  split at h
  · rename_i hnil
    exact .inl ⟨hnil, (Except.ok.inj h).symm⟩
  · split at h
    · rename_i hend
      rw [hend, Except.ok.inj h]
      exact .inr rfl
    · cases h

/-- **How the content of a text begins.** -/
theorem begins_skipLines {statements : List Statement}
    (h : readStatements fuel text = .ok statements) :
    Begins (skipLines fuel text) ∧ (skipLines fuel text = [] → statements = []) := by
  induction fuel generalizing text with
  | zero => cases h
  | succ fuel ih =>
    rw [readStatements] at h
    rw [skipLines]
    split at h
    · rename_i hblank
      rw [hblank]
      exact ⟨.nothing, fun _ => (Except.ok.inj h).symm⟩
    · rename_i rest hbracket
      rw [hbracket]
      exact ⟨.header rest, fun hnil => by cases hnil⟩
    · rename_i c rest hne hfirst
      have hcontent : skipBlanks (c :: rest) = c :: rest := by
        rw [← hfirst]
        exact List.dropWhile_idempotent isBlankChar text
      rw [hfirst]
      rcases ite_eq_iff.1 h with ⟨-, h⟩ | ⟨hc, h⟩
      · -- an empty line, perhaps with a comment
        obtain ⟨next, hend, h⟩ := bind_eq_ok_iff.1 h
        have hline := endOfLine_eq_ok hend
        rw [hcontent] at hline
        rcases hline with ⟨hnil, rfl⟩ | hsome
        · rw [hnil]
          refine ⟨.nothing, fun _ => ?_⟩
          cases fuel with
          | zero => cases h
          | succ fuel => exact (Except.ok.inj h).symm
        · rw [hsome]
          exact ih h
      · -- a field: its line is neither empty nor a comment, so the content begins with it
        obtain ⟨⟨statement, after⟩, hfield, -⟩ := bind_eq_ok_iff.1 h
        obtain ⟨hcomment, hfeed, hreturn⟩ : c ≠ '#' ∧ c ≠ '\n' ∧ c ≠ '\r' := by simpa using hc
        have hline : skipComment (c :: rest) = c :: rest := by simp [skipComment, hcomment]
        have hnone : afterLineEnd? (c :: rest) = none := by simp [afterLineEnd?, hfeed, hreturn]
        rw [hline, hnone]
        exact ⟨begins_of_readField hcontent hfield, fun hnil => by cases hnil⟩

/-- Content begins with a bracket, a quote, or a character of a bare key. -/
theorem Begins.head (h : Begins (c :: rest)) :
    c = '[' ∨ c = '"' ∨ c = '\'' ∨ isBareChar c = true := by
  generalize htext : c :: rest = text at h
  cases h with
  | nothing => cases htext
  | header => exact .inl (List.cons.inj htext).1
  | field hkey hafter hc =>
    subst htext
    unfold readSimpleKey at hkey
    split at hkey
    · rename_i hquote
      exact .inr (.inl (List.cons.inj hquote).1)
    · rename_i hquote
      exact .inr (.inr (.inl (List.cons.inj hquote).1))
    · by_cases hbare : isBareChar c = true
      · exact .inr (.inr (.inr hbare))
      · rw [List.takeWhile_cons_of_neg hbare] at hkey
        cases hkey

/-- Characters of bare keys may stand in comments. -/
theorem isCommentChar_of_isBareChar (h : isBareChar c = true) : isCommentChar c = true := by
  have hrange : 0x2D ≤ c.toNat ∧ c.toNat ≤ 0x7A := by
    rcases Bool.or_eq_true_iff.1 h with hword | hdash
    · rcases Bool.or_eq_true_iff.1 hword with halnum | hunderscore
      · -- a letter or a digit lies in one of three ranges
        rcases Bool.or_eq_true_iff.1 halnum with halpha | hdigit
        · rcases Bool.or_eq_true_iff.1 halpha with hupper | hlower
          · obtain ⟨hlow, hhigh⟩ := of_decide_eq_true hupper
            exact ⟨Nat.le_trans (by decide) hlow, Nat.le_trans hhigh (by decide)⟩
          · obtain ⟨hlow, hhigh⟩ := Bool.and_eq_true_iff.1 hlower
            exact ⟨Nat.le_trans (by decide) (of_decide_eq_true hlow),
              Nat.le_trans (of_decide_eq_true hhigh) (by decide)⟩
        · obtain ⟨hlow, hhigh⟩ := Bool.and_eq_true_iff.1 hdigit
          exact ⟨Nat.le_trans (by decide) (of_decide_eq_true hlow),
            Nat.le_trans (of_decide_eq_true hhigh) (by decide)⟩
      · rw [beq_iff_eq.1 hunderscore]
        decide
    · rw [beq_iff_eq.1 hdash]
      decide
  unfold isCommentChar
  simp
  omega

/-- The characters that count for nothing at the front of a line: blanks, the front of a comment,
the line ends of TOML and YAML, and the byte order mark. -/
def idleChars : List Char :=
  [' ', '\t', '#', '\n', '\r', '\u0085', '\u2028', '\u2029', '\uFEFF']

/-- Content does not begin with one of them. -/
theorem Begins.head_plain (h : Begins (c :: rest)) : isCommentChar c = true ∧ c ∉ idleChars := by
  rcases h.head with rfl | rfl | rfl | hbare
  · decide
  · decide
  · decide
  · have hidle : (idleChars.all fun c => !isBareChar c) = true := by decide
    refine ⟨isCommentChar_of_isBareChar hbare, fun hmem => ?_⟩
    simpa [hbare] using List.all_eq_true.1 hidle c hmem

end Unimported.Toml
