/-
Globs for what lies in a directory.

Two stars, a name and two stars again, with slashes between them, name all that lies in a directory
of that name, wherever it is. If the name is plain, the glob is the name with directories in front
and something behind, so it matches a path exactly if the name is one of its segments and not the
last: `matchesPath_directory_iff`. Such a glob can always be used, since its expression is flat.
-/
import Unimported.Glob.Parse
import Unimported.Proofs.Glob.Braces
import Unimported.Proofs.Glob.Language
import Unimported.Proofs.Path.Relative
import Unimported.Proofs.Text.Utf8

set_option autoImplicit false

namespace Unimported

open Text (Byte)

namespace Glob

variable {w : Wildcards} {name : List Char}

/-! ## Reading

The glob is read in three stretches. The stars need the slashes beside them, and a plain
character adds one token whatever stood before, so the name in the middle is read by
induction. -/

/-- A character that stands for itself within a segment. -/
def IsPlain (c : Char) : Prop := c ∉ ['?', '*', '[', '\x7b', '\x7d', '\\', '/']

instance (c : Char) : Decidable (IsPlain c) := inferInstanceAs (Decidable (¬ _))

/-- The glob for what lies in directories of the name. -/
def directoryText (name : List Char) : List Char := "**/".toList ++ (name ++ "/**".toList)

/-- Characters as tokens. -/
def literals (text : List Char) : Pattern :=
  text.map fun c => .literal (Text.Utf8.encodeChar c)

/-- The tokens of the glob for what lies in directories of the name. -/
def directory (name : List Char) : Pattern := .leading :: (literals name ++ [.trailing])

/-- The state between two characters, outside of groups. -/
def outside (before : Option Char) (tokens : List Token) : State :=
  ⟨.plain, before, [], tokens, true⟩

theorem step_of_isPlain {c : Char} (hc : IsPlain c) (before : Option Char) (tokens : List Token) :
    (outside before tokens).step c
      = .ok (outside (some c) (.literal (Text.Utf8.encodeChar c) :: tokens)) := by
  simp only [IsPlain, List.mem_cons, not_or, List.not_mem_nil, not_false_eq_true, and_true] at hc
  obtain ⟨hany, hmany, hset, hopen, hclose, hescape, -⟩ := hc
  change State.stepPlain _ _ = _
  rw [State.stepPlain, if_neg hany, if_neg hmany, if_neg (fun h => hset h.1), if_neg hopen,
    if_neg hclose]
  by_cases hcomma : c = ','
  · rw [if_pos hcomma, hcomma]
    rfl
  · rw [if_neg hcomma, if_neg hescape]
    rfl

theorem foldlM_of_isPlain (hname : ∀ c ∈ name, IsPlain c) (before : Option Char)
    (tokens : List Token) : ∃ before', name.foldlM State.step (outside before tokens)
      = .ok (outside before' ((literals name).reverse ++ tokens)) := by
  induction name generalizing before tokens with
  | nil => exact ⟨before, rfl⟩
  | cons c name ih =>
    rw [List.forall_mem_cons] at hname
    obtain ⟨before', h⟩ := ih hname.2 (some c) (.literal (Text.Utf8.encodeChar c) :: tokens)
    refine ⟨before', ?_⟩
    rw [List.foldlM_cons, step_of_isPlain hname.1]
    simp only [bind, Except.bind]
    rw [h]
    simp [literals]

/-- **The glob is read as it is meant.** -/
theorem parse_directoryText (hname : ∀ c ∈ name, IsPlain c) :
    parse (directoryText name) = .ok (directory name) := by
  have hfront : "**/".toList.foldlM State.step State.initial
      = .ok (outside (some '/') [.leading]) := rfl
  obtain ⟨before, hread⟩ := foldlM_of_isPlain hname (some '/') [.leading]
  have hbehind : ∀ tokens, "/**".toList.foldlM State.step (outside before tokens)
      = .ok ⟨.stars, some '/', [], .literal (Text.Utf8.encodeChar '/') :: tokens, true⟩ :=
    fun _ => rfl
  -- the two stars take in the slash before them
  have hfinish : ∀ tokens, State.finish
      ⟨.stars, some '/', [], .literal (Text.Utf8.encodeChar '/') :: tokens, true⟩
      = .ok (.trailing :: tokens).reverse := fun _ => rfl
  have htokens : (Token.trailing :: ((literals name).reverse ++ [.leading])).reverse
      = directory name := by
    simp [directory]
  rw [parse, directoryText, List.foldlM_append, hfront]
  simp only [bind, Except.bind]
  rw [List.foldlM_append, hread]
  simp only [bind, Except.bind]
  rw [hbehind]
  exact (hfinish _).trans (congrArg Except.ok htokens)

/-! ## Matching

What a sequence denotes is what its tokens denote, one behind the other. The name denotes
its own bytes, and what the two ends denote are the conditions on what stands around it. -/

theorem denotes_literals_append {text : List Char} {tokens : Pattern} {bytes : List Byte} :
    Denotes w (literals text ++ tokens) bytes ↔
      ∃ behind, Denotes w tokens behind ∧ Text.Utf8.encode text ++ behind = bytes := by
  induction text generalizing bytes with
  | nil =>
    constructor
    · exact fun h => ⟨bytes, h, rfl⟩
    · rintro ⟨_, h, rfl⟩
      exact h
  | cons c text ih =>
    rw [literals, List.map_cons, List.cons_append, denotes_cons_iff]
    constructor
    · rintro ⟨_, behind, ⟨⟩, hbehind, rfl⟩
      obtain ⟨behind, htokens, rfl⟩ := ih.1 hbehind
      exact ⟨behind, htokens, List.append_assoc ..⟩
    · rintro ⟨behind, htokens, rfl⟩
      exact ⟨_, _, .literal _, ih.2 ⟨behind, htokens, rfl⟩, (List.append_assoc ..).symm⟩

/-- Directories in front are none, or end in a slash. -/
theorem denotes_leading_iff {bytes : List Byte} :
    Token.Denotes w .leading bytes ↔ bytes = [] ∨ bytes.getLast? = some slash := by
  constructor
  · rintro (⟨⟩ | _)
    · exact .inl rfl
    · exact .inr List.getLast?_concat
  · rintro (rfl | hslash)
    · exact .nowhere
    · obtain ⟨bytes, rfl⟩ := List.getLast?_eq_some_iff.1 hslash
      exact .leading bytes

/-- What is behind a directory is a slash and anything. -/
theorem denotes_trailing_iff {bytes : List Byte} :
    Denotes w [.trailing] bytes ↔ ∃ behind, bytes = slash :: behind := by
  simp only [denotes_cons_iff, denotes_nil_iff]
  constructor
  · rintro ⟨_, _, ⟨⟩, rfl, rfl⟩
    exact ⟨_, List.append_nil _⟩
  · rintro ⟨behind, rfl⟩
    exact ⟨_, _, .trailing behind, rfl, List.append_nil _⟩

/-- The glob denotes the name with directories in front and something behind. -/
theorem denotes_directory_iff {bytes : List Byte} :
    Denotes w (directory name) bytes ↔ ∃ front behind,
      (front = [] ∨ front.getLast? = some slash) ∧
        bytes = front ++ (Text.Utf8.encode name ++ slash :: behind) := by
  rw [directory, denotes_cons_iff]
  simp only [denotes_literals_append, denotes_trailing_iff, denotes_leading_iff]
  constructor
  · rintro ⟨front, _, hfront, ⟨_, ⟨behind, rfl⟩, rfl⟩, rfl⟩
    exact ⟨front, behind, hfront, rfl⟩
  · rintro ⟨front, behind, hfront, rfl⟩
    exact ⟨front, _, hfront, ⟨_, ⟨behind, rfl⟩, rfl⟩, rfl⟩

/-- A slash is written for a slash alone. -/
theorem slash_not_mem_encode (h : '/' ∉ name) : slash ∉ Text.Utf8.encode name := by
  intro hmem
  obtain ⟨c, hc, hslash⟩ := List.mem_flatMap.1 hmem
  rw [Text.Utf8.eq_of_mem_encodeChar (by decide) hslash] at hc
  exact h hc

/-! ## Use

Of the ways in which a glob can be matched this one gets its expression, for it has an end
that is not fixed. The expression has no groups, so no name can make it too deep. -/

theorem fixed?_literals (text : List Char) :
    fixed? (literals text ++ [.trailing]) = none := by
  have hnone : (literals text ++ [Token.trailing]).mapM Token.fixed? = none := by
    induction text with
    | nil => rfl
    | cons c text ih =>
      rw [literals, List.map_cons, List.cons_append, List.mapM_cons, ← literals, ih]
      rfl
  rw [fixed?, hnone]
  rfl

/-- The glob is matched by its expression. -/
theorem strategyOf_directory (hne : name ≠ []) : strategyOf w (directory name) = .expression := by
  have hends : endsInExtension (literals name ++ [.trailing]) = false := by
    rw [endsInExtension, fixedEnd, List.reverse_append]
    rfl
  rw [directory, strategyOf, strategyBehind, fixed?_literals]
  obtain ⟨c, name, rfl⟩ := List.exists_cons_of_ne_nil hne
  rw [literals, List.map_cons, List.cons_append] at hends ⊢
  simp only [strategyOfLoose, hends, Bool.not_true, Bool.false_and, Bool.false_eq_true, if_false]

theorem depthOfParts_literals (text : List Char) (tokens : Pattern) :
    depthOfParts w (literals text ++ tokens) = depthOfParts w tokens := by
  induction text with
  | nil => rfl
  | cons c text ih =>
    rw [literals, List.map_cons, List.cons_append, depthOfParts, ← literals, ih, Token.depth,
      Nat.zero_max]

/-- **The glob can be used**, however long the name is. -/
theorem not_unusable_directory : ¬ Unusable w (directory name) := by
  rintro ⟨-, hdeep⟩
  rw [isTooDeep, directory, depthOfParts, depthOfParts_literals] at hdeep
  simp [depthOfParts, Token.depth, depthLimit] at hdeep

/-- **The glob matches what lies in a directory of the name**: the name is a segment of the path,
and not the last one. -/
theorem matchesPath_directory_iff (hne : name ≠ []) (hslash : '/' ∉ name) {p : Path} :
    matchesPath w (directory name) p = true ↔ Text.Utf8.encode name ∈ p.directories := by
  have hleading : directory name ≠ [.leading] := by
    obtain ⟨c, name, rfl⟩ := List.exists_cons_of_ne_nil hne
    exact fun h => nomatch (List.cons.inj h).2
  have hname : (strategyOf w (directory name)).goesByName = false := by
    rw [strategyOf_directory hne]
    rfl
  rw [matchesPath, hname, Bool.and_false, Bool.not_false, Bool.and_true, matchesBytes_iff,
    or_iff_right hleading, denotes_directory_iff,
    Path.mem_directories_iff (slash_not_mem_encode hslash)]

end Glob

end Unimported
