/-
Exports in the bytes of a file.

Exports are looked for in text, and a file is bytes, of which some may be malformed. Nothing in an
export statement can stand for malformed bytes, so a statement is in the text exactly if the bytes
of one are in the file: `exports_of_bytes`. Blanks are taken all at once, and since no statement
goes on with a blank behind them, no statement is missed by that.
-/
import Mathlib.Data.List.TakeWhile
import Unimported.Proofs.Source.Scan
import Unimported.Proofs.Source.Search
import Unimported.Proofs.Text.Utf8
import Unimported.Scan.Project
import Unimported.Source.Export

set_option autoImplicit false

namespace Unimported.Source

variable {kind : Export} {text tail : List Char} {next : List Char → Option Hit}

/-! ## Single pieces

Only whether a piece leads to a match is asked here, not what it captures, so each piece
comes down to parts of the text. -/

theorem isSome_readWord {choices : List (List Char)} :
    (readWord next choices text).isSome = true ↔
      ∃ word ∈ choices, ∃ rest, text = word ++ rest ∧ (next rest).isSome = true := by
  induction choices with
  | nil => simp [readWord]
  | cons word choices ih =>
    have hword : ((afterWord? word text).bind next).isSome = true ↔
        ∃ rest, text = word ++ rest ∧ (next rest).isSome = true := by
      cases hafter : afterWord? word text with
      | none =>
        refine iff_of_false (by simp) ?_
        rintro ⟨rest, htext, -⟩
        rw [afterWord?_eq_some_iff.2 htext] at hafter
        cases hafter
      | some rest =>
        obtain rfl := afterWord?_eq_some_iff.1 hafter
        simp
    rw [readWord, List.exists_mem_cons_iff, ← hword, ← ih]
    cases (afterWord? word text).bind next <;> simp

/-- Blanks in front of something that is not blank are read up to it. -/
theorem readBlanks_append {blanks behind : List Char} (hne : blanks ≠ [])
    (hblanks : ∀ c ∈ blanks, Text.isBlank c = true)
    (hbehind : ∀ c ∈ behind.head?, Text.isBlank c = false) :
    readBlanks next (blanks ++ behind) = next behind := by
  obtain ⟨c, blanks, rfl⟩ := List.exists_cons_of_ne_nil hne
  rw [List.forall_mem_cons] at hblanks
  have hdrop : behind.dropWhile Text.isBlank = behind := by
    cases behind with
    | nil => rfl
    | cons d behind => exact List.dropWhile_cons_of_neg (by simp [hbehind d rfl])
  rw [List.cons_append, readBlanks, if_pos hblanks.1,
    List.dropWhile_append_of_pos hblanks.2, hdrop]

/-! ## Statements in a text

Blanks are read as far as they go, while a statement could be cut out of the text with fewer
of them. As what follows them in a statement is not blank, both have the same blanks, and
matching comes down to having a statement in front. -/

/-- The words by which a kind of export statement is made out, behind the keyword and blanks. -/
def Export.words : Export → List String
  | .default => ["default"]
  | .names => ["\x7b"]
  | .declaration => ["const", "let", "var", "function", "class"]
  | .all => ["*"]

theorem tails_eq (kind : Export) : kind.tails = kind.words.map String.toList := by
  cases kind <;> rfl

/-- The text is a statement of the kind, as far as that is looked at: the keyword, blanks, and one
of the words. -/
def Export.Is (kind : Export) (text : List Char) : Prop :=
  ∃ blanks word, blanks ≠ [] ∧ (∀ c ∈ blanks, Text.isBlank c = true) ∧ word ∈ kind.words ∧
    text = "export".toList ++ (blanks ++ word.toList)

/-- Words start with something that is not blank, and hold no replacement character. -/
theorem words_plain : ∀ kind : Export, ∀ word ∈ kind.words,
    (∃ c rest, word.toList = c :: rest ∧ Text.isBlank c = false) ∧
      Text.Utf8.replacement ∉ word.toList := by
  intro kind word hword
  have hfirst : word.toList.head?.any (fun c => !Text.isBlank c) = true ∧
      Text.Utf8.replacement ∉ word.toList := by
    revert word
    cases kind <;> decide
  refine ⟨?_, hfirst.2⟩
  obtain ⟨c, hhead, hc⟩ := (Option.any_eq_true _ _).1 hfirst.1
  obtain ⟨rest, hrest⟩ := List.head?_eq_some_iff.1 hhead
  exact ⟨c, rest, hrest, by simpa using hc⟩

theorem matchHere?_signature (kind : Export) (text : List Char) :
    kind.signature.matchHere? text = (afterWord? "export".toList text).bind
      (readBlanks (readWord (Signature.matchHere? []) kind.tails)) := by
  rw [← readWord_single]
  rfl

/-- A statement is matched where it starts. -/
theorem isSome_matchHere?_iff :
    (kind.signature.matchHere? text).isSome = true ↔
      ∃ statement, kind.Is statement ∧ statement <+: text := by
  rw [matchHere?_signature]
  constructor
  · intro h
    cases hafter : afterWord? "export".toList text with
    | none =>
      rw [hafter] at h
      cases h
    | some behind =>
      rw [hafter, Option.bind_some] at h
      obtain ⟨hit, hhit⟩ := Option.isSome_iff_exists.1 h
      -- the keyword, the first blank with all that follow it, and a word
      obtain ⟨b, rest, hb, rfl, hnext⟩ := readBlanks_eq_some hhit
      obtain ⟨tail, htail, behind, hbehind, -⟩ :=
        isSome_readWord.1 (Option.isSome_iff_exists.2 ⟨hit, hnext⟩)
      rw [tails_eq] at htail
      obtain ⟨word, hword, rfl⟩ := List.mem_map.1 htail
      refine ⟨_, ⟨b :: rest.takeWhile Text.isBlank, word, List.cons_ne_nil _ _, ?_, hword, rfl⟩,
        behind, ?_⟩
      · exact List.forall_mem_cons.2 ⟨hb, fun c hc => List.mem_takeWhile_imp hc⟩
      · rw [afterWord?_eq_some_iff.1 hafter, List.append_assoc, List.append_assoc, ← hbehind,
          List.cons_append, List.takeWhile_append_dropWhile]
  · rintro ⟨_, ⟨blanks, word, hne, hblanks, hword, rfl⟩, behind, rfl⟩
    obtain ⟨⟨c, rest, hrest, hc⟩, -⟩ := words_plain kind word hword
    have hread : (readWord (Signature.matchHere? []) kind.tails (word.toList ++ behind)).isSome
        = true := by
      rw [isSome_readWord, tails_eq]
      exact ⟨word.toList, List.mem_map_of_mem hword, behind, rfl, rfl⟩
    rw [List.append_assoc, List.append_assoc, afterWord?_eq_some_iff.2 rfl, Option.bind_some,
      readBlanks_append hne hblanks (by simp [hrest, hc])]
    exact hread

theorem occursIn_iff {signature : Signature} :
    signature.occursIn text = true ↔
      ∃ part, (signature.matchHere? part).isSome = true ∧ part <:+ text := by
  have hnone : signature.find? text = none ↔
      ∀ i, signature.matchHere? (text.drop i) = none := Signature.find?_eq_none_iff
  rw [Signature.occursIn, Option.isSome_iff_ne_none, ne_eq, hnone]
  constructor
  · intro h
    obtain ⟨i, hi⟩ := not_forall.1 h
    exact ⟨text.drop i, Option.isSome_iff_ne_none.2 hi, List.drop_suffix i text⟩
  · rintro ⟨part, hpart, before, rfl⟩ h
    have hi := h before.length
    rw [List.drop_left] at hi
    rw [hi] at hpart
    cases hpart

/-- **A kind of export occurs in a text** exactly if a statement of the kind is part of it. -/
theorem occursIn_export_iff :
    kind.occursIn text = true ↔ ∃ statement, kind.Is statement ∧ statement <:+: text := by
  rw [Export.occursIn, occursIn_iff]
  simp only [isSome_matchHere?_iff, List.infix_iff_prefix_suffix]
  constructor
  · rintro ⟨part, ⟨statement, his, hprefix⟩, hsuffix⟩
    exact ⟨statement, his, part, hprefix, hsuffix⟩
  · rintro ⟨statement, his, part, hprefix, hsuffix⟩
    exact ⟨part, ⟨statement, his, hprefix⟩, hsuffix⟩

/-- Nothing in a statement stands for malformed bytes. -/
theorem Export.Is.plain (h : kind.Is text) : Text.Utf8.replacement ∉ text := by
  obtain ⟨blanks, word, -, hblanks, hword, rfl⟩ := h
  have hblank : Text.Utf8.replacement ∉ blanks := fun hmem =>
    absurd (hblanks _ hmem) (by decide)
  rw [List.mem_append, List.mem_append, not_or, not_or]
  exact ⟨by decide, hblank, (words_plain kind word hword).2⟩

/-! ## Statements in bytes

What stands for no malformed bytes is part of the decoded text exactly if its bytes are part
of the bytes. So the statements in the text are those in the file, malformed bytes around
them or not. -/

/-- A statement of the kind is written among the bytes. -/
def Export.WrittenIn (kind : Export) (bytes : List Text.Byte) : Prop :=
  ∃ before blanks word behind, blanks ≠ [] ∧ (∀ c ∈ blanks, Text.isBlank c = true) ∧
    word ∈ kind.words ∧
    bytes = before ++ (Text.Utf8.ofString "export" ++ (blanks.flatMap Text.Utf8.encodeChar
      ++ Text.Utf8.ofString word)) ++ behind

theorem writtenIn_iff {bytes : List Text.Byte} :
    kind.WrittenIn bytes ↔
      ∃ statement, kind.Is statement ∧ Text.Utf8.encode statement <:+: bytes := by
  have hencode : ∀ blanks word, Text.Utf8.encode ("export".toList ++ (blanks ++ String.toList word))
      = Text.Utf8.ofString "export" ++ (blanks.flatMap Text.Utf8.encodeChar
        ++ Text.Utf8.ofString word) := fun blanks word => by
    rw [Text.Utf8.encode, List.flatMap_append, List.flatMap_append]
    rfl
  constructor
  · rintro ⟨before, blanks, word, behind, hne, hblanks, hword, rfl⟩
    exact ⟨_, ⟨blanks, word, hne, hblanks, hword, rfl⟩, before, behind, by rw [hencode]⟩
  · rintro ⟨_, ⟨blanks, word, hne, hblanks, hword, rfl⟩, before, behind, rfl⟩
    exact ⟨before, blanks, word, behind, hne, hblanks, hword, by rw [hencode]⟩

/-- **Exports are told from the bytes of a file.** Each kind of export occurs in the text that is
read from bytes exactly if a statement of the kind is written among them, well-formed or not, and
something is exported if one of the kinds occurs. The text of a file on a disk is read so. -/
theorem exports_of_bytes (bytes : List Text.Byte) :
    (∀ kind : Export, kind.occursIn (Text.Utf8.toStringLossy bytes).toList = true ↔
      kind.WrittenIn bytes) ∧
    (hasExports (Text.Utf8.toStringLossy bytes).toList = true ↔
      ∃ kind : Export, kind.occursIn (Text.Utf8.toStringLossy bytes).toList = true) ∧
    ∀ (d : Disk) (readings : List Scan.Reading) (p : Path), d.readBytes p = .ok bytes →
      Scan.Reader.ofDisk d readings p = .ok (Text.Utf8.toStringLossy bytes) := by
  refine ⟨fun kind => ?_, ?_, fun d readings p h => ?_⟩
  · rw [Text.Utf8.toStringLossy, String.toList_ofList, occursIn_export_iff, writtenIn_iff]
    exact exists_congr fun statement =>
      and_congr_right fun his => Text.Utf8.infix_lossy_iff his.plain
  · rw [hasExports, List.any_eq_true]
    exact exists_congr fun kind => and_iff_right (by cases kind <;> decide)
  · rw [Scan.Reader.ofDisk, Scan.Reader.fixed, Disk.readLossy, h]
    rfl

-- a blank that is written with more bytes than it needs is none
example :
    let bytes := Text.Utf8.ofString "export" ++ [0xC0, 0xA0] ++ Text.Utf8.ofString "default"
    hasExports (Text.Utf8.toStringLossy bytes).toList = false := by
  decide +kernel

end Unimported.Source
