/-
Lines: where a line end divides a text.

All signatures keep to a line, but for the run of blanks behind a keyword, which may hold line ends.
So a text can be cut at a line end and its parts can be searched one by one, unless the first part
ends in an open keyword: the word, and nothing but blanks behind it. `line_end_divides` says what is
imported, mentioned and exported by the parts together. Behind an open keyword it need not hold, as
the example at the end shows: there a statement takes the line end for a blank and hides the one on
the next line.
-/
import Unimported.Proofs.Source.Call
import Unimported.Source.Export

set_option autoImplicit false

namespace Unimported.Source

variable {next : List Char → Option Hit} {signature : Signature} {a b text : List Char}

/-! ## Pieces

A piece keeps to its line if nothing that it reads depends on what stands behind the line
end. All pieces do but the run of blanks, and a signature does if its pieces do. -/

/-- The hit, with more text behind it. -/
def Hit.before (behind : List Char) (hit : Hit) : Hit := ⟨hit.captured, hit.rest ++ behind⟩

/-- What is read up to a line end does not depend on what stands from there on. -/
def KeepsLine (next : List Char → Option Hit) : Prop :=
  ∀ text b, next (text ++ '\n' :: b) = (next text).map (Hit.before ('\n' :: b))

theorem keepsLine_nil : KeepsLine (Signature.matchHere? []) := fun _ _ => rfl

theorem afterWord?_line {word : List Char} (hword : '\n' ∉ word) (text b : List Char) :
    afterWord? word (text ++ '\n' :: b) = (afterWord? word text).map (· ++ '\n' :: b) := by
  induction word generalizing text with
  | nil => rfl
  | cons w word ih =>
    obtain ⟨hw, hword⟩ := not_or.1 (mt List.mem_cons.2 hword)
    cases text with
    | nil =>
      have hnone : afterWord? (w :: word) ('\n' :: b) = none := if_neg (Ne.symm hw)
      rw [List.nil_append, hnone]
      rfl
    | cons c text =>
      rw [List.cons_append, afterWord?, afterWord?]
      by_cases hc : w = c
      · rw [if_pos hc, if_pos hc, ih hword]
      · rw [if_neg hc, if_neg hc]
        rfl

theorem keepsLine_word {choices : List (List Char)} (hchoices : ∀ word ∈ choices, '\n' ∉ word)
    (h : KeepsLine next) : KeepsLine (readWord next choices) := by
  intro text b
  induction choices with
  | nil => rfl
  | cons word others ih =>
    obtain ⟨hword, hothers⟩ := List.forall_mem_cons.1 hchoices
    rw [readWord, readWord, afterWord?_line hword, ih hothers, Option.bind_map]
    cases afterWord? word text with
    | none => rfl
    | some rest =>
      rw [Option.bind_some, Option.bind_some, Function.comp_apply, h rest b]
      cases next rest <;> rfl

theorem keepsLine_quote (h : KeepsLine next) : KeepsLine (readQuote next) := by
  intro text b
  cases text with
  | nil => rfl
  | cons c text =>
    rw [List.cons_append, readQuote, readQuote, h text b]
    by_cases hc : isQuote c = true
    · rw [if_pos hc, if_pos hc]
    · rw [if_neg hc, if_neg hc]
      rfl

theorem keepsLine_gap (h : KeepsLine next) : KeepsLine (readGap next) := by
  intro text b
  induction text with
  | nil =>
    have hend := h [] b
    rw [List.nil_append] at hend
    rw [List.nil_append, readGap, readGap, hend]
    cases next [] <;> rfl
  | cons c text ih =>
    have hhere := h (c :: text) b
    rw [List.cons_append] at hhere
    rw [List.cons_append, readGap, readGap, hhere, ih]
    -- the gap is over here, or it goes on unless this is the line end
    cases next (c :: text) with
    | some hit => rfl
    | none => by_cases hc : c = '\n' <;> simp [hc]

theorem keepsLine_specifier (h : KeepsLine next) : KeepsLine (readSpecifier next) := by
  intro text b
  induction text with
  | nil => rfl
  | cons c text ih =>
    rw [List.cons_append, readSpecifier, readSpecifier, h text b, ih]
    by_cases hc : c = '\n'
    · rw [if_pos hc, if_pos hc]
      rfl
    · rw [if_neg hc, if_neg hc]
      cases next text with
      | some hit => rfl
      | none =>
        rw [Option.map_none, Option.map_map, Option.map_map]
        rfl

/-- Blanks keep to a line as well, if something else stands behind them there. -/
theorem readBlanks_line (h : KeepsLine next) (htext : ∃ c ∈ text, Text.isBlank c = false)
    (b : List Char) :
    readBlanks next (text ++ '\n' :: b) = (readBlanks next text).map (Hit.before ('\n' :: b)) := by
  cases text with
  | nil => simp at htext
  | cons c text =>
    rw [List.cons_append, readBlanks, readBlanks]
    by_cases hc : Text.isBlank c = true
    · have hne : text.dropWhile Text.isBlank ≠ [] := by
        intro hnil
        obtain ⟨d, hd, hblank⟩ := htext
        have hall : ∀ e ∈ c :: text, Text.isBlank e = true :=
          List.forall_mem_cons.2 ⟨hc, List.dropWhile_eq_nil_iff.1 hnil⟩
        rw [hall d hd] at hblank
        cases hblank
      have hdrop : (text ++ '\n' :: b).dropWhile Text.isBlank
          = text.dropWhile Text.isBlank ++ '\n' :: b := by
        rw [List.dropWhile_append, if_neg (by simpa using hne)]
      rw [if_pos hc, if_pos hc, hdrop, h]
    · rw [if_neg hc, if_neg hc]
      rfl

/-! ## Signatures

Statements and exports have the run of blanks right behind their keyword. It stays within
the text if something else stands behind it there, which is what an open keyword lacks. -/

/-- The text ends in an open keyword: the word, and behind it blanks or nothing. -/
def EndsOpen (word text : List Char) : Prop :=
  ∃ front blanks, text = front ++ word ++ blanks ∧ ∀ c ∈ blanks, Text.isBlank c = true

theorem endsOpen_iff {word : List Char} :
    EndsOpen word text ↔ (text.tails.any fun blanks =>
      blanks.all Text.isBlank && (word ++ blanks).isSuffixOf text) = true := by
  simp only [List.any_eq_true, List.mem_tails, Bool.and_eq_true, List.all_eq_true,
    List.isSuffixOf_iff_suffix]
  constructor
  · rintro ⟨front, blanks, rfl, hblanks⟩
    refine ⟨blanks, List.suffix_append _ _, hblanks, front, ?_⟩
    rw [List.append_assoc]
  · rintro ⟨blanks, -, hblanks, front, rfl⟩
    exact ⟨front, blanks, (List.append_assoc ..).symm, hblanks⟩

instance (word text : List Char) : Decidable (EndsOpen word text) :=
  decidable_of_iff _ endsOpen_iff.symm

/-- Whatever of the text the signature matches, it matches as it would without a line end behind
the text. -/
def StaysWithin (signature : Signature) (text : List Char) : Prop :=
  ∀ part, part <:+ text → ∀ b, signature.matchHere? (part ++ '\n' :: b)
    = (signature.matchHere? part).map (Hit.before ('\n' :: b))

theorem StaysWithin.of_suffix {part : List Char} (h : StaysWithin signature text)
    (hpart : part <:+ text) : StaysWithin signature part :=
  fun p hp => h p (hp.trans hpart)

/-- A keyword that is not open at the end of the text, and pieces that keep to a line. -/
theorem staysWithin_keyword {word : List Char} {others : Signature} (hword : '\n' ∉ word)
    (hothers : KeepsLine (Signature.matchHere? others)) (htext : ¬ EndsOpen word text) :
    StaysWithin (.word [word] :: .blanks :: others) text := by
  have hmatch : ∀ text, Signature.matchHere? (.word [word] :: .blanks :: others) text
      = (afterWord? word text).bind (readBlanks (Signature.matchHere? others)) := by
    intro text
    rw [Signature.matchHere?, readWord_single]
    rfl
  rintro part ⟨front, rfl⟩ b
  rw [hmatch, hmatch, afterWord?_line hword]
  cases hbehind : afterWord? word part with
  | none => rfl
  | some rest =>
    rw [Option.map_some, Option.bind_some, Option.bind_some]
    refine readBlanks_line hothers ?_ b
    -- otherwise the keyword would be open
    by_contra hblank
    refine htext ⟨front, rest, ?_, fun c hc => ?_⟩
    · rw [afterWord?_eq_some_iff.1 hbehind, List.append_assoc]
    · by_contra hc'
      exact hblank ⟨c, hc, Bool.eq_false_iff.2 hc'⟩

theorem staysWithin_call {head : List Char} (hhead : '\n' ∉ head) :
    StaysWithin (Import.callSignature head) text := by
  have hkeeps : KeepsLine (Signature.matchHere? (Import.callSignature head)) :=
    keepsLine_word (List.forall_mem_singleton.2 hhead) <| keepsLine_quote <|
      keepsLine_specifier <| keepsLine_quote <|
        keepsLine_word (List.forall_mem_singleton.2 (by decide)) keepsLine_nil
  exact fun part _ => hkeeps part

theorem staysWithin_statement (htext : ¬ EndsOpen "import".toList text) :
    StaysWithin Import.statement.signature text :=
  staysWithin_keyword (by decide)
    (keepsLine_gap <| keepsLine_quote <| keepsLine_specifier <| keepsLine_quote keepsLine_nil)
    htext

theorem staysWithin_export (kind : Export) (htext : ¬ EndsOpen "export".toList text) :
    StaysWithin kind.signature text :=
  staysWithin_keyword (by decide)
    (keepsLine_word (by cases kind <;> decide) keepsLine_nil) htext

/-! ## Searches

A match within the first part is found whether or not there is a second one. If there is
none, the search passes the line end, where no signature matches, and goes on in the second
part. -/

/-- What is found in two parts with a line end between them is what is found in the first, and if
nothing is, then what is found in the second. -/
theorem find?_line (h : StaysWithin signature a) (hempty : signature.matchHere? [] = none) :
    signature.find? (a ++ '\n' :: b)
      = ((signature.find? a).map (Hit.before ('\n' :: b))).or (signature.find? b) := by
  induction a with
  | nil =>
    have hend := h [] List.suffix_rfl b
    rw [List.nil_append, hempty, Option.map_none] at hend
    have hbehind : signature.find? ('\n' :: b) = signature.find? b := by
      rw [Signature.find?, hend]
    have hnothing : signature.find? [] = none := hempty
    rw [List.nil_append, hbehind, hnothing, Option.map_none, Option.none_or]
  | cons c a ih =>
    have hhere := h (c :: a) List.suffix_rfl b
    rw [List.cons_append] at hhere
    rw [List.cons_append, Signature.find?, Signature.find?, hhere]
    cases signature.matchHere? (c :: a) with
    | some hit => rfl
    | none => exact ih (h.of_suffix (List.suffix_cons c a))

theorem occursIn_line (h : StaysWithin signature a) (hempty : signature.matchHere? [] = none) :
    signature.occursIn (a ++ '\n' :: b) = (signature.occursIn a || signature.occursIn b) := by
  rw [Signature.occursIn, find?_line h hempty, Option.isSome_or, Option.isSome_map]
  rfl

/-- What is captured in two parts with a line end between them is what is captured in the first and
then in the second. The induction is on the length of the first part: behind a match there is less
left of it. -/
theorem captures_line {Found : List Char → Nat → List Char → Nat → Prop}
    (hlocates : ∀ text, Locates signature text (Found text)) (h : StaysWithin signature a) :
    signature.captures (a ++ '\n' :: b) = signature.captures a ++ signature.captures b := by
  induction hn : a.length using Nat.strongRecOn generalizing a with
  | ind n ih =>
    have hline := find?_line (b := b) h (hlocates []).matchHere?_nil
    -- the first match is in the first part if there is one, and otherwise in the second
    cases hfind : signature.find? a with
    | none =>
      rw [hfind, Option.map_none, Option.none_or] at hline
      rw [(hlocates a).captures_of_none hfind, List.nil_append]
      cases hfindb : signature.find? b with
      | none =>
        rw [hfindb] at hline
        rw [(hlocates _).captures_of_none hline, (hlocates b).captures_of_none hfindb]
      | some hit =>
        rw [hfindb] at hline
        rw [(hlocates _).captures_of_some (hlocates _) hline,
          (hlocates b).captures_of_some (hlocates _) hfindb]
    | some hit =>
      rw [hfind, Option.map_some, Option.some_or] at hline
      obtain ⟨hsuffix, hlength⟩ := (hlocates a).rest_of_find? hfind
      rw [(hlocates _).captures_of_some (hlocates _) hline,
        (hlocates a).captures_of_some (hlocates _) hfind]
      exact congrArg (hit.captured :: ·) (ih _ (hn ▸ hlength) (h.of_suffix hsuffix) rfl)

/-! ## The main result

The pieces are put together for each signature. What is mentioned and exported follows from
what is captured and from what occurs. -/

/-- **A line end divides a text.** The calls of a text are those of its two parts, and so are the
statements, unless the first part ends in an open `import`. Then what the text mentions is what its
parts mention. A text exports something if one of its parts does, unless the first ends in an open
`export`. -/
theorem line_end_divides (a b : List Char) :
    Import.require.specifiersIn (a ++ '\n' :: b)
        = Import.require.specifiersIn a ++ Import.require.specifiersIn b ∧
      Import.dynamic.specifiersIn (a ++ '\n' :: b)
        = Import.dynamic.specifiersIn a ++ Import.dynamic.specifiersIn b ∧
      (¬ EndsOpen "import".toList a →
        Import.statement.specifiersIn (a ++ '\n' :: b)
            = Import.statement.specifiersIn a ++ Import.statement.specifiersIn b ∧
          ∀ token, mentions (a ++ '\n' :: b) token = (mentions a token || mentions b token)) ∧
      (¬ EndsOpen "export".toList a →
        hasExports (a ++ '\n' :: b) = (hasExports a || hasExports b)) := by
  have hrequire : Import.require.specifiersIn (a ++ '\n' :: b)
      = Import.require.specifiersIn a ++ Import.require.specifiersIn b :=
    captures_line (locates_call _) (staysWithin_call (by decide))
  have hdynamic : Import.dynamic.specifiersIn (a ++ '\n' :: b)
      = Import.dynamic.specifiersIn a ++ Import.dynamic.specifiersIn b :=
    captures_line (locates_call _) (staysWithin_call (by decide))
  refine ⟨hrequire, hdynamic, fun himport => ?_, fun hexport => ?_⟩
  · have hstatement : Import.statement.specifiersIn (a ++ '\n' :: b)
        = Import.statement.specifiersIn a ++ Import.statement.specifiersIn b :=
      captures_line (fun _ => locates_statement) (staysWithin_statement himport)
    -- the three kinds of specifiers come in another order, which makes no difference
    refine ⟨hstatement, fun token => ?_⟩
    simp only [mentions, importedSpecifiers, Import.kinds, List.flatMap_cons, List.flatMap_nil,
      hstatement, hrequire, hdynamic, List.any_append, List.any_nil]
    ac_rfl
  · have hkind : ∀ kind : Export, kind.occursIn (a ++ '\n' :: b)
        = (kind.occursIn a || kind.occursIn b) := fun kind =>
      occursIn_line (staysWithin_export kind hexport) (by cases kind <;> rfl)
    simp only [hasExports, Export.kinds, List.any_cons, List.any_nil, hkind]
    ac_rfl

/-- A line end in the middle of a call, between two import statements. -/
theorem line_end_divides_call :
    let a := "import './a'; require('./c".toList
    let b := "'); import './b'; export * from './d'".toList
    ¬ EndsOpen "import".toList a ∧ ¬ EndsOpen "export".toList a ∧
      Import.require.specifiersIn (a ++ '\n' :: b) = [] ∧
      Import.statement.specifiersIn (a ++ '\n' :: b) = ["./a".toList, "./b".toList] ∧
      mentions (a ++ '\n' :: b) "c".toList = false ∧ hasExports (a ++ '\n' :: b) = true := by
  intro a b
  have himport : ¬ EndsOpen "import".toList a := by decide
  have hexport : ¬ EndsOpen "export".toList a := by decide
  obtain ⟨hrequire, -, hstatement, hexports⟩ := line_end_divides a b
  obtain ⟨hstatement, hmentions⟩ := hstatement himport
  exact ⟨himport, hexport, hrequire.trans (by decide), hstatement.trans (by decide),
    (hmentions _).trans (by decide), (hexports hexport).trans (by decide)⟩

/-- Behind an open keyword the line end is one of its blanks, and the statement of the second line
is lost. -/
example : Import.statement.specifiersIn ("import".toList ++ '\n' :: "'import './b'".toList)
      = ["import ".toList] ∧
    Import.statement.specifiersIn "'import './b'".toList = ["./b".toList] := by decide

end Unimported.Source
