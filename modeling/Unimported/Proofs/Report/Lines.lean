/-
What stands in the lines of a report for terminals.

The texts of the program itself have no control characters, and neither have numbers. So a control
character stands in a line only where a path, a token or an extension has it. In particular the
escape character does, and where none has it the colours are all that the escape sequences add.
-/
import Unimported.Proofs.Terminal.Escape
import Unimported.Proofs.Text.Utf8
import Unimported.Report.Terminal

set_option autoImplicit false

namespace Unimported

open Terminal (Line plain styled pad row border blanks Joints)

/-! ## Names without a character

Paths are bytes and shown as text. A control character is shown where its bytes are, since
bytes that are no text are shown as another character. -/

/-- The character is not written in the path. -/
def Path.Lacks (p : Path) (c : Char) : Prop := ¬ Text.Utf8.encodeChar c <:+: p.bytes

instance (p : Path) (c : Char) : Decidable (p.Lacks c) := inferInstanceAs (Decidable (¬ _))

/-- The character is in no path, token and extension of the report. -/
structure Report.Lacks (r : Report) (c : Char) : Prop where
  used : ∀ p ∈ r.used, p.Lacks c
  path : ∀ f ∈ r.unused, f.path.Lacks c
  token : ∀ f ∈ r.unused, c ∉ f.token.toList
  extension : ∀ f ∈ r.unused, c ∉ f.extension.toList

/-- A character that is not shown and moves the place at which a terminal writes. -/
def IsControl (c : Char) : Prop := c.toNat < 0x20

instance (c : Char) : Decidable (IsControl c) := inferInstanceAs (Decidable (_ < _))

variable {c : Char} {text : List Char}

/-- No character of the text is such a character. -/
def isPrintable (text : List Char) : Bool := text.all fun a => 0x20 ≤ a.toNat

theorem IsControl.not_mem (hc : IsControl c) (htext : isPrintable text = true) : c ∉ text := by
  intro hmem
  have hle := of_decide_eq_true (List.all_eq_true.1 htext c hmem)
  exact Nat.not_lt.2 hle hc

theorem Path.Lacks.not_mem_display {p : Path} (h : p.Lacks c) (hc : IsControl c) :
    c ∉ p.display.toList := by
  have hreplacement : c ≠ Text.Utf8.replacement := by
    rintro rfl
    exact absurd hc (by decide)
  rw [display, Text.Utf8.toStringLossy, String.toList_ofList,
    Text.Utf8.mem_lossy_iff hreplacement]
  exact h

/-! ## Numbers

Numbers and times are written with digits and a few marks, and none of these is a control
character. -/

theorem not_isControl_of_isDigit (h : c.isDigit = true) : ¬ IsControl c := by
  rw [Char.isDigit, Bool.and_eq_true, decide_eq_true_eq] at h
  have hlow : 0x30 ≤ c.toNat := h.1
  unfold IsControl
  omega

theorem IsControl.not_mem_toDigits (hc : IsControl c) (n : Nat) : c ∉ Nat.toDigits 10 n := by
  intro h
  have hdigit := Nat.isDigit_of_mem_toDigits (by decide) (by decide) h
  exact not_isControl_of_isDigit hdigit hc

theorem IsControl.not_mem_elapsed (hc : IsControl c) (d : Duration) : c ∉ d.text := by
  have hdigits := hc.not_mem_toDigits
  have hmarks : c ∉ ['.', '0', 's'] := hc.not_mem (by decide)
  simp only [List.mem_cons, List.not_mem_nil, or_false, not_or] at hmarks
  simp [Duration.text, Number.Double.writeHundredths, Number.zeros, hdigits, hmarks]

/-! ## Tables

What goes into a cell is padded with blanks, and what stands between the cells are bars, so
a row has no more control characters than its cells. -/

namespace Terminal

theorem lacks_nil : Line.Lacks [] c := List.forall_mem_nil _

theorem lacks_singleton (style : Style) (h : c ∉ text) : Line.Lacks [⟨style, text⟩] c :=
  List.forall_mem_singleton.2 h

theorem lacks_styled (style : Style) {s : String} (h : c ∉ s.toList) :
    Line.Lacks [styled style s] c :=
  lacks_singleton style h

theorem not_mem_blanks (hc : IsControl c) (n : Nat) : c ∉ blanks n := by
  intro h
  rw [List.eq_of_mem_replicate h] at hc
  exact absurd hc (by decide)

theorem not_mem_pad (hc : IsControl c) (align : Align) (width : Nat) (h : c ∉ text) :
    c ∉ pad align width text := by
  cases align with
  | left => exact List.not_mem_append h (not_mem_blanks hc _)
  | right => exact List.not_mem_append (not_mem_blanks hc _) h

theorem lacks_row (hc : IsControl c) {cells : List Line} (h : ∀ cell ∈ cells, Line.Lacks cell c) :
    (row cells).Lacks c := by
  have hbar : c ∉ (plain "│").text := hc.not_mem (by decide)
  have hblank : c ∉ (plain " ").text := hc.not_mem (by decide)
  rw [row, Line.Lacks, List.forall_mem_cons, List.forall_mem_flatMap]
  -- Around each cell stand two blanks, and a bar behind the second one.
  refine ⟨hbar, fun cell hcell => ?_⟩
  rw [List.forall_mem_append, List.forall_mem_cons]
  exact ⟨⟨hblank, h cell hcell⟩, List.forall_mem_cons.2 ⟨hblank, lacks_singleton _ hbar⟩⟩

theorem not_mem_intercalate {middle : Char} {parts : List (List Char)} (hmiddle : c ≠ middle)
    (h : ∀ part ∈ parts, c ∉ part) : c ∉ List.intercalate [middle] parts := by
  induction parts with
  | nil => exact List.not_mem_nil
  | cons part parts ih =>
    obtain ⟨hpart, hparts⟩ := List.forall_mem_cons.1 h
    cases parts with
    | nil => rwa [List.intercalate_singleton]
    | cons next parts =>
      rw [List.intercalate_cons_cons]
      simp only [List.mem_append, List.mem_singleton, not_or]
      exact ⟨⟨hpart, hmiddle⟩, ih hparts⟩

theorem lacks_border (hc : IsControl c) {joints : Joints} (widths : List Nat)
    (hjoints : isPrintable [joints.left, joints.middle, joints.right] = true) :
    (border joints widths).Lacks c := by
  have hjoint := hc.not_mem hjoints
  simp only [List.mem_cons, List.not_mem_nil, or_false, not_or] at hjoint
  obtain ⟨hleft, hmiddle, hright⟩ := hjoint
  have hdash : c ≠ '─' := by
    rintro rfl
    exact absurd hc (by decide)
  refine lacks_singleton _ ?_
  simp only [List.mem_cons, List.mem_append, List.not_mem_nil, or_false, not_or]
  refine ⟨hleft, not_mem_intercalate hmiddle ?_, hright⟩
  refine List.forall_mem_map.2 fun width _ => ?_
  exact fun h => hdash (List.eq_of_mem_replicate h)

end Terminal

/-! ## Sections

Each section is gone through in the order in which it is written. Texts of the program are
tested character by character, and what comes from the report is known by assumption. -/

namespace Report

open Terminal (lacks_nil lacks_singleton lacks_styled lacks_row lacks_border not_mem_pad
  not_mem_blanks)

variable {r : Report}

/-- The widths of the columns of the table of unused files. -/
def columnWidths (r : Report) : List Nat := columns.map fun column => column.width r.numbered

theorem unusedTable_eq (r : Report) :
    r.unusedTable
      = [border .top r.columnWidths,
          row (columns.map fun column =>
            [⟨.bold, pad column.align (column.width r.numbered) column.header.toList⟩]),
          border .inner r.columnWidths]
        ++ r.numbered.map (fun (number, file) => row (columns.map fun column =>
            [⟨column.style,
              pad column.align (column.width r.numbered) (column.cell number file)⟩]))
        ++ [border .bottom r.columnWidths] := by
  simp only [unusedTable, columnWidths, List.zipWith_map_right, List.zipWith_self]

theorem mem_unused_of_mem_numbered {number : Nat} {file : UnusedFile}
    (h : (number, file) ∈ r.numbered) : file ∈ r.unused := by
  obtain ⟨⟨file', index⟩, hmem, heq⟩ := List.mem_map.1 h
  obtain ⟨-, rfl⟩ := Prod.mk.inj heq
  exact List.fst_mem_of_mem_zipIdx hmem

theorem Lacks.not_mem_cell (h : r.Lacks c) (hc : IsControl c) {file : UnusedFile}
    (hfile : file ∈ r.unused) (number : Nat) :
    ∀ column ∈ columns, c ∉ column.cell number file := by
  simp only [columns, List.forall_mem_cons, List.not_mem_nil, false_imp_iff, implies_true, and_true]
  exact ⟨hc.not_mem_toDigits number, (h.path file hfile).not_mem_display hc, h.token file hfile,
    h.extension file hfile⟩

theorem Lacks.unusedTable (h : r.Lacks c) (hc : IsControl c) :
    ∀ line ∈ r.unusedTable, line.Lacks c := by
  have hheader : ∀ column ∈ columns, isPrintable column.header.toList = true := by decide
  rw [unusedTable_eq, List.forall_mem_append, List.forall_mem_append]
  simp only [List.forall_mem_cons, List.forall_mem_map, List.not_mem_nil, false_imp_iff,
    implies_true, and_true]
  refine ⟨⟨⟨lacks_border hc _ (by decide), lacks_row hc ?_, lacks_border hc _ (by decide)⟩,
    fun (number, file) hmem => lacks_row hc ?_⟩, lacks_border hc _ (by decide)⟩
  · refine List.forall_mem_map.2 fun column hcolumn => lacks_singleton _ ?_
    exact not_mem_pad hc _ _ (hc.not_mem (hheader column hcolumn))
  -- Only these cells hold what is not the program's own text.
  · refine List.forall_mem_map.2 fun column hcolumn => lacks_singleton _ ?_
    have hfile := mem_unused_of_mem_numbered hmem
    exact not_mem_pad hc _ _ (h.not_mem_cell hc hfile number column hcolumn)

theorem not_mem_metric (hc : IsControl c) :
    ∀ m ∈ r.metrics, c ∉ m.label.toList ∧ c ∉ m.value := by
  simp only [metrics, List.forall_mem_cons, List.not_mem_nil, false_imp_iff, implies_true, and_true]
  have hdigits := hc.not_mem_toDigits
  exact ⟨⟨hc.not_mem (by decide), hdigits _⟩, ⟨hc.not_mem (by decide), hdigits _⟩,
    ⟨hc.not_mem (by decide), hdigits _⟩, ⟨hc.not_mem (by decide), hdigits _⟩,
    hc.not_mem (by decide), hc.not_mem_elapsed _⟩

theorem lacks_summaryTable (hc : IsControl c) : ∀ line ∈ r.summaryTable, line.Lacks c := by
  rw [summaryTable, List.forall_mem_append, List.forall_mem_append]
  simp only [List.forall_mem_singleton, List.forall_mem_map]
  refine ⟨⟨lacks_border hc _ (by decide), fun m hm => lacks_row hc ?_⟩,
    lacks_border hc _ (by decide)⟩
  obtain ⟨hlabel, hvalue⟩ := not_mem_metric hc m hm
  simp only [List.forall_mem_cons, List.not_mem_nil, false_imp_iff, implies_true, and_true]
  exact ⟨lacks_singleton _ (not_mem_pad hc _ _ hlabel),
    List.forall_mem_cons.2 ⟨not_mem_blanks hc _, lacks_singleton _ hvalue⟩⟩

/-- The text of the headline above the table of unused files. -/
def headline (count : Nat) : List Char :=
  "⚠️  Found ".toList ++ Nat.toDigits 10 count ++ " unused file(s):".toList

theorem toList_append_toString (front back : String) (n : Nat) :
    (front ++ toString n ++ back).toList = front.toList ++ Nat.toDigits 10 n ++ back.toList := by
  rw [String.toList_append, String.toList_append, Nat.toString_eq_repr, Nat.toList_repr]

theorem toList_headline (count : Nat) :
    ("⚠️  Found " ++ toString count ++ " unused file(s):").toList = headline count :=
  toList_append_toString _ _ count

theorem not_mem_headline (hc : IsControl c) (count : Nat) : c ∉ headline count :=
  List.not_mem_append (List.not_mem_append (hc.not_mem (by decide)) (hc.not_mem_toDigits _))
    (hc.not_mem (by decide))

theorem Lacks.unusedSection (h : r.Lacks c) (hc : IsControl c) :
    ∀ line ∈ r.unusedSection, line.Lacks c := by
  rw [Report.unusedSection]
  split
  · rw [List.forall_mem_append, List.forall_mem_cons, List.forall_mem_singleton]
    have hcount := not_mem_headline hc r.unused.length
    rw [← toList_headline] at hcount
    exact ⟨⟨lacks_styled _ hcount, lacks_nil⟩, h.unusedTable hc⟩
  · rw [List.forall_mem_cons, List.forall_mem_singleton]
    exact ⟨lacks_styled _ (hc.not_mem (by decide)), lacks_nil⟩

theorem Lacks.usedSection (h : r.Lacks c) (hc : IsControl c) :
    ∀ line ∈ r.usedSection, line.Lacks c := by
  rw [Report.usedSection]
  split
  · exact List.forall_mem_nil _
  · rw [List.forall_mem_append, List.forall_mem_cons, List.forall_mem_singleton,
      List.forall_mem_map]
    refine ⟨⟨lacks_nil, lacks_styled _ (hc.not_mem (by decide))⟩, fun p hp => ?_⟩
    have hpath : c ∉ (" " ++ p.display).toList := by
      rw [String.toList_append]
      exact List.not_mem_append (hc.not_mem (by decide)) ((h.used p hp).not_mem_display hc)
    exact List.forall_mem_cons.2 ⟨hc.not_mem (by decide),
      List.forall_mem_cons.2 ⟨hc.not_mem (by decide), lacks_singleton _ hpath⟩⟩

theorem lacks_tipSection (hc : IsControl c) : ∀ line ∈ r.tipSection, line.Lacks c := by
  rw [tipSection]
  split
  · rw [List.forall_mem_cons, List.forall_mem_singleton]
    exact ⟨lacks_nil, lacks_styled _ (hc.not_mem (by decide))⟩
  · exact List.forall_mem_nil _

/-- **A control character is in a line only if it is in a path, a token or an extension.** -/
theorem Lacks.terminalLines (h : r.Lacks c) (hc : IsControl c) (showUsed : Bool) :
    ∀ line ∈ r.terminalLines showUsed, line.Lacks c := by
  have hused : ∀ line ∈ if showUsed then r.usedSection else [], line.Lacks c := by
    split
    · exact h.usedSection hc
    · exact List.forall_mem_nil _
  simp only [Report.terminalLines, List.forall_mem_append, List.forall_mem_cons,
    List.not_mem_nil, false_imp_iff, implies_true, and_true]
  exact ⟨⟨⟨⟨⟨⟨lacks_nil, lacks_styled _ (hc.not_mem (by decide)), lacks_nil⟩,
    h.unusedSection hc⟩, hused⟩, lacks_nil, lacks_styled _ (hc.not_mem (by decide)), lacks_nil⟩,
    lacks_summaryTable hc⟩, lacks_tipSection hc⟩

/-- **Colours are decoration only**: with its escape sequences deleted, the report for terminals
with colours is the one for all others. -/
theorem colours_add_escapes (h : r.Lacks Terminal.escape) (showUsed : Bool) :
    Terminal.withoutEscapes (r.toTerminal true showUsed).toList
      = (r.toTerminal false showUsed).toList := by
  rw [toTerminal, toTerminal, String.toList_ofList, String.toList_ofList]
  exact Terminal.withoutEscapes_writeLines (h.terminalLines (by decide) showUsed)

/-- A used path beyond ASCII, and an unused one with a bracket and the letter that ends an escape
sequence. -/
theorem colours_add_escapes_bracket :
    Terminal.withoutEscapes ((Report.mk 2 2 [Path.ofString "é.ts"]
        [⟨Path.ofString "src/[0m.js", "[0m", ".js"⟩] ⟨1, 5⟩).toTerminal true true).toList
      = ((Report.mk 2 2 [Path.ofString "é.ts"]
        [⟨Path.ofString "src/[0m.js", "[0m", ".js"⟩] ⟨1, 5⟩).toTerminal false true).toList :=
  colours_add_escapes ⟨by decide, by decide, by decide, by decide⟩ true

end Report

end Unimported
