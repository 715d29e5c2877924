/-
The time in a report.

Two scans of one project take different times, and their reports differ in that. They differ in
nothing else: in either form of the report the time stands at one place, and the text around that
place does not depend on it. In the table for terminals this takes it that the times are shown
equally wide, for the column is as wide as its widest cell.
-/
import Unimported.Report.Terminal

set_option autoImplicit false

namespace Unimported

/-! ## Texts around one part

A text with one changing part can be the changing part of a larger text. So the time is
followed from the inside out, through the cell or the field, its line, and the whole, and
the texts around it are never written down. -/

/-- A text shows a part at one place, and the text around it is always the same. -/
def ShowsOnce {α : Type} (text part : α → List Char) : Prop :=
  ∃ before after, ∀ a, text a = before ++ part a ++ after

namespace ShowsOnce

variable {α β : Type} {text part piece : α → List Char}

theorem refl (text : α → List Char) : ShowsOnce text text := ⟨[], [], fun a => by simp⟩

theorem trans (h : ShowsOnce text part) (h' : ShowsOnce part piece) : ShowsOnce text piece := by
  obtain ⟨before, after, htext⟩ := h
  obtain ⟨before', after', hpart⟩ := h'
  refine ⟨before ++ before', after' ++ after, fun a => ?_⟩
  rw [htext, hpart]
  simp only [List.append_assoc]

theorem congr {text' : α → List Char} (heq : ∀ a, text a = text' a) (h : ShowsOnce text' part) :
    ShowsOnce text part := by
  obtain ⟨before, after, htext⟩ := h
  exact ⟨before, after, fun a => (heq a).trans (htext a)⟩

theorem comp (h : ShowsOnce text part) (f : β → α) :
    ShowsOnce (fun b => text (f b)) (fun b => part (f b)) := by
  obtain ⟨before, after, htext⟩ := h
  exact ⟨before, after, fun b => htext (f b)⟩

theorem append_right (h : ShowsOnce text part) (back : List Char) :
    ShowsOnce (fun a => text a ++ back) part :=
  trans ⟨[], back, fun a => by simp⟩ h

/-- Of pieces that are written one behind the other only one changes. -/
theorem flatMap {γ : Type} (write : γ → List Char) (front back : List γ) (x : α → γ) :
    ShowsOnce (fun a => (front ++ x a :: back).flatMap write) (fun a => write (x a)) := by
  refine ⟨front.flatMap write, back.flatMap write, fun a => ?_⟩
  dsimp only
  rw [List.flatMap_append, List.flatMap_cons, List.append_assoc]

end ShowsOnce

/-! ## The document

The time is the last field of an object that is itself a field, so writing an object with
one changing field is used twice. -/

namespace Json.Value

variable (layout : Layout) (depth : Nat)

theorem writeFields_append (front back : List (String × Value)) :
    writeFields layout depth (front ++ back)
      = writeFields layout depth front ++ writeFields layout depth back := by
  induction front with
  | nil => rw [writeFields, List.nil_append, List.nil_append]
  | cons field front ih =>
    rw [List.cons_append, writeFields, writeFields, ih]
    simp only [List.append_assoc, List.cons_append]

/-- Of the fields of an object only one changes. The first field is not behind a comma, so it is a
case of its own. -/
theorem object_showsOnce (front back : List (String × Value)) (key : String) :
    ShowsOnce (fun value => (object (front ++ (key, value) :: back)).write layout depth)
      (fun value => writeField layout (depth + 1) (key, value)) := by
  cases front with
  | nil =>
    refine ⟨'\x7b' :: layout.lineBreak (depth + 1),
      writeFields layout (depth + 1) back ++ layout.lineBreak depth ++ ['\x7d'], fun value => ?_⟩
    dsimp only
    rw [List.nil_append, write]
    simp only [List.append_assoc]
  | cons field front =>
    refine ⟨'\x7b' :: layout.lineBreak (depth + 1) ++ writeField layout (depth + 1) field
        ++ writeFields layout (depth + 1) front ++ ',' :: layout.lineBreak (depth + 1),
      writeFields layout (depth + 1) back ++ layout.lineBreak depth ++ ['\x7d'], fun value => ?_⟩
    dsimp only
    rw [List.cons_append, write, writeFields_append, writeFields]
    simp only [List.append_assoc, List.cons_append]

theorem writeField_showsOnce (key : String) :
    ShowsOnce (fun value => writeField layout depth (key, value))
      (fun value => value.write layout depth) := by
  refine ⟨quoted key.toList ++ ':' :: layout.afterColon, [], fun value => ?_⟩
  dsimp only
  rw [writeField, List.append_nil]

end Json.Value

open Json.Value (writeField writeField_showsOnce object_showsOnce)
open Terminal (Line plain styled pad row border)

namespace Report

/-- The report on a scan that took so long. -/
def timed (r : Report) (elapsed : Duration) : Report := { r with elapsed := elapsed }

/-- The field of the document that holds the time. -/
def elapsedField (elapsed : Duration) : List Char :=
  writeField .indented 2 ("elapsed_seconds", .real elapsed.toDouble)

/-- The fields of the summary before that. -/
def counts (r : Report) : List (String × Json.Value) := [
  ("total_scanned", .natural r.totalScanned),
  ("exporting_count", .natural r.exportingCount),
  ("used_count", .natural r.used.length),
  ("unused_count", .natural r.unused.length)]

/-- The fields of the document behind the summary. -/
def listings (r : Report) : List (String × Json.Value) := [
  ("unused", .array (r.unused.map UnusedFile.toDocument)),
  ("used", .array (r.used.map fun p => .string p.display))]

theorem summary_timed (r : Report) (elapsed : Duration) :
    (r.timed elapsed).summary
      = .object (r.counts ++ [("elapsed_seconds", .real elapsed.toDouble)]) := rfl

theorem document_timed (r : Report) (elapsed : Duration) :
    (r.timed elapsed).document
      = .object ([("version", .string documentVersion)]
          ++ ("summary", (r.timed elapsed).summary) :: r.listings) := rfl

/-- The document shows the time in one field, which is the last one of the summary. -/
theorem toJson_elapsed (r : Report) :
    ∃ before after, ∀ elapsed,
      (r.timed elapsed).toJson = String.ofList (before ++ elapsedField elapsed ++ after) := by
  have hsummary : ShowsOnce (fun elapsed => (r.timed elapsed).summary.write .indented 1)
      elapsedField := by
    simp only [summary_timed]
    exact (object_showsOnce .indented 1 r.counts [] "elapsed_seconds").comp
      fun elapsed : Duration => .real elapsed.toDouble
  have hdocument : ShowsOnce (fun elapsed => (r.timed elapsed).document.write .indented 0)
      fun elapsed => writeField .indented 1 ("summary", (r.timed elapsed).summary) := by
    simp only [document_timed]
    exact (object_showsOnce .indented 0 _ r.listings "summary").comp
      fun elapsed => (r.timed elapsed).summary
  have hfield := (writeField_showsOnce .indented 1 "summary").comp
    fun elapsed => (r.timed elapsed).summary
  obtain ⟨before, after, h⟩ := (hdocument.trans hfield).trans hsummary
  exact ⟨before, after, fun elapsed => congrArg String.ofList (h elapsed)⟩

/-! ## The tables

In a table the time makes itself felt beside its cell, since the column is as wide as its
widest value. With the width of the time given, that of the column is known, and the line
with the time is the only one that changes. -/

/-- The lines of the table of counts before the one with the time. -/
def countMetrics (r : Report) : List Metric := [
  ⟨"Total Files Scanned", .colour .blue, countText r.totalScanned⟩,
  ⟨"Files with Exports", .colour .blue, countText r.exportingCount⟩,
  ⟨"Files in Use", .colour .green, countText r.used.length⟩,
  ⟨"Unused Files", .colour (if r.hasUnused then .red else .green), countText r.unused.length⟩]

/-- The line of the table of counts with the time. -/
def elapsedMetric (elapsed : Duration) : Metric := ⟨"Elapsed", .plain, elapsed.text⟩

theorem metrics_timed (r : Report) (elapsed : Duration) :
    (r.timed elapsed).metrics = r.countMetrics ++ [elapsedMetric elapsed] := rfl

end Report

theorem Terminal.widest_eq (cells : List (List Char)) :
    Terminal.widest cells = (cells.map List.length).foldr max 0 := by
  rw [Terminal.widest, List.foldr_map]

theorem Terminal.Span.write_plain (coloured : Bool) (text : List Char) :
    Terminal.Span.write coloured ⟨.plain, text⟩ = text := by
  rw [Terminal.Span.write, bne_self_eq_false, Bool.and_false]
  rfl

namespace Report

/-- The width of the column of labels. -/
def labelWidth (r : Report) : Nat :=
  Terminal.widest (r.countMetrics.map (fun m => m.label.toList) ++ ["Elapsed".toList])

/-- The width of the column of values if the time is so wide. -/
def valueWidth (r : Report) (width : Nat) : Nat :=
  ((r.countMetrics.map fun m => m.value.length) ++ [width]).foldr max 0

/-- A line of the table of counts as it is shown. -/
def metricRow (labelWidth valueWidth : Nat) (m : Metric) : Line :=
  row [[⟨.colour .white, pad .left labelWidth m.label.toList⟩],
    [⟨.plain, Terminal.blanks (valueWidth - m.value.length)⟩, ⟨m.style, m.value⟩]]

theorem widest_values (r : Report) {elapsed : Duration} {width : Nat}
    (h : elapsed.text.length = width) :
    Terminal.widest ((r.timed elapsed).metrics.map Metric.value) = r.valueWidth width := by
  rw [Terminal.widest_eq, metrics_timed, List.map_map, List.map_append, ← h]
  rfl

theorem summaryTable_timed (r : Report) {elapsed : Duration} {width : Nat}
    (h : elapsed.text.length = width) :
    (r.timed elapsed).summaryTable
      = [border .top [r.labelWidth, r.valueWidth width]]
        ++ (r.countMetrics ++ [elapsedMetric elapsed]).map
          (metricRow r.labelWidth (r.valueWidth width))
        ++ [border .bottom [r.labelWidth, r.valueWidth width]] := by
  rw [summaryTable, widest_values r h]
  rfl

/-- The lines of the report before the one with the time. -/
def linesBefore (showUsed : Bool) (r : Report) (width : Nat) : List Line :=
  [[], [styled (.boldColour .cyan) "📋 Results:"], []]
    ++ r.unusedSection
    ++ (if showUsed then r.usedSection else [])
    ++ [[], [styled (.boldColour .cyan) "📈 Summary:"], []]
    ++ [border .top [r.labelWidth, r.valueWidth width]]
    ++ r.countMetrics.map (metricRow r.labelWidth (r.valueWidth width))

/-- The lines of the report behind the one with the time. -/
def linesAfter (r : Report) (width : Nat) : List Line :=
  border .bottom [r.labelWidth, r.valueWidth width] :: r.tipSection

theorem terminalLines_timed (showUsed : Bool) (r : Report) {elapsed : Duration} {width : Nat}
    (h : elapsed.text.length = width) :
    (r.timed elapsed).terminalLines showUsed
      = r.linesBefore showUsed width
        ++ metricRow r.labelWidth (r.valueWidth width) (elapsedMetric elapsed)
          :: r.linesAfter width := by
  rw [terminalLines, summaryTable_timed r h, linesBefore, linesAfter, List.map_append]
  simp only [List.append_assoc, List.cons_append, List.nil_append, List.map_cons, List.map_nil]
  rfl

/-- The last span but two of the line with the time is the time itself. -/
theorem metricRow_elapsed (labelWidth valueWidth : Nat) {elapsed : Duration} {width : Nat}
    (h : elapsed.text.length = width) :
    metricRow labelWidth valueWidth (elapsedMetric elapsed)
      = [plain "│", plain " ", ⟨.colour .white, pad .left labelWidth "Elapsed".toList⟩,
          plain " ", plain "│", plain " ", ⟨.plain, Terminal.blanks (valueWidth - width)⟩]
        ++ ⟨.plain, elapsed.text⟩ :: [plain " ", plain "│"] := by
  rw [← h]
  rfl

/-- The report for terminals shows the time at one place. -/
theorem toTerminal_elapsed (r : Report) (coloured showUsed : Bool) (width : Nat) :
    ∃ before after, ∀ elapsed : Duration, elapsed.text.length = width →
      (r.timed elapsed).toTerminal coloured showUsed
        = String.ofList (before ++ elapsed.text ++ after) := by
  -- Times that are shown so wide, for only among these the width of the column is fixed.
  let Wide : Type := { elapsed : Duration // elapsed.text.length = width }
  have hspan : ShowsOnce
      (fun elapsed : Wide => Terminal.Span.write coloured ⟨.plain, elapsed.1.text⟩)
      fun elapsed => elapsed.1.text :=
    (ShowsOnce.refl _).congr fun elapsed => Terminal.Span.write_plain coloured elapsed.1.text
  have hline : ShowsOnce
      (fun elapsed : Wide =>
        (metricRow r.labelWidth (r.valueWidth width) (elapsedMetric elapsed.1)).write coloured)
      fun elapsed => elapsed.1.text :=
    ((ShowsOnce.flatMap (Terminal.Span.write coloured) _ _ _).trans hspan).congr fun elapsed =>
      congrArg (Terminal.Line.write coloured) (metricRow_elapsed _ _ elapsed.2)
  have hlines : ShowsOnce
      (fun elapsed : Wide =>
        Terminal.writeLines coloured ((r.timed elapsed.1).terminalLines showUsed))
      fun elapsed => elapsed.1.text :=
    ((ShowsOnce.flatMap _ _ _ _).trans (hline.append_right ['\n'])).congr fun elapsed =>
      congrArg (Terminal.writeLines coloured) (terminalLines_timed showUsed r elapsed.2)
  obtain ⟨before, after, h⟩ := hlines
  exact ⟨before, after, fun elapsed hwide => congrArg String.ofList (h ⟨elapsed, hwide⟩)⟩

end Report

end Unimported
