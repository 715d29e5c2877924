/-
The tables of a report, as a reader sees them.

A report for terminals is read line by line. Then it is a headline, the table of unused files, the
files in use if they are asked for, the table of counts and a tip, and where nothing is unused there
is no such table and no tip. In both tables the bars stand below each other and each cell holds its
whole value, however wide it is.
-/
import Unimported.Proofs.Report.Lines
import Unimported.Proofs.Terminal.Table

set_option autoImplicit false

namespace Unimported

open Terminal (Line plain styled pad row border Strip IsTable barAt)

/-! ## Lines

The text is the lines, each with a line end behind it. Where none of them holds a line end
itself, cutting the text at the line ends gives them back. -/

namespace Terminal

theorem flatMap_append_singleton {α : Type} (x : α) (parts : List (List α)) :
    parts.flatMap (fun part => part ++ [x]) = List.intercalate [x] (parts ++ [[]]) := by
  induction parts with
  | nil => rfl
  | cons part parts ih =>
    obtain ⟨next, others, hothers⟩ :=
      List.exists_cons_of_ne_nil (List.append_ne_nil_of_right_ne_nil parts (List.cons_ne_nil [] []))
    rw [List.flatMap_cons, ih, List.cons_append, hothers, List.intercalate_cons_cons]

/-- Lines are read back, with nothing behind the last line end. -/
theorem splitOn_writeLines {lines : List Line} (h : ∀ line ∈ lines, line.Lacks '\n') :
    (writeLines false lines).splitOn '\n' = lines.map (Line.write false) ++ [[]] := by
  have htext : writeLines false lines
      = List.intercalate ['\n'] (lines.map (Line.write false) ++ [[]]) := by
    rw [← flatMap_append_singleton, List.flatMap_map]
    rfl
  have hparts : ∀ part ∈ lines.map (Line.write false) ++ [[]], '\n' ∉ part := by
    rw [List.forall_mem_append, List.forall_mem_map, List.forall_mem_singleton]
    refine ⟨fun line hline hmem => ?_, List.not_mem_nil⟩
    obtain ⟨span, hspan, hc⟩ := List.mem_flatMap.1 hmem
    exact h line hline span hspan hc
  rw [htext, List.splitOn_intercalate _ hparts
    (List.append_ne_nil_of_right_ne_nil _ (List.cons_ne_nil _ _))]

theorem write_styled (style : Style) (s : String) :
    Line.write false [styled style s] = s.toList := by
  rw [Line.write_false, List.flatMap_singleton]
  rfl

end Terminal

namespace Report

/-! ## What is in the tables

The tables are stated without a word on padding, as rows of values and borders. How wide a
column is is left to `Fits`, since subtracting widths says nothing where a text is wider
than its column. -/

/-- The table of unused files: under the headers a row for each file, with its number. -/
def unusedStrips (r : Report) : List Strip :=
  [.border .top,
    .row [⟨.right, "#".toList⟩, ⟨.left, "File Path".toList⟩, ⟨.left, "Component".toList⟩,
      ⟨.left, "Type".toList⟩],
    .border .inner]
  ++ r.unused.zipIdx.map (fun (file, index) =>
    .row [⟨.right, Nat.toDigits 10 (index + 1)⟩, ⟨.left, file.path.display.toList⟩,
      ⟨.left, file.token.toList⟩, ⟨.left, file.extension.toList⟩])
  ++ [.border .bottom]

/-- The table of counts: a row for each of them, and one for the time. -/
def summaryStrips (r : Report) : List Strip := [
  .border .top,
  .row [⟨.left, "Total Files Scanned".toList⟩, ⟨.right, Nat.toDigits 10 r.totalScanned⟩],
  .row [⟨.left, "Files with Exports".toList⟩, ⟨.right, Nat.toDigits 10 r.exportingCount⟩],
  .row [⟨.left, "Files in Use".toList⟩, ⟨.right, Nat.toDigits 10 r.used.length⟩],
  .row [⟨.left, "Unused Files".toList⟩, ⟨.right, Nat.toDigits 10 r.unused.length⟩],
  .row [⟨.left, "Elapsed".toList⟩, ⟨.right, r.elapsed.text⟩],
  .border .bottom]

/-- No text is wider than its column, so the spaces beside it can be counted. -/
structure Fits (r : Report) : Prop where
  headers : ∀ column ∈ columns, column.header.toList.length ≤ column.width r.numbered
  cells : ∀ column ∈ columns, ∀ entry ∈ r.numbered,
    (column.cell entry.1 entry.2).length ≤ column.width r.numbered
  labels : ∀ m ∈ r.metrics,
    m.label.toList.length ≤ Terminal.widest (r.metrics.map fun m => m.label.toList)
  values : ∀ m ∈ r.metrics, m.value.length ≤ Terminal.widest (r.metrics.map Metric.value)

theorem fits (r : Report) : r.Fits where
  headers _ _ := Terminal.length_le_widest List.mem_cons_self
  cells _ _ entry hentry :=
    Terminal.length_le_widest (List.mem_cons_of_mem _ (List.mem_map.2 ⟨entry, hentry, rfl⟩))
  labels m hm := Terminal.length_le_widest (List.mem_map.2 ⟨m, hm, rfl⟩)
  values m hm := Terminal.length_le_widest (List.mem_map.2 ⟨m, hm, rfl⟩)

/-! ## The tables

A strip and a line are compared one at a time, so a table is compared by the parts that it
is put together from: borders, and one row for each entry. -/

theorem isTable_map {α : Type} {widths : List Nat} {items : List α} {strip : α → Strip}
    {line : α → List Char} (h : ∀ a ∈ items, (strip a).Shows widths (line a)) :
    IsTable widths (items.map strip) (items.map line) := by
  rw [IsTable, List.forall₂_map_left_iff, List.forall₂_map_right_iff, List.forall₂_same]
  exact h

/-- A row of the table of unused files holds what its columns say, in any style. -/
theorem isRow_columns (r : Report) (cell : Column → List Char) (style : Column → Terminal.Style)
    (hfits : ∀ column ∈ columns, (cell column).length ≤ column.width r.numbered) :
    Terminal.IsRow r.columnWidths (columns.map fun column => ⟨column.align, cell column⟩)
      (Line.write false (row (columns.map fun column =>
        [⟨style column, pad column.align (column.width r.numbered) (cell column)⟩]))) := by
  refine Terminal.isRow_row columns _ _ _ (fun column _ => ?_) hfits
  rw [Line.write_false, List.flatMap_singleton]

theorem map_numbered {α : Type} (r : Report) (f : Nat × UnusedFile → α) :
    r.numbered.map f = r.unused.zipIdx.map fun (file, index) => f (index + 1, file) := by
  rw [numbered, List.map_map]
  rfl

theorem isTable_unusedTable (r : Report) :
    IsTable r.columnWidths r.unusedStrips (r.unusedTable.map (Line.write false)) := by
  have hne : r.columnWidths ≠ [] := nofun
  have hborder := fun joints => Terminal.isBorder_border joints hne
  have hheaders := isRow_columns r (fun column => column.header.toList) (fun _ => .bold)
    r.fits.headers
  rw [unusedTable_eq, unusedStrips, List.map_append, List.map_append, List.map_map, map_numbered]
  refine List.rel_append (List.rel_append ?_ (isTable_map ?_)) ?_
  · exact .cons (hborder .top) (.cons hheaders (.cons (hborder .inner) .nil))
  · rintro ⟨file, index⟩ hentry
    refine isRow_columns r (fun column => column.cell (index + 1) file) Column.style
      fun column hcolumn => ?_
    exact r.fits.cells column hcolumn _ (List.mem_map.2 ⟨_, hentry, rfl⟩)
  · exact .cons (hborder .bottom) .nil

theorem summaryStrips_eq (r : Report) :
    r.summaryStrips = [.border .top]
      ++ r.metrics.map (fun m => .row [⟨.left, m.label.toList⟩, ⟨.right, m.value⟩])
      ++ [.border .bottom] := rfl

/-- A row of the table of counts. The spaces before the value are a span of their own there, since
they are in no colour. -/
theorem isRow_metric (m : Metric) {labelWidth valueWidth : Nat}
    (hlabel : m.label.toList.length ≤ labelWidth) (hvalue : m.value.length ≤ valueWidth) :
    Terminal.IsRow [labelWidth, valueWidth] [⟨.left, m.label.toList⟩, ⟨.right, m.value⟩]
      (Line.write false (row [
        [⟨.colour .white, pad .left labelWidth m.label.toList⟩],
        [⟨.plain, Terminal.blanks (valueWidth - m.value.length)⟩, ⟨m.style, m.value⟩]])) := by
  refine Terminal.isRow_row
    [(⟨.left, m.label.toList⟩, labelWidth, [⟨.colour .white, pad .left labelWidth m.label.toList⟩]),
      (⟨.right, m.value⟩, valueWidth,
        [⟨.plain, Terminal.blanks (valueWidth - m.value.length)⟩, ⟨m.style, m.value⟩])]
    (fun column => column.1) (fun column => column.2.1) (fun column => column.2.2) ?_ ?_
  · rw [List.forall_mem_cons, List.forall_mem_singleton]
    refine ⟨List.append_nil _, ?_⟩
    rw [Line.write_false, List.flatMap_cons, List.flatMap_singleton]
    rfl
  · rw [List.forall_mem_cons, List.forall_mem_singleton]
    exact ⟨hlabel, hvalue⟩

theorem isTable_summaryTable (r : Report) :
    ∃ labelWidth valueWidth, IsTable [labelWidth, valueWidth] r.summaryStrips
      (r.summaryTable.map (Line.write false)) := by
  refine ⟨Terminal.widest (r.metrics.map fun m => m.label.toList),
    Terminal.widest (r.metrics.map Metric.value), ?_⟩
  have hne : [Terminal.widest (r.metrics.map fun m => m.label.toList),
      Terminal.widest (r.metrics.map Metric.value)] ≠ [] := nofun
  have hborder := fun joints => Terminal.isBorder_border joints hne
  rw [summaryTable, summaryStrips_eq, List.map_append, List.map_append, List.map_map]
  refine List.rel_append (List.rel_append ?_ (isTable_map fun m hm => ?_)) ?_
  · exact .cons (hborder .top) .nil
  · exact isRow_metric m (r.fits.labels m hm) (r.fits.values m hm)
  · exact .cons (hborder .bottom) .nil

/-! ## The whole report

The sections are written without colours, and each comes out as the lines that are stated
for it. A section that is not shown has no lines. -/

/-- What is said of unused files: a headline and their table, or that there are none. -/
def unusedLines (r : Report) (table : List (List Char)) : List (List Char) :=
  if r.unused = [] then ["✨ No unused files found! Your codebase is clean.".toList, []]
  else [headline r.unused.length, []] ++ table

/-- The files in use, if they are asked for and there are any. -/
def usedLines (r : Report) (showUsed : Bool) : List (List Char) :=
  if showUsed = true ∧ r.used ≠ [] then
    [[], "Files in use:".toList] ++ r.used.map fun p => "  ✓ ".toList ++ p.display.toList
  else []

/-- The tip on unused files, if there are any. -/
def tipLines (r : Report) : List (List Char) :=
  if r.unused = [] then []
  else [[],
    "💡 Tip: Review these files before deleting to ensure they're truly unused.".toList]

theorem hasUnused_iff {r : Report} : r.hasUnused = true ↔ ¬ r.unused = [] := by
  rw [hasUnused, Bool.not_eq_true', List.isEmpty_eq_false_iff]

theorem map_unusedSection (r : Report) :
    r.unusedSection.map (Line.write false)
      = r.unusedLines (r.unusedTable.map (Line.write false)) := by
  simp only [unusedSection, unusedLines, hasUnused_iff, ite_not]
  split
  · rw [List.map_cons, Terminal.write_styled]
    rfl
  · rw [List.map_append, List.map_cons, Terminal.write_styled, toList_headline]
    rfl

theorem write_usedLine (p : Path) :
    Line.write false [plain "  ", styled (.colour .green) "✓", plain (" " ++ p.display)]
      = "  ✓ ".toList ++ p.display.toList := by
  have hpath : (plain (" " ++ p.display)).text = ' ' :: p.display.toList := String.toList_append
  simp only [Line.write_false, List.flatMap_cons, List.flatMap_nil, List.append_nil, hpath]
  rfl

theorem map_usedSection (r : Report) (showUsed : Bool) :
    (if showUsed then r.usedSection else []).map (Line.write false) = r.usedLines showUsed := by
  rw [usedLines]
  cases showUsed with
  | false => rfl
  | true =>
    simp only [if_true, true_and, usedSection, List.isEmpty_iff, ne_eq, ite_not]
    split
    · rfl
    · rw [List.map_append, List.map_map, List.map_cons, List.map_singleton, Terminal.write_styled]
      exact congrArg _ (List.map_congr_left fun p _ => write_usedLine p)

theorem map_tipSection (r : Report) : r.tipSection.map (Line.write false) = r.tipLines := by
  simp only [tipSection, tipLines, hasUnused_iff, ite_not]
  split
  · rfl
  · rw [List.map_cons, List.map_singleton, Terminal.write_styled]
    rfl

theorem splitOn_toTerminal {r : Report} (h : r.Lacks '\n') (showUsed : Bool) :
    (r.toTerminal false showUsed).toList.splitOn '\n'
      = [[], "📋 Results:".toList, []] ++ r.unusedLines (r.unusedTable.map (Line.write false))
        ++ r.usedLines showUsed
        ++ [[], "📈 Summary:".toList, []] ++ r.summaryTable.map (Line.write false)
        ++ r.tipLines ++ [[]] := by
  rw [toTerminal, String.toList_ofList,
    Terminal.splitOn_writeLines (h.terminalLines (by decide) showUsed), terminalLines]
  simp only [List.map_append, List.map_cons, List.map_nil, map_unusedSection, map_usedSection,
    map_tipSection, Terminal.write_styled]
  rfl

/-- **The tables of a report are aligned and complete.** Where no name has a line end, the lines of
the report are these; both tables have all their rows, in lines of one length and with the bars at
the same places, and no value is wider than its column. -/
theorem tables_aligned {r : Report} (h : r.Lacks '\n') (showUsed : Bool) :
    (∃ table summary,
      -- The lines of the text; the last line end has nothing behind it.
      (r.toTerminal false showUsed).toList.splitOn '\n'
        = [[], "📋 Results:".toList, []] ++ r.unusedLines table ++ r.usedLines showUsed
          ++ [[], "📈 Summary:".toList, []] ++ summary ++ r.tipLines ++ [[]] ∧
      -- The two tables, by the widths of their columns.
      (∃ number file token extension,
        IsTable [number, file, token, extension] r.unusedStrips table ∧
        table.length = r.unused.length + 4 ∧
        ∀ line ∈ table, line.length = number + file + token + extension + 13) ∧
      ∃ label value,
        IsTable [label, value] r.summaryStrips summary ∧
        summary.length = 7 ∧
        ∀ line ∈ summary, line.length = label + value + 7) ∧
    r.Fits := by
  obtain ⟨label, value, hsummary⟩ := r.isTable_summaryTable
  -- The table of unused files can be made for each report; `unusedLines` says when it is shown.
  have hunused := r.isTable_unusedTable
  refine ⟨⟨_, _, splitOn_toTerminal h showUsed, ?_, label, value, hsummary, ?_, ?_⟩, r.fits⟩
  · refine ⟨_, _, _, _, hunused, ?_, ?_⟩
    -- Four lines are no rows of files: three borders and the headers.
    · rw [← hunused.length_eq, unusedStrips]
      simp
    · intro line hline
      rw [hunused.length_of_mem line hline]
      simp [columnWidths, columns, barAt]
      omega
  · rw [← hsummary.length_eq]
    rfl
  · intro line hline
    rw [hsummary.length_of_mem line hline]
    simp [barAt]
    omega

/-- A name beyond ASCII, and one that is no text. -/
theorem tables_aligned_accent :
    ∃ table number file token extension,
      IsTable [number, file, token, extension]
        (Report.mk 4 3 [Path.ofString "App.ts"]
          [⟨Path.ofString "src/é.ts", "é", ".ts"⟩, ⟨⟨[0x61, 0xFF, 0x2E, 0x6A, 0x73]⟩, "a", ".js"⟩]
          ⟨0, 420000000⟩).unusedStrips table ∧
      table.length = 6 := by
  have hlacks : (Report.mk 4 3 [Path.ofString "App.ts"]
      [⟨Path.ofString "src/é.ts", "é", ".ts"⟩, ⟨⟨[0x61, 0xFF, 0x2E, 0x6A, 0x73]⟩, "a", ".js"⟩]
      ⟨0, 420000000⟩).Lacks '\n' :=
    ⟨by decide, by decide, by decide, by decide⟩
  obtain ⟨⟨table, summary, -, ⟨number, file, token, extension, htable, hlength, -⟩, -⟩, -⟩ :=
    tables_aligned hlacks true
  exact ⟨table, number, file, token, extension, htable, hlength⟩

end Report

end Unimported
