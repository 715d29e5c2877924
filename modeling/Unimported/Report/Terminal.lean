/-
Reports for terminals: a table of the unused files, and a table with the counts.
-/
import Unimported.Report.Json
import Unimported.Terminal.Table

set_option autoImplicit false

namespace Unimported

open Terminal (Line plain styled pad row border)

/-- The digits of a count. -/
def countText (n : Nat) : List Char := Nat.toDigits 10 n

/-- The time in seconds with two digits behind the point. -/
def Duration.text (d : Duration) : List Char := d.toDouble.writeHundredths ++ ['s']

namespace Report

/-! ## Unused files -/

/-- A column of the table of unused files. -/
structure Column where
  header : String
  align : Terminal.Align
  style : Terminal.Style
  /-- The cell for a file and its number. -/
  cell : Nat → UnusedFile → List Char

/-- The columns of the table of unused files. -/
def columns : List Column := [
  ⟨"#", .right, .dim, fun number _ => countText number⟩,
  ⟨"File Path", .left, .colour .yellow, fun _ file => file.path.display.toList⟩,
  ⟨"Component", .left, .colour .cyan, fun _ file => file.token.toList⟩,
  ⟨"Type", .left, .colour .magenta, fun _ file => file.extension.toList⟩]

/-- The unused files with their numbers, counted from one. -/
def numbered (r : Report) : List (Nat × UnusedFile) :=
  r.unused.zipIdx.map fun (file, index) => (index + 1, file)

/-- The width of a column. -/
def Column.width (c : Column) (files : List (Nat × UnusedFile)) : Nat :=
  Terminal.widest (c.header.toList :: files.map fun (number, file) => c.cell number file)

/-- The table of unused files. -/
def unusedTable (r : Report) : List Line :=
  let files := r.numbered
  let widths := columns.map fun c => c.width files
  let headers := columns.zipWith (fun c width => [⟨.bold, pad c.align width c.header.toList⟩]) widths
  let cells (number : Nat) (file : UnusedFile) : List Line :=
    columns.zipWith (fun c width => [⟨c.style, pad c.align width (c.cell number file)⟩]) widths
  [border .top widths, row headers, border .inner widths]
    ++ files.map (fun (number, file) => row (cells number file))
    ++ [border .bottom widths]

/-! ## Counts -/

/-- A line of the table of counts. -/
structure Metric where
  label : String
  style : Terminal.Style
  value : List Char

/-- The lines of the table of counts. -/
def metrics (r : Report) : List Metric := [
  ⟨"Total Files Scanned", .colour .blue, countText r.totalScanned⟩,
  ⟨"Files with Exports", .colour .blue, countText r.exportingCount⟩,
  ⟨"Files in Use", .colour .green, countText r.used.length⟩,
  ⟨"Unused Files", .colour (if r.hasUnused then .red else .green), countText r.unused.length⟩,
  ⟨"Elapsed", .plain, r.elapsed.text⟩]

/-- The table of counts. -/
def summaryTable (r : Report) : List Line :=
  let labelWidth := Terminal.widest (r.metrics.map fun m => m.label.toList)
  let valueWidth := Terminal.widest (r.metrics.map Metric.value)
  let cells (m : Metric) : List Line := [
    [⟨.colour .white, pad .left labelWidth m.label.toList⟩],
    [⟨.plain, Terminal.blanks (valueWidth - m.value.length)⟩, ⟨m.style, m.value⟩]]
  [border .top [labelWidth, valueWidth]]
    ++ r.metrics.map (fun m => row (cells m))
    ++ [border .bottom [labelWidth, valueWidth]]

/-! ## The whole report -/

/-- The headline, and the table of unused files if there are any. -/
def unusedSection (r : Report) : List Line :=
  if r.hasUnused then
    [[styled (.colour .red)
        ("⚠️  Found " ++ toString r.unused.length ++ " unused file(s):")], []]
      ++ r.unusedTable
  else [[styled (.colour .green) "✨ No unused files found! Your codebase is clean."], []]

/-- The list of files in use, unless there are none. -/
def usedSection (r : Report) : List Line :=
  if r.used.isEmpty then []
  else [[], [styled (.boldColour .green) "Files in use:"]]
    ++ r.used.map fun p =>
      [plain "  ", styled (.colour .green) "✓", plain (" " ++ p.display)]

/-- What to do with unused files, if there are any. -/
def tipSection (r : Report) : List Line :=
  if r.hasUnused then
    [[], [styled (.colour .yellow)
      "💡 Tip: Review these files before deleting to ensure they're truly unused."]]
  else []

/-- The lines of the report; files in use are listed only if asked for. -/
def terminalLines (showUsed : Bool) (r : Report) : List Line :=
  [[], [styled (.boldColour .cyan) "📋 Results:"], []]
    ++ r.unusedSection
    ++ (if showUsed then r.usedSection else [])
    ++ [[], [styled (.boldColour .cyan) "📈 Summary:"], []]
    ++ r.summaryTable
    ++ r.tipSection

/-- The report as it is printed. -/
def toTerminal (coloured showUsed : Bool) (r : Report) : String :=
  String.ofList (Terminal.writeLines coloured (r.terminalLines showUsed))

end Report

end Unimported
