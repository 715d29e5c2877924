/-
Runs: what the program does with its options and a disk.

A run loads the settings, scans the project, and writes the report. It is prepared first, up to
the scan, and concluded when it is known how long that took. Only writing the document to a file
changes the disk, and that happens last.

The names on a disk are not all that a run depends on: a file of the project may be one that must
not be read, and exclude patterns may need more room than there is. Both are surroundings, in which
any run can take place; without mention of them there is room, and what is on the disk can be read.
-/
import Unimported.CommandLine.Arguments
import Unimported.CommandLine.Help
import Unimported.Report.Terminal
import Unimported.Scan.Project
import Unimported.Settings.Load
import Unimported.Settings.Summary

set_option autoImplicit false

namespace Unimported.CommandLine

open Terminal (plain styled)

/-- Why a run fails. -/
inductive Failure where
  /-- The settings cannot be loaded. -/
  | settings (e : Settings.LoadError)
  /-- There is no output format with this name. -/
  | unknownFormat (name : String)
  /-- The files cannot be found. -/
  | discovery (e : DiscoveryError)
  /-- The document cannot be written to its file. -/
  | unwritable (p : Path) (cause : Trouble)
deriving DecidableEq, Repr

/-- What went wrong, in words that are yet to be laid out in lines. -/
def Failure.message : Failure → String
  | .settings e => e.message
  | .unknownFormat name => "Unknown report format: " ++ name
  | .discovery e => e.message
  | .unwritable p _ => "Failed to write report: " ++ p.display

/-! ## Up to the scan -/

/-- What is known once the project has been scanned. -/
structure Scanned where
  settings : Settings
  format : Report.Format
  /-- What the observer was told. -/
  events : List Scan.Event
  outcome : Except DiscoveryError Report

/-- A run before its report is written. -/
structure Prepared where
  options : Options
  disk : Disk
  log : List Log.Line
  scanned : Except Failure Scanned

/-- The settings of a run, from the file that the options name or from a default one. -/
def loadSettings (o : Options) (d : Disk) : Except Settings.LoadError Settings :=
  (match o.config with
    | some p => Settings.fromFile d p
    | none => Settings.fromDefaultFiles d o.root).map o.override

/-- The first line of the log. -/
def startLine : Log.Line := Log.info (programName ++ " v" ++ programVersion)

/-- The line about the settings of the run. -/
def settingsLine (s : Settings) : Log.Line := Log.debug ("Effective config: " ++ s.summary)

/-- What a run depends on beside the names on its disk. -/
structure Surroundings where
  /-- The room for the exclude patterns. -/
  room : Glob.Room
  /-- The texts of the files of the project, or why they cannot be read. -/
  texts : Path → Except String String

/-- There is room for exclude patterns, and what is on the disk can be read. -/
def Surroundings.ofDisk (d : Disk) : Surroundings :=
  ⟨.unbounded, fun p => (d.readLossy p).mapError Trouble.message⟩

/-- Loads the settings and scans the project, in given surroundings. -/
def Surroundings.prepare (around : Surroundings) (o : Options) (d : Disk) : Prepared :=
  match loadSettings o d with
  | .error e => ⟨o, d, [startLine], .error (.settings e)⟩
  | .ok s =>
    match Report.Format.ofName? s.report.format with
    | none => ⟨o, d, [startLine, settingsLine s], .error (.unknownFormat s.report.format)⟩
    | some format =>
      let (outcome, journal) := Scan.projectIn around.room (.fixed around.texts) d s o.root
        (.ofNanos 0) Scan.Journal.empty
      ⟨o, d, [startLine, settingsLine s] ++ journal.lines,
        .ok ⟨s, format, journal.trace, outcome⟩⟩

/-- Loads the settings and scans the project. -/
def prepare (o : Options) (d : Disk) : Prepared := (Surroundings.ofDisk d).prepare o d

/-! ## What is shown -/

/-- Whether there is more to show than the report: for readers who have not asked for quiet. -/
def isInteractive (o : Options) (format : Report.Format) : Bool :=
  format == .terminal && !o.quiet

/-- What is shown before the scan. -/
def banner (o : Options) : List Terminal.Line := [
  [styled (.boldColour .cyan) "\n🔍 Unused File Detector\n"],
  [styled .dim ("Scanning directory: " ++ o.root.display ++ "\n")]]

/-- What is shown of the progress of the scan. -/
def progressLines : Scan.Event → List Terminal.Line
  | .started .crossReference _ =>
    [[], [styled (.boldColour .yellow) "📊 Analyzing imports..."], []]
  | .finished .discover n =>
    [[styled (.colour .green) ("✔ Found " ++ toString n ++ " files to analyze")]]
  | .finished .classify n =>
    [[styled (.colour .green) ("✔ Found " ++ toString n ++ " files with exports")]]
  | .finished .crossReference _ => [[styled (.colour .green) "✔ Analysis complete!"]]
  | _ => []

/-- The last line of the log. -/
def finishLine (r : Report) : Log.Line :=
  Log.info ("Scan finished in " ++ String.ofList r.elapsed.text ++ ": "
    ++ toString r.unused.length ++ " unused of " ++ toString r.exportingCount
    ++ " exporting files")

/-! ## The log -/

/-- The characters by which a terminal can be steered, with two digits for each. -/
def steering : List (Char × String) :=
  [('\x07', "07"), ('\x08', "08"), ('\x0c', "0c"), ('\x1b', "1b"), ('\x7f', "7f")]

/-- A character of the log. One that could steer the terminal is written as its number. -/
def logChar (c : Char) : List Char :=
  match steering.lookup c with
  | some digits => '\\' :: 'x' :: digits.toList
  | none => if 0x80 ≤ c.toNat ∧ c.toNat ≤ 0x9F then Text.numbered c else [c]

/-- A line of the log as the reader sees it. -/
def logText (l : Log.Line) : String :=
  l.level.toString ++ " " ++ String.ofList (l.message.toList.flatMap logChar)

/-! ## The report -/

/-- What a run comes to. -/
structure Outcome where
  /-- The text on the standard output. -/
  output : String
  /-- The lines for the reader beside it. -/
  notices : List Terminal.Line
  /-- The lines of the log. -/
  log : List Log.Line
  failure : Option Failure
  /-- The disk after the run. -/
  disk : Disk

/-- The exit code of a run. -/
def Outcome.code (r : Outcome) : Nat := if r.failure.isSome then 1 else 0

/-- The outcome of a run that fails. -/
def Outcome.failed (o : Outcome) (f : Failure) : Outcome := { o with failure := some f }

/-- Writes the report. -/
def writeReport (coloured : Bool) (o : Options) (s : Scanned) (r : Report) (before : Outcome) :
    Outcome :=
  match s.format with
  | .terminal =>
    { before with output := before.output ++ r.toTerminal coloured s.settings.report.showUsed }
  | .json =>
    match o.output with
    | none => { before with output := before.output ++ r.toJson ++ "\n" }
    | some p =>
      match before.disk.write p (Text.Utf8.ofString r.toJson) with
      | .error cause => before.failed (.unwritable p cause)
      | .ok disk =>
        { before with
          notices := before.notices ++ [[plain ("Report written to: " ++ p.display)]]
          disk := disk }

/-- Writes the report of a scan that took so long. -/
def conclude (coloured : Bool) (elapsed : Duration) (p : Prepared) : Outcome :=
  let start : Outcome := ⟨"", [], p.log, none, p.disk⟩
  match p.scanned with
  | .error f => start.failed f
  | .ok s =>
    let before : Outcome :=
      if isInteractive p.options s.format then
        { start with
          output := String.ofList (Terminal.writeLines coloured (banner p.options))
          notices := if p.options.noProgress then [] else s.events.flatMap progressLines }
      else start
    match s.outcome with
    | .error e => before.failed (.discovery e)
    | .ok r =>
      let r := { r with elapsed := elapsed }
      writeReport coloured p.options s r { before with log := before.log ++ [finishLine r] }

/-- Runs the program on a disk, in given surroundings, with a scan that takes so long. -/
def Surroundings.run (around : Surroundings) (coloured : Bool) (d : Disk) (elapsed : Duration)
    (o : Options) : Outcome :=
  conclude coloured elapsed (around.prepare o d)

/-- Runs the program on a disk, with a scan that takes so long. -/
def run (coloured : Bool) (d : Disk) (elapsed : Duration) (o : Options) : Outcome :=
  (Surroundings.ofDisk d).run coloured d elapsed o

end Unimported.CommandLine
