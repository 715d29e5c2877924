/-
The stages of a run.

A run loads its settings, looks up the output format, finds the files, and writes the report on
them. It ends at the first stage that fails. For each way in which a run can end there is a lemma
about what it leaves: whether and why it failed, what it has printed, and the disk.
-/
import Unimported.CommandLine.Run
import Unimported.Proofs.Disk.Write
import Unimported.Proofs.Scan.Once

set_option autoImplicit false

namespace Unimported.CommandLine

open Scan (reportOn)

variable {o : Options} {d : Disk} {s : Settings}

/-! ## Settings

`Loads` and `LoadFails` say what loading comes to, with one rule for each way in which it
can go. Exactly one of them holds, and `loadSettings` gives what it says. -/

/-- The settings file of a run: the one that the options name, or else the first one with a default
name. -/
def chosenFile? (o : Options) (d : Disk) : Option Path :=
  o.config.or (Settings.defaultFile? d o.root)

/-- The settings that a run starts from: those of its settings file, or the defaults without one. -/
inductive Offers (o : Options) (d : Disk) : Settings → Prop
  | chosen {p : Path} {text : String} {overlay : Settings.Overlay} :
      chosenFile? o d = some p → d.readText p = .ok text →
      Settings.readAs (Settings.FileForm.ofPath p) p text.toList = .ok overlay →
      Offers o d (overlay.apply Settings.default)
  | default : chosenFile? o d = none → Offers o d Settings.default

/-- The settings of a run: those that it starts from, with the options before them. -/
inductive Loads (o : Options) (d : Disk) : Settings → Prop
  | intro {base : Settings} : Offers o d base → Loads o d (o.override base)

/-- The settings cannot be loaded: the chosen file cannot be read, or is no settings file. -/
inductive LoadFails (o : Options) (d : Disk) : Settings.LoadError → Prop
  | unreadable {p : Path} {cause : Trouble} :
      chosenFile? o d = some p → d.readText p = .error cause → LoadFails o d (.unreadable p cause)
  | unparsable {p : Path} {text : String} {e : Settings.LoadError} :
      chosenFile? o d = some p → d.readText p = .ok text →
      Settings.readAs (Settings.FileForm.ofPath p) p text.toList = .error e → LoadFails o d e

theorem loadSettings_eq :
    loadSettings o d = (match chosenFile? o d with
      | some p => Settings.fromFile d p
      | none => .ok Settings.default).map o.override := by
  rw [loadSettings, chosenFile?, Settings.fromDefaultFiles]
  cases o.config with
  | some p => rfl
  | none => rfl

theorem loadSettings_of_loads (h : Loads o d s) : loadSettings o d = .ok s := by
  rw [loadSettings_eq]
  obtain ⟨hoffers⟩ := h
  cases hoffers with
  | chosen hfile hread hparse =>
    rw [hfile]
    dsimp only
    rw [Settings.fromFile, hread]
    dsimp only
    rw [hparse]
    rfl
  | default hfile =>
    rw [hfile]
    rfl

theorem loadSettings_of_loadFails {e : Settings.LoadError} (h : LoadFails o d e) :
    loadSettings o d = .error e := by
  rw [loadSettings_eq]
  cases h with
  | unreadable hfile hread =>
    rw [hfile]
    dsimp only
    rw [Settings.fromFile, hread]
    rfl
  | unparsable hfile hread hparse =>
    rw [hfile]
    dsimp only
    rw [Settings.fromFile, hread]
    dsimp only
    rw [hparse]
    rfl

theorem Loads.unique {s' : Settings} (h : Loads o d s) (h' : Loads o d s') : s = s' :=
  Except.ok.inj ((loadSettings_of_loads h).symm.trans (loadSettings_of_loads h'))

/-- Settings are loaded, or they cannot be. -/
theorem loads_or_loadFails (o : Options) (d : Disk) :
    (∃ s, Loads o d s) ∨ ∃ e, LoadFails o d e := by
  cases hfile : chosenFile? o d with
  | none => exact .inl ⟨_, .intro (.default hfile)⟩
  | some p =>
    cases hread : d.readText p with
    | error cause => exact .inr ⟨_, .unreadable hfile hread⟩
    | ok text =>
      cases hparse : Settings.readAs (Settings.FileForm.ofPath p) p text.toList with
      | error e => exact .inr ⟨e, .unparsable hfile hread hparse⟩
      | ok overlay => exact .inl ⟨_, .intro (.chosen hfile hread hparse)⟩

/-! ## What is left

One lemma for each way in which a run can end, from the first stage on. The later stages
start from what `run_of_files` says, so the scan is gone through once. -/

/-- What a run leaves. -/
structure Leaves (r : Outcome) (failure : Option Failure) (output : String) (disk : Disk) :
    Prop where
  failure : r.failure = failure
  output : r.output = output
  disk : r.disk = disk

theorem Leaves.code_ne_one {r : Outcome} {output : String} (h : Leaves r none output d) :
    r.code ≠ 1 := by
  rw [Outcome.code, h.failure]
  exact Nat.zero_ne_one

theorem Leaves.code_ne_zero {r : Outcome} {f : Failure} {output : String}
    (h : Leaves r (some f) output d) : r.code ≠ 0 := by
  rw [Outcome.code, h.failure]
  exact Nat.one_ne_zero

/-- What is printed before the scan. -/
def heading (coloured : Bool) (o : Options) (format : Report.Format) : String :=
  if isInteractive o format then String.ofList (Terminal.writeLines coloured (banner o)) else ""

theorem heading_json (coloured : Bool) : heading coloured o .json = "" := rfl

section Ends

variable (around : Surroundings) (coloured : Bool) (elapsed : Duration) {format : Report.Format}

theorem run_of_loadFails {e : Settings.LoadError} (h : LoadFails o d e) :
    Leaves (around.run coloured d elapsed o) (some (.settings e)) "" d := by
  rw [Surroundings.run, Surroundings.prepare, loadSettings_of_loadFails h]
  exact ⟨rfl, rfl, rfl⟩

theorem run_of_unknownFormat (h : Loads o d s)
    (hformat : Report.Format.ofName? s.report.format = none) :
    Leaves (around.run coloured d elapsed o) (some (.unknownFormat s.report.format)) "" d := by
  rw [Surroundings.run, Surroundings.prepare, loadSettings_of_loads h]
  dsimp only
  rw [hformat]
  exact ⟨rfl, rfl, rfl⟩

/-- Up to the scan. -/
theorem prepare_of_loads (h : Loads o d s)
    (hformat : Report.Format.ofName? s.report.format = some format) :
    ∃ log events, around.prepare o d = ⟨o, d, log, .ok ⟨s, format, events,
      (Discovery.findIn around.room d s o.root).files.map
        (reportOn around.texts (.ofNanos 0))⟩⟩ := by
  have houtcome := Scan.projectIn_outcome around.room around.texts d s o.root (.ofNanos 0)
    Scan.Journal.empty
  rw [Surroundings.prepare, loadSettings_of_loads h]
  dsimp only
  rw [hformat]
  dsimp only
  -- of the scan only its outcome matters from here on
  generalize Scan.projectIn around.room (.fixed around.texts) d s o.root (.ofNanos 0)
    Scan.Journal.empty = scanned at houtcome
  obtain ⟨outcome, journal⟩ := scanned
  obtain rfl := houtcome
  exact ⟨_, _, rfl⟩

theorem run_of_discovery (h : Loads o d s)
    (hformat : Report.Format.ofName? s.report.format = some format) {e : DiscoveryError}
    (hfind : (Discovery.findIn around.room d s o.root).files = .error e) :
    Leaves (around.run coloured d elapsed o) (some (.discovery e))
      (heading coloured o format) d := by
  obtain ⟨log, events, hprepare⟩ := prepare_of_loads around h hformat
  rw [Surroundings.run, hprepare, hfind, conclude, heading]
  dsimp only [Except.map]
  cases isInteractive o format <;> exact ⟨rfl, rfl, rfl⟩

/-- The report is written with the time that the scan took. -/
theorem run_of_files (h : Loads o d s)
    (hformat : Report.Format.ofName? s.report.format = some format) {files : List Source.File}
    (hfind : (Discovery.findIn around.room d s o.root).files = .ok files) :
    ∃ scanned before, scanned.settings = s ∧ scanned.format = format ∧
      Leaves before none (heading coloured o format) d ∧
      around.run coloured d elapsed o
        = writeReport coloured o scanned (reportOn around.texts elapsed files) before := by
  obtain ⟨log, events, hprepare⟩ := prepare_of_loads around h hformat
  rw [Surroundings.run, hprepare, hfind, conclude, heading]
  dsimp only [Except.map]
  cases isInteractive o format <;> exact ⟨_, _, rfl, rfl, ⟨rfl, rfl, rfl⟩, rfl⟩

theorem run_terminal (h : Loads o d s)
    (hformat : Report.Format.ofName? s.report.format = some .terminal) {files : List Source.File}
    (hfind : (Discovery.findIn around.room d s o.root).files = .ok files) :
    Leaves (around.run coloured d elapsed o) none
      (heading coloured o .terminal
        ++ (reportOn around.texts elapsed files).toTerminal coloured s.report.showUsed) d := by
  obtain ⟨scanned, before, hsettings, hterminal, hbefore, hrun⟩ :=
    run_of_files around coloured elapsed h hformat hfind
  rw [hrun, writeReport, hterminal, hsettings]
  exact ⟨hbefore.failure, congrArg (· ++ _) hbefore.output, hbefore.disk⟩

theorem run_json (h : Loads o d s)
    (hformat : Report.Format.ofName? s.report.format = some .json) {files : List Source.File}
    (hfind : (Discovery.findIn around.room d s o.root).files = .ok files)
    (houtput : o.output = none) :
    Leaves (around.run coloured d elapsed o) none
      ((reportOn around.texts elapsed files).toJson ++ "\n") d := by
  obtain ⟨scanned, before, hsettings, hjson, hbefore, hrun⟩ :=
    run_of_files around coloured elapsed h hformat hfind
  rw [hrun, writeReport, hjson, houtput]
  refine ⟨hbefore.failure, ?_, hbefore.disk⟩
  dsimp only
  rw [hbefore.output, heading_json, String.empty_append]

theorem run_json_file (h : Loads o d s)
    (hformat : Report.Format.ofName? s.report.format = some .json) {files : List Source.File}
    (hfind : (Discovery.findIn around.room d s o.root).files = .ok files) {p : Path}
    (houtput : o.output = some p) {d' : Disk} (hwrite : d.write p
      (Text.Utf8.ofString (reportOn around.texts elapsed files).toJson) = .ok d') :
    Leaves (around.run coloured d elapsed o) none "" d' := by
  obtain ⟨scanned, before, hsettings, hjson, hbefore, hrun⟩ :=
    run_of_files around coloured elapsed h hformat hfind
  rw [hrun, writeReport, hjson, houtput]
  dsimp only
  rw [hbefore.disk, hwrite]
  exact ⟨hbefore.failure, hbefore.output, rfl⟩

theorem run_unwritable (h : Loads o d s)
    (hformat : Report.Format.ofName? s.report.format = some .json) {files : List Source.File}
    (hfind : (Discovery.findIn around.room d s o.root).files = .ok files) {p : Path}
    (houtput : o.output = some p) {cause : Trouble} (hwrite : d.Unwritable p cause) :
    Leaves (around.run coloured d elapsed o) (some (.unwritable p cause)) "" d := by
  obtain ⟨scanned, before, hsettings, hjson, hbefore, hrun⟩ :=
    run_of_files around coloured elapsed h hformat hfind
  rw [hrun, writeReport, hjson, houtput]
  dsimp only
  rw [hbefore.disk, Disk.write_of_unwritable hwrite]
  exact ⟨rfl, hbefore.output, hbefore.disk⟩

end Ends

end Unimported.CommandLine
