/-
Tuning: options that change no result.

How many files are read together, whether they are checked at the same time, and what is shown
beside the report does not matter to the result. Two runs that differ in nothing else load settings
by which the same files are found (`SameTask.loads`), so they fail for the same reason or report on
the same files, and the report does not depend on how it was made. `tuning_keeps_results` is the
main result.
-/
import Unimported.Proofs.CommandLine.Outcome
import Unimported.Proofs.Report.Elapsed

set_option autoImplicit false

namespace Unimported

/-- The settings agree in what is looked for and in how it is reported. They may differ in the batch
size, in whether files are checked at the same time, and in whether files in use are listed. -/
structure Settings.SameSearch (s₁ s₂ : Settings) : Prop where
  targets : s₁.targets = s₂.targets
  extensions : s₁.extensions = s₂.extensions
  exclude : s₁.exclude = s₂.exclude
  respectIgnoreFiles : s₁.respectIgnoreFiles = s₂.respectIgnoreFiles
  format : s₁.report.format = s₂.report.format

namespace Settings.SameSearch

variable {s₁ s₂ : Settings}

theorem refl (s : Settings) : s.SameSearch s := ⟨rfl, rfl, rfl, rfl, rfl⟩

theorem symm (h : s₁.SameSearch s₂) : s₂.SameSearch s₁ :=
  ⟨h.targets.symm, h.extensions.symm, h.exclude.symm, h.respectIgnoreFiles.symm, h.format.symm⟩

/-- The search does not look at the settings that may differ. -/
theorem find_eq (h : s₁.SameSearch s₂) (d : Disk) (root : Path) :
    Discovery.find d s₁ root = Discovery.find d s₂ root := by
  obtain ⟨targets, extensions, exclude, respect, batch₁, parallel₁, format, used₁⟩ := s₁
  obtain ⟨_, _, _, _, batch₂, parallel₂, _, used₂⟩ := s₂
  obtain ⟨rfl, rfl, rfl, rfl, -⟩ := h
  rfl

end Settings.SameSearch

namespace CommandLine

open Scan (reportOn textsOf)

variable {o o₁ o₂ : Options} {d : Disk} {s s₁ s₂ : Settings} {elapsed : Duration} {coloured : Bool}

/-! ## The same task

Two sets of options are compared by the settings that they lead to. Options that may differ
are overridden into settings that may differ, so the relation between the settings of the
files is the one between those that are loaded. It is all that the search, the format and
the report are asked about afterwards. -/

/-- The command lines ask for the same: they may differ in batch size and workers, in whether files
in use are listed, and in what is shown beside the report. The settings files that they name may
differ too, if both are valid and give settings that agree in the same way. -/
structure SameTask (d : Disk) (o₁ o₂ : Options) : Prop where
  path : o₁.path = o₂.path
  targets : o₁.targets = o₂.targets
  exclude : o₁.exclude = o₂.exclude
  extensions : o₁.extensions = o₂.extensions
  respectIgnoreFiles : o₁.respectIgnoreFiles = o₂.respectIgnoreFiles
  format : o₁.format = o₂.format
  output : o₁.output = o₂.output
  config : o₁.config = o₂.config ∨
    ∃ base₁ base₂, Offers o₁ d base₁ ∧ Offers o₂ d base₂ ∧ base₁.SameSearch base₂

namespace SameTask

theorem symm (h : SameTask d o₁ o₂) : SameTask d o₂ o₁ where
  path := h.path.symm
  targets := h.targets.symm
  exclude := h.exclude.symm
  extensions := h.extensions.symm
  respectIgnoreFiles := h.respectIgnoreFiles.symm
  format := h.format.symm
  output := h.output.symm
  config := h.config.imp Eq.symm fun ⟨base₁, base₂, h₁, h₂, hbase⟩ =>
    ⟨base₂, base₁, h₂, h₁, hbase.symm⟩

theorem root_eq (h : SameTask d o₁ o₂) : o₁.root = o₂.root := by
  rw [Options.root, Options.root, h.path]

theorem chosenFile?_eq (h : SameTask d o₁ o₂) (hconfig : o₁.config = o₂.config) :
    chosenFile? o₁ d = chosenFile? o₂ d := by
  rw [chosenFile?, chosenFile?, hconfig, h.root_eq]

theorem override (h : SameTask d o₁ o₂) {base₁ base₂ : Settings} (hbase : base₁.SameSearch base₂) :
    (o₁.override base₁).SameSearch (o₂.override base₂) where
  targets := by rw [Options.override, Options.override, h.targets, hbase.targets]
  extensions := by rw [Options.override, Options.override, h.extensions, hbase.extensions]
  exclude := by rw [Options.override, Options.override, h.exclude, hbase.exclude]
  respectIgnoreFiles := by
    rw [Options.override, Options.override, h.respectIgnoreFiles, hbase.respectIgnoreFiles]
  format := by rw [Options.override, Options.override, h.format, hbase.format]

/-- Both load settings that agree. -/
theorem loads (h : SameTask d o₁ o₂) (hloads : Loads o₁ d s₁) :
    ∃ s₂, Loads o₂ d s₂ ∧ s₁.SameSearch s₂ := by
  -- either both look for one file and load the same from it, or each has a file of its own
  rcases h.config with hconfig | ⟨base₁, base₂, hoffers₁, hoffers₂, hbase⟩
  · have hfile := h.chosenFile?_eq hconfig
    obtain ⟨hoffers⟩ := hloads
    cases hoffers with
    | chosen hchosen hread hparse =>
      rw [hfile] at hchosen
      exact ⟨_, .intro (.chosen hchosen hread hparse), h.override (.refl _)⟩
    | default hchosen =>
      rw [hfile] at hchosen
      exact ⟨_, .intro (.default hchosen), h.override (.refl _)⟩
  · obtain rfl := hloads.unique (.intro hoffers₁)
    exact ⟨_, .intro hoffers₂, h.override hbase⟩

theorem loadFails (h : SameTask d o₁ o₂) {e : Settings.LoadError} (hfails : LoadFails o₁ d e) :
    LoadFails o₂ d e := by
  rcases h.config with hconfig | ⟨base₁, base₂, hoffers, -⟩
  · have hfile := h.chosenFile?_eq hconfig
    cases hfails with
    | unreadable hchosen hread => exact .unreadable (hfile ▸ hchosen) hread
    | unparsable hchosen hread hparse => exact .unparsable (hfile ▸ hchosen) hread hparse
  · have hloaded := loadSettings_of_loads (.intro hoffers)
    rw [loadSettings_of_loadFails hfails] at hloaded
    cases hloaded

end SameTask

/-! ## The same failures

Why a run fails is told by rules. Each of them asks about settings in which both agree, so
it holds for the one if it does for the other. The relation is symmetric, and so the reasons
are the same ones. -/

theorem FindFails.of_sameSearch {room : Glob.Room} (h : s₁.SameSearch s₂) {root : Path}
    {e : DiscoveryError} (hfails : FindFails room d s₁ root e) : FindFails room d s₂ root e := by
  cases hfails with
  | rootNotFound hany => exact .rootNotFound hany
  | notADirectory hany hdirectory => exact .notADirectory hany hdirectory
  | invalidExclude hdirectory hbad =>
    rw [h.exclude] at hbad
    exact .invalidExclude hdirectory hbad

/-- What fails for one fails for the other, and for the same reason. -/
theorem SameTask.fails {room : Glob.Room} (h : SameTask d o₁ o₂) {f : Failure}
    (hfails : Fails room o₁ d f) : Fails room o₂ d f := by
  cases hfails with
  | settings hload => exact .settings (h.loadFails hload)
  | unknownFormat hloads hformat =>
    obtain ⟨s₂, hloads₂, hsearch⟩ := h.loads hloads
    rw [hsearch.format] at hformat ⊢
    exact .unknownFormat hloads₂ hformat
  | discovery hloads hformat hfind =>
    obtain ⟨s₂, hloads₂, hsearch⟩ := h.loads hloads
    rw [hsearch.format] at hformat
    rw [h.root_eq] at hfind
    exact .discovery hloads₂ hformat (hfind.of_sameSearch hsearch)
  | unwritable hloads hformat hfinds houtput hp =>
    obtain ⟨s₂, hloads₂, hsearch⟩ := h.loads hloads
    rw [hsearch.format] at hformat
    rw [h.root_eq] at hfinds
    rw [h.output] at houtput
    refine .unwritable hloads₂ hformat ?_ houtput hp
    intro e hfind
    exact hfinds e (hfind.of_sameSearch hsearch.symm)

theorem SameTask.failure_eq (h : SameTask d o₁ o₂) (around : Surroundings)
    (coloured₁ coloured₂ : Bool) (elapsed₁ elapsed₂ : Duration) :
    (around.run coloured₁ d elapsed₁ o₁).failure
      = (around.run coloured₂ d elapsed₂ o₂).failure := by
  apply Option.ext
  intro f
  rw [failure_iff, failure_iff]
  exact ⟨h.fails, h.symm.fails⟩

/-! ## The main result

If files are found, both reports are made of them in the same way, and their only difference
is the time. If none are found, neither report is delivered, and then there is nothing to
compare. -/

/-- What two runs have in common if the options make no difference to the results. -/
structure SameResults (d : Disk) (o₁ o₂ : Options) : Prop where
  /-- Both fail for the same reason, or neither does. -/
  failure : ∀ coloured₁ coloured₂ elapsed₁ elapsed₂,
    (run coloured₁ d elapsed₁ o₁).failure = (run coloured₂ d elapsed₂ o₂).failure ∧
      (run coloured₁ d elapsed₁ o₁).code = (run coloured₂ d elapsed₂ o₂).code
  /-- Both deliver one document, but for the field with the time. -/
  document : ∀ s, Loads o₁ d s → Report.Format.ofName? s.report.format = some .json →
    ∃ before after, ∀ coloured elapsed,
      let document := String.ofList (before ++ Report.elapsedField elapsed ++ after)
      Delivers o₁ d (run coloured d elapsed o₁) document ∧
        Delivers o₂ d (run coloured d elapsed o₂) document
  /-- Both show one report, but for the time, which must be equally wide in both. This takes it that
  both are quiet or neither is, and that both list files in use or neither does. -/
  report : ∀ s₁ s₂, Loads o₁ d s₁ → Loads o₂ d s₂ →
    Report.Format.ofName? s₁.report.format = some .terminal →
    o₁.quiet = o₂.quiet → s₁.report.showUsed = s₂.report.showUsed →
    ∀ coloured, ∃ heading, ∀ width, ∃ before after, ∀ elapsed, elapsed.text.length = width →
      let report := String.ofList (before ++ elapsed.text ++ after)
      Shows d (run coloured d elapsed o₁) heading report ∧
        Shows d (run coloured d elapsed o₂) heading report

/-- Both find the same files, or neither finds any. -/
theorem SameTask.finds (h : SameTask d o₁ o₂) (hsearch : s₁.SameSearch s₂) :
    (∃ files, (Discovery.find d s₁ o₁.root).files = .ok files ∧
      (Discovery.find d s₂ o₂.root).files = .ok files) ∨
    ∃ e, FindFails .unbounded d s₁ o₁.root e ∧ FindFails .unbounded d s₂ o₂.root e := by
  rw [hsearch.find_eq, h.root_eq]
  rcases finds_or_findFails .unbounded d s₂ o₂.root with ⟨files, hfiles⟩ | ⟨e, hfails⟩
  · exact .inl ⟨files, hfiles, hfiles⟩
  · exact .inr ⟨e, hfails.of_sameSearch hsearch.symm, hfails⟩

theorem SameTask.document (h : SameTask d o₁ o₂) (hloads : Loads o₁ d s)
    (hformat : Report.Format.ofName? s.report.format = some .json) :
    ∃ before after, ∀ coloured elapsed,
      let document := String.ofList (before ++ Report.elapsedField elapsed ++ after)
      Delivers o₁ d (run coloured d elapsed o₁) document ∧
        Delivers o₂ d (run coloured d elapsed o₂) document := by
  obtain ⟨s₂, hloads₂, hsearch⟩ := h.loads hloads
  have hformat₂ := hformat
  rw [hsearch.format] at hformat₂
  rcases h.finds hsearch with ⟨files, hfiles, hfiles₂⟩ | ⟨e, hfails, hfails₂⟩
  · obtain ⟨before, after, hdocument⟩ := (reportOn (textsOf d) ⟨0, 0⟩ files).toJson_elapsed
    refine ⟨before, after, fun coloured elapsed => ?_⟩
    dsimp only
    rw [← hdocument]
    exact ⟨delivers_of_files (.ofDisk d) coloured elapsed hloads hformat hfiles,
      delivers_of_files (.ofDisk d) coloured elapsed hloads₂ hformat₂ hfiles₂⟩
  · -- Neither delivers a document, so any text will do.
    refine ⟨[], [], fun coloured elapsed => ?_⟩
    exact ⟨delivers_of_findFails (.ofDisk d) coloured elapsed hloads hformat hfails _,
      delivers_of_findFails (.ofDisk d) coloured elapsed hloads₂ hformat₂ hfails₂ _⟩

theorem heading_congr (hroot : o₁.root = o₂.root) (hquiet : o₁.quiet = o₂.quiet)
    (coloured : Bool) (format : Report.Format) :
    heading coloured o₁ format = heading coloured o₂ format := by
  rw [heading, heading, isInteractive, isInteractive, banner, banner, hroot, hquiet]

theorem SameTask.report (h : SameTask d o₁ o₂) (hloads₁ : Loads o₁ d s₁) (hloads₂ : Loads o₂ d s₂)
    (hformat₁ : Report.Format.ofName? s₁.report.format = some .terminal)
    (hquiet : o₁.quiet = o₂.quiet) (hused : s₁.report.showUsed = s₂.report.showUsed)
    (coloured : Bool) :
    ∃ heading, ∀ width, ∃ before after, ∀ elapsed, elapsed.text.length = width →
      let report := String.ofList (before ++ elapsed.text ++ after)
      Shows d (run coloured d elapsed o₁) heading report ∧
        Shows d (run coloured d elapsed o₂) heading report := by
  -- Settings that are loaded are the only ones, so those that agree with the first are the second.
  obtain ⟨s₂', hloads₂', hsearch⟩ := h.loads hloads₁
  obtain rfl := hloads₂.unique hloads₂'
  have hformat₂ := hformat₁
  rw [hsearch.format] at hformat₂
  have hheading := heading_congr h.root_eq hquiet coloured .terminal
  refine ⟨heading coloured o₂ .terminal, fun width => ?_⟩
  rcases h.finds hsearch with ⟨files, hfiles₁, hfiles₂⟩ | ⟨e, hfails₁, hfails₂⟩
  · obtain ⟨before, after, hreport⟩ := (reportOn (textsOf d) ⟨0, 0⟩ files).toTerminal_elapsed
      coloured s₂.report.showUsed width
    refine ⟨before, after, fun elapsed hwide => ?_⟩
    have hshows₁ := shows_of_files (.ofDisk d) coloured elapsed hloads₁ hformat₁ hfiles₁
    rw [hheading, hused] at hshows₁
    dsimp only
    rw [← hreport elapsed hwide]
    exact ⟨hshows₁, shows_of_files (.ofDisk d) coloured elapsed hloads₂ hformat₂ hfiles₂⟩
  · -- Only the headings are printed.
    refine ⟨[], [], fun elapsed _ => ?_⟩
    have hshows₁ := shows_of_findFails (.ofDisk d) coloured elapsed hloads₁ hformat₁ hfails₁
    rw [hheading] at hshows₁
    exact ⟨hshows₁ _, shows_of_findFails (.ofDisk d) coloured elapsed hloads₂ hformat₂ hfails₂ _⟩

/-- **Tuning keeps results.** Whatever the disk, command lines that ask for the same fail for the
same reason or report the same. A document has the same characters in both runs, on the standard
output or in its file, except for those of one field, which holds the time. So has a report for
readers, except for the time itself, if that is equally wide and both are to show as much. -/
theorem tuning_keeps_results (h : SameTask d o₁ o₂) : SameResults d o₁ o₂ where
  failure coloured₁ coloured₂ elapsed₁ elapsed₂ := by
    have hfailure : (run coloured₁ d elapsed₁ o₁).failure = (run coloured₂ d elapsed₂ o₂).failure :=
      h.failure_eq (.ofDisk d) coloured₁ coloured₂ elapsed₁ elapsed₂
    refine ⟨hfailure, ?_⟩
    rw [Outcome.code, Outcome.code, hfailure]
  document _ := h.document
  report _ _ := h.report

/-- Here the settings files are not even of one form, and the options differ too. -/
theorem tuning_keeps_results_files :
    let yaml := "batch_size: 3\n"
    let toml := "parallel = true\n[report]\nshow_used = true\n"
    let settings := fun text => Node.file (Text.Utf8.ofString text)
    let project := Node.directory
      (.cons (Text.Utf8.ofString "a.yml") (settings yaml)
        (.cons (Text.Utf8.ofString "b.toml") (settings toml) .nil))
    let d : Disk := ⟨.directory (.cons (Text.Utf8.ofString "p") project .nil), []⟩
    let o := { Options.empty with path := some (Path.ofString "p"), format := some .json }
    let o₁ := { o with config := some (Path.ofString "p/a.yml") }
    let o₂ := { o with
      config := some (Path.ofString "p/b.toml")
      batchSize := some 7
      noProgress := true
      quiet := true }
    SameTask d o₁ o₂ ∧ (∀ coloured elapsed, (run coloured d elapsed o₁).code = 0) ∧
      SameResults d o₁ o₂ := by
  intro yaml toml settings project d o o₁ o₂
  let base₁ : Settings := { Settings.default with batchSize := 3 }
  let base₂ : Settings := { Settings.default with parallel := true, report := ⟨"terminal", true⟩ }
  -- what the two files hold, evaluated; the general theorem does the rest
  have hread₁ : d.readText (Path.ofString "p/a.yml") = .ok yaml := by decide +kernel
  have hread₂ : d.readText (Path.ofString "p/b.toml") = .ok toml := by decide +kernel
  have hparse₁ : Settings.readAs .yaml (Path.ofString "p/a.yml") yaml.toList
      = .ok { Settings.Overlay.none with batchSize := some 3 } := by decide +kernel
  have hparse₂ : Settings.readAs .toml (Path.ofString "p/b.toml") toml.toList
      = .ok { Settings.Overlay.none with
        parallel := some true, report := some ⟨none, some true⟩ } := by decide +kernel
  have hoffers₁ : Offers o₁ d base₁ := .chosen rfl hread₁ hparse₁
  have hoffers₂ : Offers o₂ d base₂ := .chosen rfl hread₂ hparse₂
  have hbase : base₁.SameSearch base₂ := ⟨rfl, rfl, rfl, rfl, rfl⟩
  have hsame : SameTask d o₁ o₂ :=
    ⟨rfl, rfl, rfl, rfl, rfl, rfl, rfl, .inr ⟨base₁, base₂, hoffers₁, hoffers₂, hbase⟩⟩
  refine ⟨hsame, fun coloured elapsed => ?_, tuning_keeps_results hsame⟩
  have hroot : d.hasDirectory o₁.root = true := by decide +kernel
  have hformat : Report.Format.ofName? (o₁.override base₁).report.format = some .json := by
    decide +kernel
  have hexcludes : (o₁.override base₁).excludes.isOk = true := by decide +kernel
  cases hpatterns : (o₁.override base₁).excludes with
  | error e =>
    rw [hpatterns] at hexcludes
    cases hexcludes
  | ok patterns =>
    have hfiles := Discovery.find_files hroot hpatterns
    have hnone : (run coloured d elapsed o₁).failure = none :=
      run_of_succeeds (.ofDisk d) coloured elapsed (.intro hoffers₁) hfiles (.printed hformat rfl)
    rw [Outcome.code, hnone]
    rfl

end CommandLine

end Unimported
