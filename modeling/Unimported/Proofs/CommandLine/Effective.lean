/-
The settings of a run.

They come from three places: the defaults, at most one settings file, and the options. The file may
set some of the defaults otherwise, and the options go before both, each in its own way. Other files
do not matter, even if they have the names that settings files have by default.
`settings_effective` is the main result.
-/
import Unimported.Proofs.CommandLine.Stages
import Unimported.Proofs.Disk.Shape
import Unimported.Proofs.Settings.Fields

set_option autoImplicit false

namespace Unimported.CommandLine

open Settings (FileForm LoadError SetsAs)

/-! ## Options before settings

How options and settings go together is said field by field, as relations that have one
solution. That the override has these fields is then one lemma, and that nothing else has
them is another. -/

/-- The settings `s` are those of the base with the options before them. Lists that are given
replace those of the base, except that exclude patterns are added; a batch size or a format that is
given replaces that of the base; flags can only turn something on. -/
structure Overrides (o : Options) (base s : Settings) : Prop where
  targets : s.targets = if o.targets = [] then base.targets else o.targets
  extensions : s.extensions = if o.extensions = [] then base.extensions else o.extensions
  exclude : s.exclude = base.exclude ++ o.exclude
  batchSize : ∀ n, s.batchSize = n ↔ o.batchSize = some n ∨ o.batchSize = none ∧ base.batchSize = n
  format : ∀ name, s.report.format = name ↔
    o.format.map Report.Format.name = some name ∨ o.format = none ∧ base.report.format = name
  respectIgnoreFiles : s.respectIgnoreFiles = true ↔
    o.respectIgnoreFiles = true ∨ base.respectIgnoreFiles = true
  parallel : s.parallel = true ↔ o.parallel = true ∨ base.parallel = true
  showUsed : s.report.showUsed = true ↔ o.showUsed = true ∨ base.report.showUsed = true

section Options

variable {o : Options} {base s s' : Settings}

theorem orElse_eq {α : Type} [DecidableEq α] (given settings : List α) :
    Options.orElse given settings = if given = [] then settings else given := by
  unfold Options.orElse
  cases given <;> simp

theorem overrides_override (o : Options) (base : Settings) :
    Overrides o base (o.override base) := by
  unfold Options.override
  constructor
  case targets => exact orElse_eq _ _
  case extensions => exact orElse_eq _ _
  case exclude => rfl
  case batchSize => cases o.batchSize <;> simp
  case format => cases o.format <;> simp
  case respectIgnoreFiles => simp
  case parallel => simp
  case showUsed => simp

theorem Overrides.unique (h : Overrides o base s) (h' : Overrides o base s') : s = s' := by
  have hbatch : s.batchSize = s'.batchSize := (h.batchSize _).2 ((h'.batchSize _).1 rfl)
  have hformat : s.report.format = s'.report.format := (h.format _).2 ((h'.format _).1 rfl)
  have hrespect : s.respectIgnoreFiles = s'.respectIgnoreFiles := by
    rw [Bool.eq_iff_iff, h.respectIgnoreFiles, h'.respectIgnoreFiles]
  have hparallel : s.parallel = s'.parallel := by
    rw [Bool.eq_iff_iff, h.parallel, h'.parallel]
  have hused : s.report.showUsed = s'.report.showUsed := by
    rw [Bool.eq_iff_iff, h.showUsed, h'.showUsed]
  have htargets := h.targets.trans h'.targets.symm
  have hextensions := h.extensions.trans h'.extensions.symm
  have hexclude := h.exclude.trans h'.exclude.symm
  -- all fields agree, so the settings do
  obtain ⟨targets, extensions, exclude, respect, batch, parallel, format, used⟩ := s
  obtain ⟨targets', extensions', exclude', respect', batch', parallel', format', used'⟩ := s'
  obtain rfl : targets = targets' := htargets
  obtain rfl : extensions = extensions' := hextensions
  obtain rfl : exclude = exclude' := hexclude
  obtain rfl : respect = respect' := hrespect
  obtain rfl : batch = batch' := hbatch
  obtain rfl : parallel = parallel' := hparallel
  obtain rfl : format = format' := hformat
  obtain rfl : used = used' := hused
  rfl

theorem overrides_iff : Overrides o base s ↔ o.override base = s := by
  constructor
  · intro h
    exact (overrides_override o base).unique h
  · rintro rfl
    exact overrides_override o base

end Options

/-! ## The settings file

A run starts from what one file makes of the defaults. Which file that is depends on which
files there are, and not on what is in them. So disks of the same shape choose alike, and
only the text of the chosen file counts. -/

section Files

variable {o : Options} {d d' : Disk}

/-- What a run starts from: the defaults, or what the chosen file makes of them. -/
def StartsFrom (d : Disk) (chosen : Option Path) (base : Settings) : Prop :=
  match chosen with
  | none => base = Settings.default
  | some p => ∃ text, d.readText p = .ok text ∧
      SetsAs (FileForm.ofPath p) text.toList Settings.default base

theorem offers_iff {base : Settings} : Offers o d base ↔ StartsFrom d (chosenFile? o d) base := by
  unfold StartsFrom
  constructor
  · intro h
    cases h with
    | @chosen p text overlay hfile hread hparse =>
      rw [hfile]
      exact ⟨text, hread, Settings.setsAs_iff.2 ⟨overlay, hparse, rfl⟩⟩
    | default hfile =>
      rw [hfile]
  · intro h
    cases hfile : chosenFile? o d with
    | none =>
      rw [hfile] at h
      exact h ▸ .default hfile
    | some p =>
      rw [hfile] at h
      obtain ⟨text, hread, hsets⟩ := h
      obtain ⟨overlay, hparse, rfl⟩ := Settings.setsAs_iff.1 hsets
      exact .chosen hfile hread hparse

theorem loadSettings_eq_ok_iff {s : Settings} : loadSettings o d = .ok s ↔ Loads o d s := by
  constructor
  · intro h
    rcases loads_or_loadFails o d with ⟨s', hloads⟩ | ⟨e, hfails⟩
    · rw [loadSettings_of_loads hloads] at h
      exact Except.ok.inj h ▸ hloads
    · rw [loadSettings_of_loadFails hfails] at h
      cases h
  · exact loadSettings_of_loads

theorem loads_iff {s : Settings} :
    Loads o d s ↔ ∃ base, StartsFrom d (chosenFile? o d) base ∧ Overrides o base s := by
  constructor
  · rintro ⟨hoffers⟩
    exact ⟨_, offers_iff.1 hoffers, overrides_override o _⟩
  · rintro ⟨base, hbase, hs⟩
    rw [← overrides_iff.1 hs]
    exact ⟨offers_iff.2 hbase⟩

/-- An error is about the file that was chosen. -/
theorem LoadFails.about {e : LoadError} (h : LoadFails o d e) :
    ∃ p, chosenFile? o d = some p ∧
      ((∃ cause, d.readText p = .error cause ∧ e = .unreadable p cause) ∨
        (∃ text, d.readText p = .ok text) ∧ ((∃ cause, e = .yaml p cause) ∨
          ∃ cause, e = .toml p cause)) := by
  cases h with
  | @unreadable p cause hfile hread => exact ⟨p, hfile, .inl ⟨cause, hread, rfl⟩⟩
  | @unparsable p text e hfile hread hparse =>
    exact ⟨p, hfile, .inr ⟨⟨text, hread⟩, Settings.readAs_eq_error hparse⟩⟩

/-- Loading fails exactly if a file is chosen that cannot be read or makes nothing of the
settings. -/
theorem loadSettings_fails_iff : (∃ e, loadSettings o d = .error e) ↔
    ∃ p, chosenFile? o d = some p ∧ ∀ text, d.readText p = .ok text →
      ∀ base, ¬ SetsAs (FileForm.ofPath p) text.toList Settings.default base := by
  constructor
  · rintro ⟨e, he⟩
    have hnone : ∀ s, ¬ Loads o d s := by
      intro s hs
      rw [loadSettings_of_loads hs] at he
      cases he
    cases hfile : chosenFile? o d with
    | none => exact absurd ⟨.default hfile⟩ (hnone _)
    | some p =>
      refine ⟨p, rfl, fun text hread base hsets => hnone (o.override base) ⟨?_⟩⟩
      rw [offers_iff, hfile]
      exact ⟨text, hread, hsets⟩
  · rintro ⟨p, hfile, hnone⟩
    -- if loading succeeded, the file would set something
    cases hload : loadSettings o d with
    | error e => exact ⟨e, rfl⟩
    | ok s =>
      obtain ⟨base, hbase, -⟩ := loads_iff.1 (loadSettings_eq_ok_iff.1 hload)
      rw [hfile] at hbase
      obtain ⟨text, hread, hsets⟩ := hbase
      exact absurd hsets (hnone text hread base)

/-- Files that are not chosen may have any content. -/
theorem loadSettings_congr (hshape : d.SameShape d')
    (hread : ∀ p, chosenFile? o d = some p → d'.readText p = d.readText p) :
    loadSettings o d' = loadSettings o d := by
  have hchosen : chosenFile? o d' = chosenFile? o d := by
    unfold chosenFile? Settings.defaultFile?
    rw [show d.hasFile = d'.hasFile from funext hshape.hasFile_eq]
  rw [loadSettings_eq, loadSettings_eq, hchosen]
  cases hfile : chosenFile? o d with
  | none => rfl
  | some p =>
    dsimp only
    unfold Settings.fromFile
    rw [hread p hfile]

/-- What a run scans with are the settings that were loaded. -/
theorem settings_of_prepare {scanned : Scanned} (h : (prepare o d).scanned = .ok scanned) :
    loadSettings o d = .ok scanned.settings := by
  unfold prepare Surroundings.prepare at h
  cases hload : loadSettings o d with
  | error e => simp [hload] at h
  | ok s =>
    rw [hload] at h
    dsimp only at h
    cases hformat : Report.Format.ofName? s.report.format with
    | none => simp [hformat] at h
    | some format =>
      rw [hformat] at h
      rw [← Except.ok.inj h]

/-- **The settings of a run.** Chosen is the settings file that the options name, or else the first
default name in the root at which there is a file. The settings are the defaults, changed by what
the chosen file sets and nothing else, and by the options before that. Loading fails exactly if the
chosen file cannot be read or is no settings file, and the error is about this file. It makes no
difference what other files hold. With these settings the project is scanned, and a run that cannot
load them fails for that reason. -/
theorem settings_effective (o : Options) (d : Disk) :
    let chosen := o.config.or
      ((Settings.defaultNames.map fun name => o.root.join (Path.ofString name)).find? d.hasFile)
    (∀ s, loadSettings o d = .ok s ↔ ∃ base, StartsFrom d chosen base ∧ Overrides o base s) ∧
      ((∃ e, loadSettings o d = .error e) ↔ ∃ p, chosen = some p ∧
        ∀ text, d.readText p = .ok text →
          ∀ base, ¬ SetsAs (FileForm.ofPath p) text.toList Settings.default base) ∧
      (∀ e, loadSettings o d = .error e → ∃ p, chosen = some p ∧
        ((∃ cause, d.readText p = .error cause ∧ e = .unreadable p cause) ∨
          (∃ text, d.readText p = .ok text) ∧
            ((∃ cause, e = .yaml p cause) ∨ ∃ cause, e = .toml p cause))) ∧
      (∀ d', d.SameShape d' → (∀ p, chosen = some p → d'.readText p = d.readText p) →
        loadSettings o d' = loadSettings o d) ∧
      (∀ scanned, (prepare o d).scanned = .ok scanned →
        loadSettings o d = .ok scanned.settings) ∧
      ∀ e, loadSettings o d = .error e → ∀ coloured elapsed,
        (run coloured d elapsed o).failure = some (.settings e) := by
  intro chosen
  have hfails : ∀ e, loadSettings o d = .error e → LoadFails o d e := by
    intro e he
    rcases loads_or_loadFails o d with ⟨s, hs⟩ | ⟨e', he'⟩
    · rw [loadSettings_of_loads hs] at he
      cases he
    · rw [loadSettings_of_loadFails he'] at he
      exact Except.error.inj he ▸ he'
  -- the value, the failure, what the error is about, other files, and the use by a run
  refine ⟨fun s => ?_, loadSettings_fails_iff, fun e he => (hfails e he).about, ?_, ?_, ?_⟩
  · rw [loadSettings_eq_ok_iff]
    exact loads_iff
  · intro d' hshape hread
    exact loadSettings_congr hshape hread
  · intro scanned hscanned
    exact settings_of_prepare hscanned
  · intro e he coloured elapsed
    exact (run_of_loadFails (.ofDisk d) coloured elapsed (hfails e he)).failure

end Files

end Unimported.CommandLine
