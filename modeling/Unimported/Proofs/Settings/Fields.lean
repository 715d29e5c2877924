/-
The fields of a settings document.

A document is read field by field, in the order in which it gives them. What comes of it can be said
name by name: the settings that are not named stay as they are, one that is named once becomes what
its value says, and a name that is given twice is an error. Neither the order of the fields nor
fields of unknown names play a part. `setsAs_iff` says so for a whole text, in YAML and in TOML.
-/
import Unimported.Proofs.Fallible
import Unimported.Settings.Load

set_option autoImplicit false

namespace Unimported.Settings

variable {ν α : Type}

/-! ## What a document says

`Sets` is the specification: it speaks of each name by itself, through the values that the
name is given, so neither the order of the fields nor an unknown name can matter. `SetsYaml`
and `SetsToml` say which fields a text has, and `SetsAs` what the form of a file makes of
its text. -/

/-- The values that a name is given, in order. -/
def valuesOf (fields : List (String × ν)) (name : String) : List ν :=
  (fields.filter fun f => f.1 = name).map Prod.snd

/-- What the values of one name make of a setting: without a value it stays as it is, one value
changes it, and there must be no more. -/
def Changes (change : ν → α → α → Prop) : List ν → α → α → Prop
  | [], before, after => after = before
  | [value], before, after => change value before after
  | _ :: _ :: _, _, _ => False

/-- A setting becomes what is read from the value, whatever it was. -/
def Becomes (read : ν → Option α) (value : ν) (_before after : α) : Prop := read value = some after

/-- What the fields make of the settings of reports. -/
structure SetsReport (r : ValueReader ν) (fields : List (String × ν))
    (before after : ReportSettings) : Prop where
  format : Changes (Becomes r.text) (valuesOf fields "format") before.format after.format
  showUsed : Changes (Becomes r.truth) (valuesOf fields "show_used") before.showUsed after.showUsed

/-- What a value with fields of its own makes of the settings of reports. -/
def SetsNested (r : ValueReader ν) (nested : ν → Option (List (String × ν))) (value : ν)
    (before after : ReportSettings) : Prop :=
  ∃ fields, nested value = some fields ∧ SetsReport r fields before after

/-- The paths in a value. -/
def ValueReader.paths (r : ValueReader ν) (value : ν) : Option (List Path) :=
  (r.texts value).map fun ts => ts.map Path.ofString

/-- What the fields make of the settings. `nested` are the fields that a value has of its own. -/
structure Sets (r : ValueReader ν) (nested : ν → Option (List (String × ν)))
    (fields : List (String × ν)) (before after : Settings) : Prop where
  targets : Changes (Becomes r.paths) (valuesOf fields "targets") before.targets after.targets
  extensions :
    Changes (Becomes r.texts) (valuesOf fields "extensions") before.extensions after.extensions
  exclude : Changes (Becomes r.texts) (valuesOf fields "exclude") before.exclude after.exclude
  respectIgnoreFiles : Changes (Becomes r.truth) (valuesOf fields "respect_gitignore")
    before.respectIgnoreFiles after.respectIgnoreFiles
  batchSize :
    Changes (Becomes r.count) (valuesOf fields "batch_size") before.batchSize after.batchSize
  parallel : Changes (Becomes r.truth) (valuesOf fields "parallel") before.parallel after.parallel
  report : Changes (SetsNested r nested) (valuesOf fields "report") before.report after.report

/-- What a YAML text makes of the settings: one without content leaves them as they are, and any
other must be a mapping. -/
def SetsYaml (text : List Char) (before after : Settings) : Prop :=
  ∃ document, Yaml.parse text = .ok document ∧
    match document with
    | none => after = before
    | some root => ∃ fields, fieldsOfNode root root = .ok fields ∧
        Sets (yamlReader root) (fun node => (fieldsOfNode root node).toOption) fields before after

/-- The fields that a value of TOML has of its own: those of a table, or those of reports in
order. A time is a table with none that is known. -/
def nestedFields : Toml.Value → Option (List (String × Toml.Value))
  | .table _ fields => some (namedFields fields)
  | .array items => some (["format", "show_used"].zip items)
  | .dateTime => some []
  | .tables [] => some []
  | _ => none

/-- What a TOML text makes of the settings. -/
def SetsToml (text : List Char) (before after : Settings) : Prop :=
  ∃ root, Toml.parse text = .ok root ∧
    Sets tomlReader nestedFields (namedFields root) before after

/-- What a text of some form makes of the settings: where the form is open, it is YAML unless that
makes nothing of them. -/
def SetsAs (form : FileForm) (text : List Char) (before after : Settings) : Prop :=
  match form with
  | .yaml => SetsYaml text before after
  | .toml => SetsToml text before after
  | .either =>
    SetsYaml text before after ∨ (∀ s, ¬ SetsYaml text before s) ∧ SetsToml text before after

/-! ## One field after another

The reader keeps for each setting what was read of it so far. `Fills` is `Changes` for such
an entry: it can be taken in parts (`fills_append`), and from an empty entry it is `Changes`
again (`changes_iff_fills`). So what the fields of a document make of the entries follows by
induction on the fields, with one step for a single field. -/

theorem valuesOf_append (fields fields' : List (String × ν)) (name : String) :
    valuesOf (fields ++ fields') name = valuesOf fields name ++ valuesOf fields' name := by
  unfold valuesOf
  rw [List.filter_append, List.map_append]

/-- What the values of one name make of an entry that is read at most once. -/
def Fills (read : ν → Option α) : List ν → Option α → Option α → Prop
  | [], old, new => new = old
  | [value], old, new => old = none ∧ ∃ a, read value = some a ∧ new = some a
  | _ :: _ :: _, _, _ => False

/-- The values can be taken in two parts, one after the other. -/
theorem fills_append {read : ν → Option α} (values values' : List ν) {old new : Option α} :
    Fills read (values ++ values') old new ↔
      ∃ between, Fills read values old between ∧ Fills read values' between new := by
  match values, values' with
  | [], values' => simp [Fills]
  | [value], [] => simp [Fills]
  | [value], value' :: rest =>
    -- the entry is taken when the second part begins
    refine iff_of_false id ?_
    rintro ⟨between, ⟨-, a, -, rfl⟩, hrest⟩
    cases rest with
    | nil => cases hrest.1
    | cons _ _ => exact hrest
  | value :: value' :: rest, values' =>
    refine iff_of_false id ?_
    rintro ⟨between, hfalse, -⟩
    exact hfalse

/-- What was read replaces what was there. -/
theorem changes_iff_fills {read : ν → Option α} {values : List ν} {before after : α} :
    Changes (Becomes read) values before after ↔
      ∃ new, Fills read values none new ∧ new.getD before = after := by
  match values with
  | [] => simp [Changes, Fills, eq_comm]
  | [value] => simp [Changes, Becomes, Fills]
  | value :: value' :: rest => simp [Changes, Fills]

theorem valuesOf_singleton (name name' : String) (value : ν) :
    valuesOf [(name', value)] name = if name' = name then [value] else [] := by
  unfold valuesOf
  by_cases hname : name' = name <;> simp [hname]

theorem fills_nil {read : ν → Option α} {old new : Option α} : Fills read [] old new ↔ new = old :=
  Iff.rfl

/-- To take a value is to fill an entry that is free. `f` puts the entry in its place. -/
theorem take_eq_ok_iff {β : Type} {name : String} {read : ν → Option α} {value : ν}
    {old : Option α} {f : Option α → β} {b : β} :
    (do return f (some (← ValueReader.take name old (read value)))) = .ok b ↔
      ∃ new, Fills read [value] old new ∧ f new = b := by
  unfold ValueReader.take Fills
  cases old <;> cases hread : read value <;> simp [hread, bind, Except.bind, pure, Except.pure]

/-! ## The settings of reports

The step is `addReportField_eq_ok_iff`, and `reportOf_eq_ok_iff` takes it through all the
fields. -/

section Report

variable {r : ValueReader ν} {o o' : ReportOverlay}

/-- What the fields make of settings of reports of which some are given. -/
structure GivesReport (r : ValueReader ν) (fields : List (String × ν)) (o o' : ReportOverlay) :
    Prop where
  format : Fills r.text (valuesOf fields "format") o.format o'.format
  showUsed : Fills r.truth (valuesOf fields "show_used") o.showUsed o'.showUsed

theorem givesReport_iff {fields : List (String × ν)} : GivesReport r fields o o' ↔
    Fills r.text (valuesOf fields "format") o.format o'.format ∧
      Fills r.truth (valuesOf fields "show_used") o.showUsed o'.showUsed :=
  ⟨fun h => ⟨h.format, h.showUsed⟩, fun h => ⟨h.1, h.2⟩⟩

theorem givesReport_nil : GivesReport r [] o o' ↔ o = o' := by
  obtain ⟨format, used⟩ := o
  obtain ⟨format', used'⟩ := o'
  simp [givesReport_iff, valuesOf, fills_nil, eq_comm]

theorem givesReport_append {fields fields' : List (String × ν)} :
    GivesReport r (fields ++ fields') o o' ↔
      ∃ between, GivesReport r fields o between ∧ GivesReport r fields' between o' := by
  simp only [givesReport_iff, valuesOf_append, fills_append]
  -- The parts of a list of fields meet in one overlay: it is put together from what each entry
  -- is between them.
  constructor
  · rintro ⟨⟨format, hformat, hformat'⟩, used, hused, hused'⟩
    exact ⟨⟨format, used⟩, ⟨hformat, hused⟩, hformat', hused'⟩
  · rintro ⟨between, ⟨hformat, hused⟩, hformat', hused'⟩
    exact ⟨⟨_, hformat, hformat'⟩, _, hused, hused'⟩

/-- One field is added as its name says. -/
theorem addReportField_eq_ok_iff {name : String} {value : ν} :
    r.addReportField o name value = .ok o' ↔ GivesReport r [(name, value)] o o' := by
  obtain ⟨format, used⟩ := o
  obtain ⟨format', used'⟩ := o'
  rw [givesReport_iff, valuesOf_singleton, valuesOf_singleton]
  unfold ValueReader.addReportField
  -- A known name fills its own entry, and the other has no value to be filled with.
  by_cases hformat : name = "format"
  · subst hformat
    rw [if_pos rfl]
    refine (take_eq_ok_iff (f := fun format => ReportOverlay.mk format used)).trans ?_
    simp [fills_nil, eq_comm]
  · by_cases hused : name = "show_used"
    · subst hused
      rw [if_neg hformat, if_pos rfl]
      refine (take_eq_ok_iff (f := ReportOverlay.mk format)).trans ?_
      simp [fills_nil, eq_comm, and_comm]
    · -- an unknown name
      simp [hformat, hused, fills_nil, eq_comm]

/-- The fields of reports are taken one after another. -/
theorem reportOf_eq_ok_iff {fields : List (String × ν)} :
    r.reportOf fields = .ok o' ↔ GivesReport r fields .none o' := by
  unfold ValueReader.reportOf
  -- The induction is on the fields, over whatever those before them have filled.
  generalize ReportOverlay.none = o
  induction fields generalizing o with
  | nil => rw [List.foldlM_nil, pure_eq_ok_iff, givesReport_nil]
  | cons field fields ih =>
    rw [List.foldlM_cons, bind_eq_ok_iff, ← List.singleton_append, givesReport_append]
    exact exists_congr fun between => and_congr addReportField_eq_ok_iff (ih between)

end Report

/-! ## The settings

The same in the same order: what one field does to the entries, then all the fields. The
settings of reports are one entry of these, read from the fields of a value by the section
above. -/

section Overlays

variable {r : ValueReader ν} {o o' : Overlay}

/-- What the fields make of settings of which some are given. -/
structure Gives (r : ValueReader ν) (fields : List (String × ν)) (o o' : Overlay) : Prop where
  targets : Fills r.paths (valuesOf fields "targets") o.targets o'.targets
  extensions : Fills r.texts (valuesOf fields "extensions") o.extensions o'.extensions
  exclude : Fills r.texts (valuesOf fields "exclude") o.exclude o'.exclude
  respectIgnoreFiles :
    Fills r.truth (valuesOf fields "respect_gitignore") o.respectIgnoreFiles o'.respectIgnoreFiles
  batchSize : Fills r.count (valuesOf fields "batch_size") o.batchSize o'.batchSize
  parallel : Fills r.truth (valuesOf fields "parallel") o.parallel o'.parallel
  report : Fills (fun value => (r.report value).toOption) (valuesOf fields "report") o.report
    o'.report

theorem gives_iff {fields : List (String × ν)} : Gives r fields o o' ↔
    Fills r.paths (valuesOf fields "targets") o.targets o'.targets ∧
    Fills r.texts (valuesOf fields "extensions") o.extensions o'.extensions ∧
    Fills r.texts (valuesOf fields "exclude") o.exclude o'.exclude ∧
    Fills r.truth (valuesOf fields "respect_gitignore") o.respectIgnoreFiles
      o'.respectIgnoreFiles ∧
    Fills r.count (valuesOf fields "batch_size") o.batchSize o'.batchSize ∧
    Fills r.truth (valuesOf fields "parallel") o.parallel o'.parallel ∧
    Fills (fun value => (r.report value).toOption) (valuesOf fields "report") o.report
      o'.report :=
  ⟨fun ⟨h₁, h₂, h₃, h₄, h₅, h₆, h₇⟩ => ⟨h₁, h₂, h₃, h₄, h₅, h₆, h₇⟩,
    fun ⟨h₁, h₂, h₃, h₄, h₅, h₆, h₇⟩ => ⟨h₁, h₂, h₃, h₄, h₅, h₆, h₇⟩⟩

theorem gives_nil : Gives r [] o o' ↔ o = o' := by
  cases o
  cases o'
  simp [gives_iff, valuesOf, fills_nil, eq_comm]

theorem gives_append {fields fields' : List (String × ν)} :
    Gives r (fields ++ fields') o o' ↔
      ∃ between, Gives r fields o between ∧ Gives r fields' between o' := by
  simp only [gives_iff, valuesOf_append, fills_append]
  -- As for reports, what lies between the parts is put together entry by entry.
  constructor
  · rintro ⟨⟨t, ht, ht'⟩, ⟨e, he, he'⟩, ⟨x, hx, hx'⟩, ⟨i, hi, hi'⟩, ⟨b, hb, hb'⟩, ⟨p, hp, hp'⟩,
      ⟨q, hq, hq'⟩⟩
    exact ⟨⟨t, e, x, i, b, p, q⟩, ⟨ht, he, hx, hi, hb, hp, hq⟩, ht', he', hx', hi', hb', hp', hq'⟩
  · rintro ⟨between, ⟨ht, he, hx, hi, hb, hp, hq⟩, ht', he', hx', hi', hb', hp', hq'⟩
    exact ⟨⟨_, ht, ht'⟩, ⟨_, he, he'⟩, ⟨_, hx, hx'⟩, ⟨_, hi, hi'⟩, ⟨_, hb, hb'⟩, ⟨_, hp, hp'⟩,
      ⟨_, hq, hq'⟩⟩

/-- The settings of reports are taken like any other value. -/
theorem takeReport_eq_ok_iff {value : ν} {b : Overlay} :
    (do
      if o.report.isSome then throw (Mismatch.duplicateField "report")
      return { o with report := some (← r.report value) }) = .ok b ↔
      ∃ new, Fills (fun value => (r.report value).toOption) [value] o.report new ∧
        { o with report := new } = b := by
  unfold Fills
  cases hold : o.report <;> cases hread : r.report value <;>
    simp [hread, bind, Except.bind, pure, Except.pure, Except.toOption, throw, throwThe,
      MonadExceptOf.throw]

/-- **One field is added as its name says.** -/
theorem addField_eq_ok_iff {name : String} {value : ν} :
    r.addField o name value = .ok o' ↔ Gives r [(name, value)] o o' := by
  simp only [gives_iff, valuesOf_singleton]
  cases o'
  unfold ValueReader.addField
  -- The names are asked for in turn. The one that is met takes its value into its own entry,
  -- which is what `take_eq_ok_iff` says of it; the other six have no value, so they must stay
  -- as they are.
  by_cases htargets : name = "targets"
  · subst htargets
    rw [if_pos rfl]
    -- targets are read as texts and made paths, which is `r.paths`
    change (do return { o with
      targets := some (← ValueReader.take _ o.targets (r.paths value)) }) = _ ↔ _
    refine (take_eq_ok_iff (f := fun x => { o with targets := x })).trans ?_
    simp [fills_nil, eq_comm]
  rw [if_neg htargets]
  by_cases hextensions : name = "extensions"
  · subst hextensions
    rw [if_pos rfl]
    refine (take_eq_ok_iff (f := fun x => { o with extensions := x })).trans ?_
    simp [fills_nil, eq_comm, and_left_comm]
  rw [if_neg hextensions]
  by_cases hexclude : name = "exclude"
  · subst hexclude
    rw [if_pos rfl]
    refine (take_eq_ok_iff (f := fun x => { o with exclude := x })).trans ?_
    simp [fills_nil, eq_comm, and_left_comm]
  rw [if_neg hexclude]
  by_cases hrespect : name = "respect_gitignore"
  · subst hrespect
    rw [if_pos rfl]
    refine (take_eq_ok_iff (f := fun x => { o with respectIgnoreFiles := x })).trans ?_
    simp [fills_nil, eq_comm, and_left_comm]
  rw [if_neg hrespect]
  by_cases hbatch : name = "batch_size"
  · subst hbatch
    rw [if_pos rfl]
    refine (take_eq_ok_iff (f := fun x => { o with batchSize := x })).trans ?_
    simp [fills_nil, eq_comm, and_left_comm]
  rw [if_neg hbatch]
  by_cases hparallel : name = "parallel"
  · subst hparallel
    rw [if_pos rfl]
    refine (take_eq_ok_iff (f := fun x => { o with parallel := x })).trans ?_
    simp [fills_nil, eq_comm, and_left_comm]
  rw [if_neg hparallel]
  by_cases hreport : name = "report"
  · subst hreport
    rw [if_pos rfl]
    refine takeReport_eq_ok_iff.trans ?_
    simp [fills_nil, eq_comm, and_left_comm]
  · -- an unknown name
    rw [if_neg hreport]
    cases o
    simp [htargets, hextensions, hexclude, hrespect, hbatch, hparallel, hreport, fills_nil, eq_comm]

/-- **The fields are taken one after another.** -/
theorem overlayOf_eq_ok_iff {fields : List (String × ν)} :
    r.overlayOf fields = .ok o' ↔ Gives r fields .none o' := by
  unfold ValueReader.overlayOf
  -- Again over whatever the fields before have filled.
  generalize Overlay.none = o
  induction fields generalizing o with
  | nil => rw [List.foldlM_nil, pure_eq_ok_iff, gives_nil]
  | cons field fields ih =>
    rw [List.foldlM_cons, bind_eq_ok_iff, ← List.singleton_append, gives_append]
    exact exists_congr fun between => and_congr addField_eq_ok_iff (ih between)

end Overlays

/-! ## What is laid over the settings

An entry that was read replaces the setting and an empty one leaves it, so `Fills` from
nothing becomes `Changes`. Only the settings of reports are laid over the old ones entry by
entry; `changes_nested_iff` does that under the one fact that YAML and TOML differ in,
namely which fields a value has of its own. -/

/-- Settings of reports of which some are given, laid over others. -/
theorem reportOf_apply_iff {r : ValueReader ν} {fields : List (String × ν)}
    {before after : ReportSettings} :
    (∃ o, r.reportOf fields = .ok o ∧ o.apply before = after) ↔
      SetsReport r fields before after := by
  constructor
  · rintro ⟨o, ho, rfl⟩
    obtain ⟨hformat, hused⟩ := reportOf_eq_ok_iff.1 ho
    exact ⟨changes_iff_fills.2 ⟨_, hformat, rfl⟩, changes_iff_fills.2 ⟨_, hused, rfl⟩⟩
  · rintro ⟨hformat, hused⟩
    obtain ⟨format, hformat, hformat'⟩ := changes_iff_fills.1 hformat
    obtain ⟨used, hused, hused'⟩ := changes_iff_fills.1 hused
    refine ⟨⟨format, used⟩, reportOf_eq_ok_iff.2 ⟨hformat, hused⟩, ?_⟩
    rw [ReportOverlay.apply, hformat', hused']

/-- The settings of reports, laid over others or left as they are. -/
def laidOver (o : Option ReportOverlay) (before : ReportSettings) : ReportSettings :=
  match o with
  | none => before
  | some o => o.apply before

section Laid

variable {r : ValueReader ν} {nested : ν → Option (List (String × ν))}

/-- The fields of a value that has some are those of the settings of reports. -/
theorem changes_nested_iff
    (hnested : ∀ value o, r.report value = .ok o ↔
      ∃ fields, nested value = some fields ∧ r.reportOf fields = .ok o)
    {values : List ν} {before after : ReportSettings} :
    Changes (SetsNested r nested) values before after ↔
      ∃ new, Fills (fun value => (r.report value).toOption) values none new ∧
        laidOver new before = after := by
  match values with
  | [] => simp [Changes, Fills, laidOver, eq_comm]
  | value :: value' :: rest => simp [Changes, Fills]
  | [value] =>
    -- The reader of reports tells why it fails, and `Fills` asks only whether it does.
    have hread : ∀ o, (r.report value).toOption = some o ↔ r.report value = .ok o := by
      intro o
      cases r.report value <;> simp [Except.toOption]
    simp only [Changes, SetsNested, Fills, true_and, hread, hnested, ← reportOf_apply_iff]
    constructor
    · rintro ⟨fields, hfields, o, ho, hafter⟩
      exact ⟨some o, ⟨o, ⟨fields, hfields, ho⟩, rfl⟩, hafter⟩
    · rintro ⟨_, ⟨o, ⟨fields, hfields, ho⟩, rfl⟩, hafter⟩
      exact ⟨fields, hfields, o, ho, hafter⟩

/-- **What is read from the fields is what they say**, laid over the settings. -/
theorem overlayOf_apply_iff
    (hnested : ∀ value o, r.report value = .ok o ↔
      ∃ fields, nested value = some fields ∧ r.reportOf fields = .ok o)
    {fields : List (String × ν)} {before after : Settings} :
    (∃ o, r.overlayOf fields = .ok o ∧ o.apply before = after) ↔
      Sets r nested fields before after := by
  constructor
  · rintro ⟨o, ho, rfl⟩
    obtain ⟨ht, he, hx, hi, hb, hp, hq⟩ := overlayOf_eq_ok_iff.1 ho
    exact ⟨changes_iff_fills.2 ⟨_, ht, rfl⟩, changes_iff_fills.2 ⟨_, he, rfl⟩,
      changes_iff_fills.2 ⟨_, hx, rfl⟩, changes_iff_fills.2 ⟨_, hi, rfl⟩,
      changes_iff_fills.2 ⟨_, hb, rfl⟩, changes_iff_fills.2 ⟨_, hp, rfl⟩,
      (changes_nested_iff hnested).2 ⟨_, hq, rfl⟩⟩
  -- each field is filled with one value, and these values make up the overlay
  · intro h
    obtain ⟨targets, ht, ht'⟩ := changes_iff_fills.1 h.targets
    obtain ⟨extensions, he, he'⟩ := changes_iff_fills.1 h.extensions
    obtain ⟨exclude, hx, hx'⟩ := changes_iff_fills.1 h.exclude
    obtain ⟨respect, hi, hi'⟩ := changes_iff_fills.1 h.respectIgnoreFiles
    obtain ⟨batchSize, hb, hb'⟩ := changes_iff_fills.1 h.batchSize
    obtain ⟨parallel, hp, hp'⟩ := changes_iff_fills.1 h.parallel
    obtain ⟨report, hq, hq'⟩ := (changes_nested_iff hnested).1 h.report
    refine ⟨⟨targets, extensions, exclude, respect, batchSize, parallel, report⟩,
      overlayOf_eq_ok_iff.2 ⟨ht, he, hx, hi, hb, hp, hq⟩, ?_⟩
    rw [Overlay.apply, ht', he', hx', hi', hb', hp']
    exact congrArg (Settings.mk _ _ _ _ _ _) hq'

end Laid

/-! ## Whole texts

It remains to say, for either language, which fields a value has, and to put the parser in
front. -/

/-- What a node says of the report is what its fields say, if it has any. -/
theorem yamlReport_eq_ok_iff (root node : Yaml.Node) (o : ReportOverlay) :
    (yamlReader root).report node = .ok o ↔
      ∃ fields, (fieldsOfNode root node).toOption = some fields ∧
        (yamlReader root).reportOf fields = .ok o := by
  change (fieldsOfNode root node >>= (yamlScalars root).reportOf) = .ok o ↔ _
  cases fieldsOfNode root node with
  | error e => simp [bind, Except.bind, Except.toOption]
  | ok fields =>
    rw [bind_eq_ok_iff]
    simp only [Except.ok.injEq, exists_eq_left', Except.toOption, Option.some.injEq]
    rfl

/-- What a value says of the report is what its fields say, or its items in the order of the
fields. -/
theorem tomlReport_eq_ok_iff (value : Toml.Value) (o : ReportOverlay) :
    tomlReader.report value = .ok o ↔
      ∃ fields, nestedFields value = some fields ∧ tomlReader.reportOf fields = .ok o := by
  change reportOfValue value = .ok o ↔ _
  unfold reportOfValue nestedFields
  -- The two definitions match on the value in the same way, so each case is either the same
  -- fields on both sides or none.
  cases value with
  | table kind fields =>
    simp only [Option.some.injEq, exists_eq_left']
    rfl
  | array items =>
    simp only [Option.some.injEq, exists_eq_left']
    rfl
  | dateTime =>
    simp only [Option.some.injEq, exists_eq_left']
    rfl
  | tables items =>
    cases items with
    | nil =>
      simp only [Option.some.injEq, exists_eq_left']
      rfl
    | cons item items => simp
  | _ => simp

theorem readYaml_apply_iff {text : List Char} {before after : Settings} :
    (∃ o, readYaml text = .ok o ∧ o.apply before = after) ↔ SetsYaml text before after := by
  unfold readYaml SetsYaml
  cases Yaml.parse text with
  | error e => simp
  | ok document =>
    simp only [mapError_eq_ok_iff, Except.ok.injEq, exists_eq_left']
    cases document with
    | none =>
      simp only [overlayOfYaml, Except.ok.injEq, exists_eq_left']
      exact eq_comm
    | some root =>
      simp only [overlayOfYaml, bind_eq_ok_iff]
      simp only [← overlayOf_apply_iff (yamlReport_eq_ok_iff root)]
      constructor
      · rintro ⟨o, ⟨fields, hfields, ho⟩, hafter⟩
        exact ⟨fields, hfields, o, ho, hafter⟩
      · rintro ⟨fields, hfields, o, ho, hafter⟩
        exact ⟨o, ⟨fields, hfields, ho⟩, hafter⟩

theorem readToml_apply_iff {text : List Char} {before after : Settings} :
    (∃ o, readToml text = .ok o ∧ o.apply before = after) ↔ SetsToml text before after := by
  unfold readToml SetsToml
  cases Toml.parse text with
  | error e => simp
  | ok root =>
    simp only [mapError_eq_ok_iff, Except.ok.injEq, exists_eq_left']
    exact overlayOf_apply_iff tomlReport_eq_ok_iff

/-- **What is read from a text is what it says**, laid over the settings. -/
theorem setsAs_iff {form : FileForm} {p : Path} {text : List Char} {before after : Settings} :
    SetsAs form text before after ↔
      ∃ o, readAs form p text = .ok o ∧ o.apply before = after := by
  unfold SetsAs readAs
  cases form with
  | yaml => simp only [mapError_eq_ok_iff, readYaml_apply_iff]
  | toml => simp only [mapError_eq_ok_iff, readToml_apply_iff]
  -- An open form asks for TOML only after YAML has failed, and `SetsYaml` of no settings at
  -- all is the failure of the reader.
  | either =>
    simp only [← readYaml_apply_iff, ← readToml_apply_iff]
    cases readYaml text with
    | ok o => simp
    | error e => simp [mapError_eq_ok_iff]

/-- What is wrong with a text is told with the path of its file. -/
theorem readAs_eq_error {form : FileForm} {p : Path} {text : List Char} {e : LoadError}
    (h : readAs form p text = .error e) :
    (∃ cause, e = .yaml p cause) ∨ ∃ cause, e = .toml p cause := by
  unfold readAs at h
  cases form with
  | yaml =>
    obtain ⟨cause, -, rfl⟩ := mapError_eq_error_iff.1 h
    exact .inl ⟨cause, rfl⟩
  | toml =>
    obtain ⟨cause, -, rfl⟩ := mapError_eq_error_iff.1 h
    exact .inr ⟨cause, rfl⟩
  | either =>
    dsimp only at h
    cases hyaml : readYaml text with
    | ok overlay =>
      rw [hyaml] at h
      cases h
    | error _ =>
      rw [hyaml] at h
      obtain ⟨cause, -, rfl⟩ := mapError_eq_error_iff.1 h
      exact .inr ⟨cause, rfl⟩

end Unimported.Settings
