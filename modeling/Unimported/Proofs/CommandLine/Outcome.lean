/-
What a run comes to.

A run fails for one of few reasons, and of several the one that comes first counts: settings,
format, root, exclude patterns, output file. What is in the files of the project is none of them.
A run that fails leaves the disk as it was, and prints nothing unless it is for a reader; one that
succeeds prints its report, or writes it to a file (`Delivers`, `Shows`).
`run_outcome` is the main result.
-/
import Unimported.Proofs.CommandLine.Stages
import Unimported.Proofs.Settings.Exclude

set_option autoImplicit false

namespace Unimported.CommandLine

open Scan (reportOn)
open Settings (ExcludeError)

variable {around : Surroundings} {room : Glob.Room} {o : Options} {d : Disk} {s : Settings}
  {elapsed : Duration} {coloured : Bool}

/-! ## Exclude patterns

The patterns are read in order, so the error is that of the first text that is no glob.
`parses_or_malformed` finds that text by induction, and `excludes_or_bad` adds the globs
that cannot be used together. -/

/-- Each text is a glob, and these are the globs. -/
def Parses (texts : List String) (patterns : Settings.Excludes) : Prop :=
  List.Forall₂ (fun text pattern => Glob.parse text.toList = .ok pattern) texts patterns

/-- What is wrong with exclude patterns: the first that is no glob, or if there is none, globs that
cannot be used together, be it that one is too deep or that there is no room for all of them. -/
inductive BadExcludes (room : Glob.Room) (texts : List String) : ExcludeError → Prop
  | malformed {before after : List String} {text : String} {reason : Glob.Error} :
      texts = before ++ text :: after → (∃ patterns, Parses before patterns) →
      Glob.parse text.toList = .error reason → BadExcludes room texts (.malformed text reason)
  | unusable {patterns : Settings.Excludes} {reason : Glob.SetError} : Parses texts patterns →
      room.setError? Settings.excludeWildcards patterns = some reason →
      BadExcludes room texts (.unusable texts reason)

theorem parseExcludes_of_parses {texts : List String} {patterns : Settings.Excludes}
    (h : Parses texts patterns) : Settings.parseExcludes texts = .ok patterns :=
  Settings.parseExcludes_eq_ok_iff.2 h

theorem parseExcludes_malformed {before after : List String} {text : String}
    {patterns : Settings.Excludes} {reason : Glob.Error} (hbefore : Parses before patterns)
    (hparse : Glob.parse text.toList = .error reason) :
    Settings.parseExcludes (before ++ text :: after) = .error (.malformed text reason) := by
  induction hbefore with
  | nil => rw [List.nil_append, Settings.parseExcludes, hparse]
  | cons hfirst _ ih =>
    rw [List.cons_append, Settings.parseExcludes, hfirst]
    dsimp only
    rw [ih]
    rfl

theorem readExcludesIn_of_bad {texts : List String} {e : ExcludeError}
    (h : BadExcludes room texts e) : Settings.readExcludesIn room texts = .error e := by
  rw [Settings.readExcludesIn]
  cases h with
  | malformed htexts hbefore hparse =>
    obtain ⟨patterns, hbefore⟩ := hbefore
    rw [htexts, parseExcludes_malformed hbefore hparse]
    rfl
  | unusable hparses hset =>
    rw [parseExcludes_of_parses hparses]
    simp only [bind, Except.bind, hset]
    rfl

/-- Each text is a glob, or there is a first one that is none. The induction is on the texts. -/
theorem parses_or_malformed (texts : List String) :
    (∃ patterns, Parses texts patterns) ∨ ∃ before text after reason,
      texts = before ++ text :: after ∧ (∃ patterns, Parses before patterns) ∧
        Glob.parse text.toList = .error reason := by
  induction texts with
  | nil => exact .inl ⟨[], .nil⟩
  | cons text texts ih =>
    cases hparse : Glob.parse text.toList with
    | error reason => exact .inr ⟨[], text, texts, reason, rfl, ⟨[], .nil⟩, hparse⟩
    | ok pattern =>
      rcases ih with ⟨patterns, hparses⟩ |
        ⟨before, bad, after, reason, rfl, ⟨patterns, hbefore⟩, hbad⟩
      · exact .inl ⟨pattern :: patterns, .cons hparse hparses⟩
      · exact .inr ⟨text :: before, bad, after, reason, rfl,
          ⟨pattern :: patterns, .cons hparse hbefore⟩, hbad⟩

theorem excludes_or_bad (room : Glob.Room) (s : Settings) :
    (∃ excludes, s.excludesIn room = .ok excludes) ∨ ∃ e, BadExcludes room s.exclude e := by
  rcases parses_or_malformed s.exclude with ⟨patterns, hparses⟩ |
    ⟨before, text, after, reason, htexts, hbefore, hparse⟩
  · cases hset : room.setError? Settings.excludeWildcards patterns with
    | some reason => exact .inr ⟨_, .unusable hparses hset⟩
    | none =>
      exact .inl ⟨patterns,
        Settings.readExcludesIn_eq_ok_iff.2 ⟨parseExcludes_of_parses hparses, hset⟩⟩
  · exact .inr ⟨_, .malformed htexts hbefore hparse⟩

/-! ## Discovery

The root is looked at before the patterns are, and each failure says which question was
answered with no. -/

/-- The files cannot be found: there is no directory at the root, or the exclude patterns are
bad. -/
inductive FindFails (room : Glob.Room) (d : Disk) (s : Settings) (root : Path) :
    DiscoveryError → Prop
  | rootNotFound : d.hasAny root = false → FindFails room d s root (.rootNotFound root)
  | notADirectory : d.hasAny root = true → d.hasDirectory root = false →
      FindFails room d s root (.notADirectory root)
  | invalidExclude {e : ExcludeError} : d.hasDirectory root = true →
      BadExcludes room s.exclude e → FindFails room d s root (.invalidExclude e)

theorem findIn_of_findFails {root : Path} {e : DiscoveryError} (h : FindFails room d s root e) :
    (Discovery.findIn room d s root).files = .error e := by
  cases h with
  | rootNotFound hany =>
    rw [Discovery.findIn, hany]
    rfl
  | notADirectory hany hdirectory =>
    rw [Discovery.findIn, hany, hdirectory]
    rfl
  | invalidExclude hdirectory hbad =>
    rw [Discovery.findIn_of_excludes_error hdirectory (readExcludesIn_of_bad hbad)]

theorem finds_or_findFails (room : Glob.Room) (d : Disk) (s : Settings) (root : Path) :
    (∃ files, (Discovery.findIn room d s root).files = .ok files) ∨
      ∃ e, FindFails room d s root e := by
  cases hany : d.hasAny root with
  | false => exact .inr ⟨_, .rootNotFound hany⟩
  | true =>
    cases hdirectory : d.hasDirectory root with
    | false => exact .inr ⟨_, .notADirectory hany hdirectory⟩
    | true =>
      rcases excludes_or_bad room s with ⟨excludes, hexcludes⟩ | ⟨e, hbad⟩
      · exact .inl ⟨_, Discovery.findIn_files hdirectory hexcludes⟩
      · exact .inr ⟨_, .invalidExclude hdirectory hbad⟩

/-! ## Failures

`Fails` has a constructor for each reason, with what must have gone well before it. A run
that fails and one that succeeds exclude each other, since what they leave differs, and one
of the two is always the case. So `failure_iff` needs no argument why two reasons cannot
both apply. -/

/-- **Why a run fails.** Each reason takes it that none of those before it applies. What the files
of the project hold, and whether they can be read, is no part of any reason. -/
inductive Fails (room : Glob.Room) (o : Options) (d : Disk) : Failure → Prop
  | settings {e : Settings.LoadError} : LoadFails o d e → Fails room o d (.settings e)
  | unknownFormat {s : Settings} : Loads o d s → Report.Format.ofName? s.report.format = none →
      Fails room o d (.unknownFormat s.report.format)
  | discovery {s : Settings} {format : Report.Format} {e : DiscoveryError} : Loads o d s →
      Report.Format.ofName? s.report.format = some format → FindFails room d s o.root e →
      Fails room o d (.discovery e)
  | unwritable {s : Settings} {p : Path} {cause : Trouble} : Loads o d s →
      Report.Format.ofName? s.report.format = some .json → (∀ e, ¬ FindFails room d s o.root e) →
      o.output = some p → d.Unwritable p cause → Fails room o d (.unwritable p cause)

/-- How a run succeeds: with files to report on, which it does for a reader, on the standard output,
or in a file. -/
inductive Succeeds (o : Options) (d : Disk) (s : Settings) (files : List Source.File) : Prop
  | shown : Report.Format.ofName? s.report.format = some .terminal → Succeeds o d s files
  | printed : Report.Format.ofName? s.report.format = some .json → o.output = none →
      Succeeds o d s files
  | written {p : Path} {names : List Name} : Report.Format.ofName? s.report.format = some .json →
      o.output = some p → d.Writable p names → Succeeds o d s files

/-- **A run fails, or it succeeds.** -/
theorem fails_or_succeeds (room : Glob.Room) (o : Options) (d : Disk) :
    (∃ f, Fails room o d f) ∨ ∃ s files, Loads o d s ∧
      (Discovery.findIn room d s o.root).files = .ok files ∧ Succeeds o d s files := by
  -- one question after the other, in the order of a run
  rcases loads_or_loadFails o d with ⟨s, hloads⟩ | ⟨e, hfails⟩
  · cases hformat : Report.Format.ofName? s.report.format with
    | none => exact .inl ⟨_, .unknownFormat hloads hformat⟩
    | some format =>
      rcases finds_or_findFails room d s o.root with ⟨files, hfiles⟩ | ⟨e, hfails⟩
      · cases format with
        | terminal => exact .inr ⟨s, files, hloads, hfiles, .shown hformat⟩
        | json =>
          cases houtput : o.output with
          | none => exact .inr ⟨s, files, hloads, hfiles, .printed hformat houtput⟩
          | some p =>
            rcases Disk.writable_or_unwritable d p with ⟨names, hp⟩ | ⟨cause, hp⟩
            · exact .inr ⟨s, files, hloads, hfiles, .written hformat houtput hp⟩
            · refine .inl ⟨_, .unwritable hloads hformat ?_ houtput hp⟩
              intro e hfails
              rw [findIn_of_findFails hfails] at hfiles
              cases hfiles
      · exact .inl ⟨_, .discovery hloads hformat hfails⟩
  · exact .inl ⟨_, .settings hfails⟩

/-- **What a run that fails leaves**: the disk as it was, and nothing printed unless it is for a
reader. -/
theorem run_of_fails (around : Surroundings) (coloured : Bool) (elapsed : Duration) {f : Failure}
    (h : Fails around.room o d f) :
    ∃ output, Leaves (around.run coloured d elapsed o) (some f) output d ∧
      ((∀ s, Loads o d s → Report.Format.ofName? s.report.format ≠ some .terminal) →
        output = "") := by
  -- each reason stops the run at its own stage, and what was printed before is at most the
  -- heading
  cases h with
  | settings hfails => exact ⟨"", run_of_loadFails around coloured elapsed hfails, fun _ => rfl⟩
  | unknownFormat hloads hformat =>
    exact ⟨"", run_of_unknownFormat around coloured elapsed hloads hformat, fun _ => rfl⟩
  | @discovery s format e hloads hformat hfails =>
    have hleaves := run_of_discovery around coloured elapsed hloads hformat
      (findIn_of_findFails hfails)
    refine ⟨_, hleaves, fun hreader => ?_⟩
    cases format with
    | terminal => exact absurd hformat (hreader s hloads)
    | json => rfl
  | @unwritable s p cause hloads hformat hfinds houtput hp =>
    rcases finds_or_findFails around.room d s o.root with ⟨files, hfiles⟩ | ⟨e, hfails⟩
    · have hleaves := run_unwritable around coloured elapsed hloads hformat hfiles houtput hp
      exact ⟨"", hleaves, fun _ => rfl⟩
    · exact absurd hfails (hfinds e)

theorem run_of_succeeds (around : Surroundings) (coloured : Bool) (elapsed : Duration)
    {files : List Source.File}
    (hloads : Loads o d s) (hfiles : (Discovery.findIn around.room d s o.root).files = .ok files)
    (h : Succeeds o d s files) : (around.run coloured d elapsed o).failure = none := by
  cases h with
  | shown hformat => exact (run_terminal around coloured elapsed hloads hformat hfiles).failure
  | printed hformat houtput =>
    exact (run_json around coloured elapsed hloads hformat hfiles houtput).failure
  | written hformat houtput hp =>
    have hwrite := Disk.write_of_writable hp
      (Text.Utf8.ofString (reportOn around.texts elapsed files).toJson)
    exact (run_json_file around coloured elapsed hloads hformat hfiles houtput hwrite).failure

/-- **A run fails for the first reason that applies**, and for none it succeeds. -/
theorem failure_iff {f : Failure} :
    (around.run coloured d elapsed o).failure = some f ↔ Fails around.room o d f := by
  constructor
  · intro h
    rcases fails_or_succeeds around.room o d with ⟨f', hfails⟩ |
      ⟨s, files, hloads, hfiles, hsucceeds⟩
    · obtain ⟨output, hleaves, -⟩ := run_of_fails around coloured elapsed hfails
      rw [hleaves.failure] at h
      exact Option.some.inj h ▸ hfails
    · rw [run_of_succeeds around coloured elapsed hloads hfiles hsucceeds] at h
      cases h
  · intro h
    obtain ⟨output, hleaves, -⟩ := run_of_fails around coloured elapsed h
    exact hleaves.failure

/-! ## What a run delivers

These are for runs that are compared with each other: whether the document is printed or
written, and what stays of a run for readers, each with the case of failure in it. -/

/-- A run whose report is this document: it prints it or writes it to its file, unless it fails. -/
structure Delivers (o : Options) (d : Disk) (r : Outcome) (document : String) : Prop where
  printed : r.code = 0 → o.output = none → r.output = document ++ "\n" ∧ r.disk = d
  written : r.code = 0 → ∀ p, o.output = some p →
    r.output = "" ∧ d.write p (Text.Utf8.ofString document) = .ok r.disk ∧
      r.disk.readBytes p = .ok (Text.Utf8.ofString document)
  failed : r.code = 1 → r.output = "" ∧ r.disk = d

/-- A run for readers: it prints the heading, and then this report, unless it fails. -/
structure Shows (d : Disk) (r : Outcome) (heading report : String) : Prop where
  shown : r.code = 0 → r.output = heading ++ report
  failed : r.code = 1 → r.output = heading
  disk : r.disk = d

/-- A run that fails delivers no document, so it may be any. -/
theorem delivers_of_failure {r : Outcome} {f : Failure} (h : Leaves r (some f) "" d)
    (document : String) : Delivers o d r document where
  printed hcode := absurd hcode h.code_ne_zero
  written hcode := absurd hcode h.code_ne_zero
  failed _ := ⟨h.output, h.disk⟩

theorem delivers_of_files (around : Surroundings) (coloured : Bool) (elapsed : Duration)
    {files : List Source.File} (hloads : Loads o d s)
    (hformat : Report.Format.ofName? s.report.format = some .json)
    (hfiles : (Discovery.findIn around.room d s o.root).files = .ok files) :
    Delivers o d (around.run coloured d elapsed o)
      (reportOn around.texts elapsed files).toJson := by
  cases houtput : o.output with
  | none =>
    -- the report is printed
    have hleaves := run_json around coloured elapsed hloads hformat hfiles houtput
    refine ⟨fun _ _ => ⟨hleaves.output, hleaves.disk⟩, ?_, fun hcode => ?_⟩
    · intro _ p hp
      rw [houtput] at hp
      cases hp
    · exact absurd hcode hleaves.code_ne_one
  | some p =>
    rcases Disk.writable_or_unwritable d p with ⟨names, hp⟩ | ⟨cause, hp⟩
    · -- the report is written to a file
      have hwrite := Disk.write_of_writable hp
        (Text.Utf8.ofString (reportOn around.texts elapsed files).toJson)
      have hleaves := run_json_file around coloured elapsed hloads hformat hfiles houtput hwrite
      refine ⟨fun _ hnone => ?_, fun _ p' hp' => ?_, fun hcode => ?_⟩
      · rw [houtput] at hnone
        cases hnone
      · obtain rfl : p = p' := Option.some.inj (houtput.symm.trans hp')
        rw [hleaves.disk]
        exact ⟨hleaves.output, hwrite, Disk.readBytes_write hwrite⟩
      · exact absurd hcode hleaves.code_ne_one
    · have hleaves := run_unwritable around coloured elapsed hloads hformat hfiles houtput hp
      exact delivers_of_failure hleaves _

theorem delivers_of_findFails (around : Surroundings) (coloured : Bool) (elapsed : Duration)
    {e : DiscoveryError}
    (hloads : Loads o d s) (hformat : Report.Format.ofName? s.report.format = some .json)
    (hfails : FindFails around.room d s o.root e) (document : String) :
    Delivers o d (around.run coloured d elapsed o) document := by
  have hleaves := run_of_discovery around coloured elapsed hloads hformat
    (findIn_of_findFails hfails)
  exact delivers_of_failure hleaves document

theorem shows_of_files (around : Surroundings) (coloured : Bool) (elapsed : Duration)
    {files : List Source.File}
    (hloads : Loads o d s) (hformat : Report.Format.ofName? s.report.format = some .terminal)
    (hfiles : (Discovery.findIn around.room d s o.root).files = .ok files) :
    Shows d (around.run coloured d elapsed o) (heading coloured o .terminal)
      ((reportOn around.texts elapsed files).toTerminal coloured s.report.showUsed) := by
  have hleaves := run_terminal around coloured elapsed hloads hformat hfiles
  exact ⟨fun _ => hleaves.output, fun hcode => absurd hcode hleaves.code_ne_one, hleaves.disk⟩

theorem shows_of_findFails (around : Surroundings) (coloured : Bool) (elapsed : Duration)
    {e : DiscoveryError}
    (hloads : Loads o d s) (hformat : Report.Format.ofName? s.report.format = some .terminal)
    (hfails : FindFails around.room d s o.root e) (report : String) :
    Shows d (around.run coloured d elapsed o) (heading coloured o .terminal) report := by
  have hleaves := run_of_discovery around coloured elapsed hloads hformat
    (findIn_of_findFails hfails)
  exact ⟨fun hcode => absurd hcode hleaves.code_ne_zero, fun _ => hleaves.output, hleaves.disk⟩

/-! ## The main result

The code is read off the failure. A document for a file is compared with the run that prints
it, which loads the same settings, as the output file is no part of them. -/

theorem code_eq_one_iff :
    (around.run coloured d elapsed o).code = 1 ↔ ∃ f, Fails around.room o d f := by
  rw [Outcome.code]
  cases hfailure : (around.run coloured d elapsed o).failure with
  | none =>
    refine iff_of_false Nat.zero_ne_one ?_
    rintro ⟨f, hfails⟩
    rw [failure_iff.2 hfails] at hfailure
    cases hfailure
  | some f => exact iff_of_true rfl ⟨f, failure_iff.1 hfailure⟩

/-- The settings do not depend on where the document goes. -/
theorem Loads.withoutOutput (h : Loads o d s) : Loads { o with output := none } d s := by
  obtain ⟨hoffers⟩ := h
  cases hoffers with
  | chosen hfile hread hparse => exact .intro (.chosen hfile hread hparse)
  | default hfile => exact .intro (.default hfile)

/-- A document that is written to a file is the one that is printed without a file. -/
theorem written_document (around : Surroundings) (coloured : Bool) (elapsed : Duration) {p : Path}
    (hloads : Loads o d s)
    (hformat : Report.Format.ofName? s.report.format = some .json) (houtput : o.output = some p)
    (hcode : (around.run coloured d elapsed o).code = 0) :
    ∃ document,
      (around.run coloured d elapsed { o with output := none }).output = document ++ "\n" ∧
      (around.run coloured d elapsed o).output = "" ∧
      (around.run coloured d elapsed o).disk.readBytes p = .ok (Text.Utf8.ofString document) := by
  rcases finds_or_findFails around.room d s o.root with ⟨files, hfiles⟩ | ⟨e, hfails⟩
  · have hprints := run_json around coloured elapsed hloads.withoutOutput hformat hfiles rfl
    have hdelivers := delivers_of_files around coloured elapsed hloads hformat hfiles
    obtain ⟨hsilent, -, hread⟩ := hdelivers.written hcode p houtput
    exact ⟨_, hprints.output, hsilent, hread⟩
  · have hleaves := run_of_discovery around coloured elapsed hloads hformat
      (findIn_of_findFails hfails)
    exact absurd hcode hleaves.code_ne_zero

/-- **What a run comes to**, whatever its surroundings. Its exit code is one exactly if something
fails, and zero otherwise; the failure that is reported is the first one in the order of `Fails`,
whatever is in the files of the project and whichever of them can be read. If the code is one the
disk is as it was, and nothing is printed if the format is not that for readers. If it is zero, and
the document was to go to a file, nothing is printed either, and the file holds what would have been
printed without it, but for the line end. -/
theorem run_outcome (around : Surroundings) (coloured : Bool) (d : Disk) (elapsed : Duration)
    (o : Options) :
    let r := around.run coloured d elapsed o
    (∀ f, r.failure = some f ↔ Fails around.room o d f) ∧
      (r.code = 1 ↔ ∃ f, Fails around.room o d f) ∧
      (r.code = 0 ↔ ∀ f, ¬ Fails around.room o d f) ∧
      (r.code = 1 → r.disk = d ∧
        ((∀ s, Loads o d s → Report.Format.ofName? s.report.format ≠ some .terminal) →
          r.output = "")) ∧
      ∀ s p, r.code = 0 → Loads o d s → Report.Format.ofName? s.report.format = some .json →
        o.output = some p → r.output = "" ∧ ∃ document,
          r.disk.readBytes p = .ok (Text.Utf8.ofString document) ∧
          (around.run coloured d elapsed { o with output := none }).output = document ++ "\n" := by
  intro r
  -- there are no other codes
  have hzero : r.code = 0 ↔ ∀ f, ¬ Fails around.room o d f := by
    have hcode : r.code = 0 ↔ ¬ r.code = 1 := by
      rw [Outcome.code]
      split <;> simp
    rw [hcode, code_eq_one_iff, not_exists]
  refine ⟨fun f => failure_iff, code_eq_one_iff, hzero, ?_, ?_⟩
  · intro hcode
    obtain ⟨f, hfails⟩ := code_eq_one_iff.1 hcode
    obtain ⟨output, hleaves, hquiet⟩ := run_of_fails around coloured elapsed hfails
    refine ⟨hleaves.disk, fun hreader => ?_⟩
    rw [hleaves.output]
    exact hquiet hreader
  · intro s p hcode hloads hformat houtput
    obtain ⟨document, hprinted, hsilent, hread⟩ :=
      written_document around coloured elapsed hloads hformat houtput hcode
    exact ⟨hsilent, document, hread, hprinted⟩

/-- **Globs can fail together.** Here each exclude pattern is a glob, and yet the run fails, however
much room there is: the braces of the last one are too deep for it to be used. The failure names all
patterns. -/
theorem valid_patterns_fail :
    let deep := String.ofList (Glob.braces 250)
    let d : Disk := ⟨.directory (.cons (Text.Utf8.ofString "p") (.directory .nil) .nil), []⟩
    let o := { Options.empty with
      path := some (Path.ofString "p"), exclude := [deep], format := some .json }
    let s := o.override Settings.default
    Loads o d s ∧ Report.Format.ofName? s.report.format = some .json ∧
      d.hasDirectory o.root = true ∧ s.exclude = ["**/node_modules/**", "**/dist/**", deep] ∧
      (∃ patterns, Parses s.exclude patterns) ∧ o.output = none ∧
      ∀ (around : Surroundings) (coloured : Bool) (elapsed : Duration),
        (around.run coloured d elapsed o).code = 1 ∧
        ∃ reason, (around.run coloured d elapsed o).failure
          = some (.discovery (.invalidExclude (.unusable s.exclude reason))) := by
  intro deep d o s
  have hloads : Loads o d s := .intro (.default (by decide +kernel))
  have hformat : Report.Format.ofName? s.report.format = some .json := by decide +kernel
  have hroot : d.hasDirectory o.root = true := by decide +kernel
  have hexclude : s.exclude = ["**/node_modules/**", "**/dist/**", deep] := rfl
  have houtput : o.output = none := rfl
  obtain ⟨modules, hmodules⟩ : ∃ pattern, Glob.parse "**/node_modules/**".toList = .ok pattern :=
    ⟨_, rfl⟩
  obtain ⟨dist, hdist⟩ : ∃ pattern, Glob.parse "**/dist/**".toList = .ok pattern := ⟨_, rfl⟩
  -- the braces are read by the general lemma, not by evaluation
  have hdeep : Glob.parse deep.toList = .ok [Glob.nested 250] := by
    rw [String.toList_ofList, Glob.parse_braces]
  have hparses : Parses s.exclude [modules, dist, [Glob.nested 250]] := by
    rw [hexclude]
    exact .cons hmodules (.cons hdist (.cons hdeep .nil))
  refine ⟨hloads, hformat, hroot, hexclude, ⟨_, hparses⟩, houtput, ?_⟩
  intro around coloured elapsed
  obtain ⟨reason, hset⟩ : ∃ reason, around.room.setError? Settings.excludeWildcards
      [modules, dist, [Glob.nested 250]] = some reason :=
    Glob.setError?_nested (Nat.le_refl 250) (by simp)
  have hfails : Fails around.room o d (.discovery (.invalidExclude (.unusable s.exclude reason))) :=
    .discovery hloads hformat (.invalidExclude hroot (.unusable hparses hset))
  exact ⟨code_eq_one_iff.2 ⟨_, hfails⟩, reason, failure_iff.2 hfails⟩

end Unimported.CommandLine
