/-
Increments: how the verdicts follow a change of the files.

Two scans over the same texts are compared here. Whether a target is used depends on which files
export something, and not on their order, so a new order moves nobody to the other side. A new
file adds what it refers to itself, so it never makes another one unused; and a file that exports
nothing makes no difference at all. `verdicts_follow_changes` says so for two scans that may have
different batches, workers and turns.
-/
import Unimported.Proofs.Scan.Partition

set_option autoImplicit false

namespace Unimported.Scan

open Source (File referenceToken)

/-! ## Insertions

Files may be put in anywhere and any number of times, so the relation follows both lists at
once. -/

/-- The second list is the first one with files put in between, for which `P` holds. -/
inductive Interspersed (P : File → Prop) : List File → List File → Prop
  | nil : Interspersed P [] []
  /-- The next file stands in both lists. -/
  | keep {files files' : List File} (file : File) :
      Interspersed P files files' → Interspersed P (file :: files) (file :: files')
  /-- The next file is put in. -/
  | insert {files files' : List File} (file : File) :
      P file → Interspersed P files files' → Interspersed P files (file :: files')

/-- A filter that drops all that is put in gives the same for both lists. -/
theorem Interspersed.filter_eq {P : File → Prop} {keep : File → Bool} {files files' : List File}
    (h : Interspersed P files files') (hP : ∀ file, P file → keep file = false) :
    files'.filter keep = files.filter keep := by
  induction h with
  | nil => rfl
  | keep file _ ih => rw [List.filter_cons, List.filter_cons, ih]
  | insert file hfile _ ih => rw [List.filter_cons, hP file hfile, ih, if_neg Bool.false_ne_true]

/-! ## Who is used

To be used is to be referred to by some file, and that asks only which files there are. So a
new file can add a reason to be used and take none away. -/

section Texts

variable {texts : Path → Except String String} {files files' before after : List File}
  {target added : File}

/-- Only which files there are matters to a target. -/
theorem isUsed_congr (h : ∀ file, file ∈ files ↔ file ∈ files') :
    IsUsed texts files target ↔ IsUsed texts files' target := by
  simp only [IsUsed, h]

/-- **A file more.** A target is used then if it was used before, or if the new file stands at
another path and refers to it. -/
theorem isUsed_insert :
    IsUsed texts (before ++ added :: after) target ↔
      IsUsed texts (before ++ after) target ∨
        added.path.components ≠ target.path.components ∧ RefersTo texts added target := by
  have hmem : ∀ file, file ∈ before ++ added :: after ↔ file = added ∨ file ∈ before ++ after := by
    intro file
    simp only [List.mem_append, List.mem_cons]
    tauto
  constructor
  · rintro ⟨file, hfile, hother, hrefers⟩
    rcases (hmem file).1 hfile with rfl | hfile
    · exact .inr ⟨hother, hrefers⟩
    · exact .inl ⟨file, hfile, hother, hrefers⟩
  · rintro (⟨file, hfile, hother, hrefers⟩ | ⟨hother, hrefers⟩)
    · exact ⟨file, (hmem file).2 (.inr hfile), hother, hrefers⟩
    · exact ⟨added, (hmem added).2 (.inl rfl), hother, hrefers⟩

/-- A file never refers to another one at its own path, so one at a path of its own is used as the
other files say. -/
theorem isUsed_insert_self
    (h : ∀ file ∈ before ++ after, file.path.components ≠ added.path.components) :
    IsUsed texts (before ++ added :: after) added ↔
      ∃ file ∈ before ++ after, RefersTo texts file added := by
  rw [isUsed_insert]
  constructor
  · rintro (⟨file, hfile, -, hrefers⟩ | ⟨hother, -⟩)
    · exact ⟨file, hfile, hrefers⟩
    · exact absurd rfl hother
  · rintro ⟨file, hfile, hrefers⟩
    exact .inl ⟨file, hfile, h file hfile, hrefers⟩

end Texts

/-! ## Two scans

For either scan the two sides are known as filters. Comparing the scans is then comparing
the conditions of the filters, and workers and batches have dropped out. -/

/-- **The verdicts follow the files.** Over texts that do not change, and whatever the batches, the
workers and their turns in either scan: a new order of the exporting files gives both sides a new
order and moves no file to the other one. A file that is put in at a path of its own leaves all
used files used; an unused one becomes used exactly if the new file can be read and refers to it,
and the new one is used exactly if one of the others refers to it. And files that cannot be read,
or export nothing, may stand anywhere among the candidates without a difference. -/
theorem verdicts_follow_changes (texts : Path → Except String String) (crew crew' : Crew)
    (j j' : Journal) :
    (∀ files files' : List File, files.Perm files' →
      let c := (crew.crossReference (.fixed texts) files j).1
      let c' := (crew'.crossReference (.fixed texts) files' j').1
      c.used.Perm c'.used ∧ c.unused.Perm c'.unused) ∧
    (∀ (before after : List File) (added : File),
      (∀ file ∈ before ++ after, file.path.components ≠ added.path.components) →
      let c := (crew.crossReference (.fixed texts) (before ++ after) j).1
      let c' := (crew'.crossReference (.fixed texts) (before ++ added :: after) j').1
      c.used.Sublist c'.used ∧
        (∀ file ∈ c.unused, (file ∈ c'.used ↔ RefersTo texts added file) ∧
          (file ∈ c'.unused ↔ ¬ RefersTo texts added file)) ∧
        (added ∈ c'.used ↔ ∃ file ∈ before ++ after, RefersTo texts file added) ∧
        (added ∈ c'.unused ↔ ¬ ∃ file ∈ before ++ after, RefersTo texts file added)) ∧
    (∀ (batchSize batchSize' : Nat) (files files' : List File),
      Interspersed (fun file => ¬ Exports texts file) files files' →
      (crew'.detect (.fixed texts) batchSize' files' j').1
        = (crew.detect (.fixed texts) batchSize files j).1) := by
  refine ⟨fun files files' hperm => ?_, fun before after added hother => ?_,
    fun batchSize batchSize' files files' hinserted => ?_⟩
  · have hmem : ∀ file, file ∈ files ↔ file ∈ files' := fun file => hperm.mem_iff
    simp only [crossReference_fixed, isUsed_congr hmem]
    exact ⟨hperm.filter _, hperm.filter _⟩
  · have hadded : added ∈ before ++ added :: after :=
      List.mem_append_right before List.mem_cons_self
    have hkept : ∀ file ∈ before ++ after, file ∈ before ++ added :: after := fun file hfile =>
      ((List.sublist_cons_self added after).append_left before).subset hfile
    simp only [crossReference_fixed, List.mem_filter, decide_eq_true_eq]
    refine ⟨?_, ?_, ?_, ?_⟩
    · -- more targets pass the test, and there are more of them
      refine List.Sublist.trans (List.monotone_filter_right _ fun file hused => ?_)
        (((List.sublist_cons_self added after).append_left before).filter _)
      exact decide_eq_true (isUsed_insert.2 (.inl (of_decide_eq_true hused)))
    · rintro file ⟨hfile, hunused⟩
      have hiff : IsUsed texts (before ++ added :: after) file ↔ RefersTo texts added file := by
        rw [isUsed_insert]
        constructor
        · rintro (hused | ⟨-, hrefers⟩)
          · exact absurd hused hunused
          · exact hrefers
        · exact fun hrefers => .inr ⟨(hother file hfile).symm, hrefers⟩
      simp only [hiff, hkept file hfile, true_and]
    · rw [isUsed_insert_self hother]
      exact and_iff_right hadded
    · rw [isUsed_insert_self hother]
      exact and_iff_right hadded
  · have hexporting : (files'.filter fun file => Exports texts file)
        = files.filter fun file => Exports texts file :=
      hinserted.filter_eq fun file hfile => decide_eq_false hfile
    simp only [Crew.detect, bind_apply, classify_fixed, crossReference_fixed, hexporting]

/-- A file that nobody refers to becomes used when one that imports it is put in before it, and a
file without exports in their midst makes no difference. -/
theorem verdicts_follow_changes_widget :
    let widget := File.ofPath ⟨Text.Utf8.ofString "src/Widget.ts"⟩
    let app := File.ofPath ⟨Text.Utf8.ofString "src/App.ts"⟩
    let notes := File.ofPath ⟨Text.Utf8.ofString "src/notes.ts"⟩
    let texts : Path → Except String String := fun p =>
      if p = widget.path then .ok "export default 1"
      else if p = app.path then .ok "import W from './Widget'; export *"
      else .error "missing"
    let crew := Crew.single false
    let verdicts files := (crew.crossReference (.fixed texts) files .empty).1
    [app, widget].Perm [widget, app] ∧
      (verdicts [app, widget]).used.Perm (verdicts [widget, app]).used ∧
      (∀ file ∈ [] ++ [widget], file.path.components ≠ app.path.components) ∧
      widget ∈ (verdicts [widget]).unused ∧ widget ∈ (verdicts [app, widget]).used ∧
      Interspersed (fun file => ¬ Exports texts file) [app, widget] [app, notes, widget] ∧
      (crew.detect (.fixed texts) 1 [app, notes, widget] .empty).1
        = (crew.detect (.fixed texts) 7 [app, widget] .empty).1 := by
  intro widget app notes texts crew verdicts
  obtain ⟨hperms, hinserts, hdetects⟩ :=
    verdicts_follow_changes texts crew crew .empty .empty
  have hperm : [app, widget].Perm [widget, app] := .swap widget app []
  have hother : ∀ file ∈ [] ++ [widget], file.path.components ≠ app.path.components := by
    decide +kernel
  have hnotes : ¬ Exports texts notes := by decide +kernel
  have hunused : widget ∈ (verdicts ([] ++ [widget])).unused := by decide +kernel
  have hrefers : RefersTo texts app widget := mentionsIn_iff.1 (by decide +kernel)
  have hinserted : Interspersed (fun file => ¬ Exports texts file) [app, widget]
      [app, notes, widget] := .keep app (.insert notes hnotes (.keep widget .nil))
  -- from here on it does not matter what the texts and files are
  clear_value widget app notes texts crew
  exact ⟨hperm, (hperms _ _ hperm).1, hother, hunused,
    ((hinserts [] [widget] app hother).2.1 widget hunused).1.2 hrefers, hinserted,
    hdetects 7 1 _ _ hinserted⟩

end Unimported.Scan
