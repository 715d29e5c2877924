/-
Assets: what becomes of image files in a scan.

A file is an asset by its extension, but a scan looks at nothing except texts. Assets are expected
to stay out of the report because images do not look like program text. That is true of most of
them only: an SVG image is a text, and may well hold a script. `assets_left_out_iff` says exactly
when a scan leaves all assets out, whatever the reader answers and whatever turns the workers take;
`exporting_asset_kept` is an image that gets in.
-/
import Unimported.Proofs.Scan.Fault
import Unimported.Proofs.Text.Utf8

set_option autoImplicit false

namespace Unimported.Scan

open Source (File Kind referenceToken)

/-! ## Assets and their names -/

/-- No file of the list is an asset. -/
def AllScripts (files : List File) : Prop := ∀ file ∈ files, file.kind = .script

instance (files : List File) : Decidable (AllScripts files) :=
  inferInstanceAs (Decidable (∀ file ∈ files, file.kind = .script))

/-- None of the assets among the candidates was seen to export anything. -/
def Journal.AssetsBare (j : Journal) (files : List File) : Prop :=
  ∀ i file, files[i]? = some file → file.kind = .asset → j.sawExports i = false

theorem kind_eq_script_iff {file : File} : file.kind = .script ↔ file.kind ≠ .asset := by
  cases file.kind <;> simp

/-! ## What is kept

Classification does not ask for the kind of a file, so whether an asset is kept is told by
what was read of it, as for any file. -/

section Scans

variable (crew : Crew) (reader : Reader)

/-- What is left of the candidates has no asset in it exactly if no asset was seen to export. -/
theorem allScripts_iff_of_classified {before after : Journal} {files kept : List File}
    (h : Classified before after 0 files kept) :
    AllScripts kept ↔ after.AssetsBare files := by
  -- a candidate is kept by its place
  have hkept : ∀ file, file ∈ kept ↔ ∃ i, files[i]? = some file ∧ after.sawExports i = true := by
    intro file
    rw [h.kept_eq]
    simp only [List.mem_map, List.mem_filter, Prod.exists, exists_and_right, exists_eq_right,
      List.mem_zipIdx_iff_getElem?]
  unfold AllScripts Journal.AssetsBare
  constructor
  · intro hscripts i file hfile hasset
    by_contra hsaw
    have hscript := hscripts file ((hkept file).2 ⟨i, hfile, by simpa using hsaw⟩)
    exact kind_eq_script_iff.1 hscript hasset
  · intro hbare file hfile
    obtain ⟨i, hi, hsaw⟩ := (hkept file).1 hfile
    rw [kind_eq_script_iff]
    intro hasset
    rw [hbare i file hi hasset] at hsaw
    exact Bool.false_ne_true hsaw

/-- To part files is to lose none and to add none. -/
theorem mem_parted_iff (j : Journal) (files : List File) (file : File) :
    file ∈ (j.parted files).used ++ (j.parted files).unused ↔ file ∈ files := by
  unfold Journal.parted
  simp only [← List.map_append, List.mem_map, List.mem_append, List.mem_filter, ← and_or_left]
  constructor
  · rintro ⟨⟨file, i⟩, ⟨hmem, -⟩, rfl⟩
    exact List.fst_mem_of_mem_zipIdx hmem
  · intro hfile
    obtain ⟨i, hi⟩ := List.mem_iff_getElem?.1 hfile
    refine ⟨(file, i), ⟨List.mem_zipIdx_iff_getElem?.2 hi, ?_⟩, rfl⟩
    cases j.sawReference i file <;> simp

/-! ## What is asked

A reading in the journal is one for a file among the candidates, so what it says can be
blamed on that file. -/

/-- References to a target are looked for in the other files only. -/
theorem crossReference_asks_others (files : List File) (j : Journal)
    (hfresh : ∀ n, j.askedFor (.reference n) = []) {i : Nat} {target : File}
    (htarget : files[i]? = some target) :
    ∀ r ∈ (crew.crossReference reader files j).2.askedFor (.reference i),
      ∃ file ∈ files, file.path = r.path := by
  intro r hr
  obtain ⟨record, hj, hmade⟩ := inTurns_record reader .reference crew.turnsAtTargets
    (files.map (checkReference files)) (j.beginCrossReference files.length)
  obtain ⟨flag, -, hcomes, -⟩ := hmade.of_getElem? htarget
  obtain ⟨searched, found, n, hsearch, hdeeds, -⟩ := comes_checkReference hcomes
  have hplace : ∀ k, Purpose.reference k = .reference i → k = i := by
    intro k hk
    simpa using hk
  rw [crossReference_apply, Journal.askedFor_endPhase, hj, askedFor_enterAll hplace,
    Journal.askedFor_beginCrossReference, hfresh, List.nil_append, hdeeds, List.filterMap_append,
    List.mem_append] at hr
  rcases hr with hr | hr
  · obtain ⟨file, hfile, hpath⟩ := hsearch.path_mem _ r hr
    exact ⟨file, (List.mem_filter.1 hfile).1, hpath⟩
  · -- behind the search there is no reading
    simp [Deed.reading?] at hr

/-! ## Exactly when assets are left out

Both directions come from what the journal says of each candidate. If no asset is kept, then
all that is read in the second phase are scripts, and only they can make a target used. -/

/-- **When assets are left out.** Whatever the reader answers, in batches of any size and with any
turns of the workers, classification keeps scripts alone exactly if no asset among the candidates
was read with a text that exports something; and exactly then none is listed as used or unused. Then
each target that counts as used does so by a text which a script among the candidates, at a path
with other components, was read with. -/
theorem assets_left_out_iff (batchSize : Nat) (files : List File) :
    let kept := crew.classify reader batchSize files .empty
    let parted := crew.crossReference reader kept.1 kept.2
    (AllScripts kept.1 ↔ kept.2.AssetsBare files) ∧
      (AllScripts (parted.1.used ++ parted.1.unused) ↔ kept.2.AssetsBare files) ∧
      parted.1 = parted.2.parted kept.1 ∧
      (kept.2.AssetsBare files → ∀ i target, kept.1[i]? = some target →
        parted.2.sawReference i target = true →
          ∃ file ∈ files, file.kind = .script ∧ file.path.same target.path = false ∧
            ∃ r ∈ parted.2.askedFor (.reference i), r.path = file.path ∧
              mentionsIn (referenceToken target.path) r.answer = true) := by
  intro kept parted
  have hkept : Classified .empty kept.2 0 files kept.1 :=
    classified_classify crew reader batchSize files .empty fun _ => rfl
  have hfresh : ∀ n, kept.2.askedFor (.reference n) = [] := fun n =>
    hkept.asked_else (.reference n) (by simp)
  have hscripts := allScripts_iff_of_classified hkept
  obtain ⟨hparted, -⟩ := crossReference_journal crew reader kept.1 kept.2 hfresh
  have hsame : AllScripts (parted.1.used ++ parted.1.unused) ↔ AllScripts kept.1 := by
    unfold AllScripts
    rw [show parted.1 = _ from hparted]
    simp only [mem_parted_iff]
  -- what remains is that a script is behind each target in use
  refine ⟨hscripts, hsame.trans hscripts, hparted, ?_⟩
  intro hbare i target htarget hsaw
  unfold Journal.sawReference at hsaw
  obtain ⟨r, hr, hmention⟩ := List.any_eq_true.1 hsaw
  rw [Bool.and_eq_true, Bool.not_eq_true'] at hmention
  obtain ⟨file, hfile, hpath⟩ := crossReference_asks_others crew reader kept.1 kept.2 hfresh htarget
    r hr
  have hmem : file ∈ files := by
    rw [show kept.1 = _ from hkept.kept_eq] at hfile
    obtain ⟨⟨file, k⟩, hx, rfl⟩ := List.mem_map.1 hfile
    exact List.fst_mem_of_mem_zipIdx (List.mem_filter.1 hx).1
  refine ⟨file, hmem, hscripts.2 hbare file hfile, ?_, r, hr, hpath.symm, hmention.2⟩
  rw [hpath]
  exact hmention.1

end Scans

/-- An image with a script in it: it is kept, it is listed as unused, and it makes another file
used. -/
theorem exporting_asset_kept :
    let icon := File.ofPath ⟨Text.Utf8.ofString "src/icon.svg"⟩
    let app := File.ofPath ⟨Text.Utf8.ofString "src/App.ts"⟩
    let text (p : Path) := if p = icon.path then
      "<svg><script>import './App'; export const x = 1;</script></svg>" else "export const x = 1;"
    let reader : Reader := .fixed fun p => .ok (text p)
    icon.kind = .asset ∧
      ¬ AllScripts (classify reader defaultBatchSize [icon, app] .empty).1 ∧
      (detect reader defaultBatchSize [icon, app] .empty).1 = ⟨[app], [icon]⟩ := by
  decide +kernel

end Unimported.Scan
