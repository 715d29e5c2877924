/-
Reads: which files a cross-reference asks for.

With fixed texts it can be said beforehand which files the search for a reference to a target reads:
the other files in order, up to the first one that refers to the target. A file at the target's own
path is never read, however the path is spelled, and nothing is read behind the hit. A
cross-reference makes one such search for each target, so that the reads of all are those of each;
`reads_stop_at_first_reference` is the main result.
-/
import Unimported.Proofs.Scan.Partition
import Mathlib.Algebra.Order.BigOperators.Group.List
import Mathlib.Algebra.Order.Group.Nat

set_option autoImplicit false

namespace Unimported.Scan

open Source (File referenceToken)

section Texts

variable (texts : Path → Except String String) (files : List File) (target : File)

instance (file target : File) : Decidable (RefersTo texts file target) :=
  decidable_of_iff _ mentionsIn_iff

/-- The candidates up to the first one that refers to the target, or all of them. -/
def upToReference (candidates : List File) : List File :=
  candidates.take (candidates.findIdx (fun file => RefersTo texts file target) + 1)

/-- What is read for a target: the files at paths with other components, up to the first one that
refers to it. -/
def searched : List File :=
  upToReference texts target
    (files.filter fun file => file.path.components ≠ target.path.components)

variable {texts files target}

/-- To refer to a target is to mention its token. -/
theorem mentionsIn_eq_decide (file : File) :
    mentionsIn (referenceToken target.path) (texts file.path)
      = decide (RefersTo texts file target) := by
  rw [Bool.eq_iff_iff, mentionsIn_iff, decide_eq_true_iff]

theorem others_eq_filter (target : Path) (files : List File) :
    others target files = files.filter fun file => file.path.components ≠ target.components := by
  simp [others, Path.same]

/-- What is read for a target stands at another path. -/
theorem components_ne_of_mem_searched {file : File} (h : file ∈ searched texts files target) :
    file.path.components ≠ target.path.components := by
  simpa using (List.mem_filter.1 (List.mem_of_mem_take h)).2

/-- A target among the files is not read for itself, so that less is read than there is. -/
theorem length_searched_le (htarget : target ∈ files) :
    (searched texts files target).length ≤ files.length - 1 := by
  have hothers : (files.filter fun file =>
      file.path.components ≠ target.path.components).length < files.length :=
    List.length_filter_lt_length_iff_exists.2 ⟨target, htarget, by simp⟩
  have htake : (searched texts files target).length ≤ _ := List.length_take_le' _ _
  exact Nat.le_sub_one_of_lt (Nat.lt_of_le_of_lt htake hothers)

/-! ## One search

What a search reads is known of any reader, in terms of what it has been told. With fixed
texts what it has been told are the texts, and so both the result and the reads can be
written down. -/

/-- **A search with fixed texts** finds the first of the other files that refers to the target, and
reads as far as that. -/
theorem Search.reads_others {deeds : List Deed} {found : Option File} (q : Purpose)
    (h : Search (referenceToken target.path) (others target.path files) deeds found)
    (hanswered : ∀ deed ∈ deeds, deed.Answered (.fixed texts)) :
    found = (files.filter fun file => file.path.components ≠ target.path.components).find?
        (fun file => RefersTo texts file target) ∧
      deeds.filterMap (Deed.reading? q)
        = (searched texts files target).map (readingOf texts q) := by
  have hfixed := h.fixed q hanswered
  simp only [upToMention, mentionsIn_eq_decide, others_eq_filter] at hfixed
  exact hfixed

/-- **The check of a target reads as far as the first reference.** -/
theorem comes_checkReference_fixed (q : Purpose) {deeds : List Deed} {flag : Bool}
    (h : (checkReference files target).Comes deeds flag)
    (hanswered : ∀ deed ∈ deeds, deed.Answered (.fixed texts)) :
    deeds.filterMap (Deed.reading? q) = (searched texts files target).map (readingOf texts q) := by
  obtain ⟨first, found, n, hsearch, rfl, -⟩ := comes_checkReference h
  obtain ⟨-, hreadings⟩ :=
    hsearch.reads_others q fun deed hdeed => hanswered deed (List.mem_append_left _ hdeed)
  rw [List.filterMap_append, hreadings]
  exact List.append_nil _

/-! ## Reads

The journal keeps the readings of all workers. They are the readings among the deeds, and
entering deeds keeps their order. -/

/-- The path that the deed asks for, if it is a reading. -/
def Deed.path? : Deed → Option Path
  | .read p _ => some p
  | _ => none

/-- Deeds that amount to the readings of these files ask for their paths. -/
theorem filterMap_path?_of_readings {deeds : List Deed} {files : List File} {q : Purpose}
    (h : deeds.filterMap (Deed.reading? q) = files.map (readingOf texts q)) :
    deeds.filterMap Deed.path? = files.map File.path := by
  have hpath : deeds.filterMap Deed.path?
      = (deeds.filterMap (Deed.reading? q)).map Reading.path := by
    rw [List.map_filterMap]
    refine List.filterMap_congr fun deed _ => ?_
    cases deed <;> rfl
  rw [hpath, h, List.map_map]
  rfl

theorem reads_enter (q : Purpose) (deed : Deed) (j : Journal) :
    (deed.enter q j).reads = j.reads ++ deed.path?.toList := by
  cases deed <;> simp [Deed.enter, Deed.path?, Journal.reads]

/-- The reads grow by those of the record, in order. -/
theorem reads_enterAll (purpose : Nat → Purpose) (record : Record) (j : Journal) :
    (enterAll purpose record j).reads = j.reads ++ record.filterMap (·.2.path?) := by
  induction record generalizing j with
  | nil => simp [enterAll]
  | cons d record ih =>
    obtain ⟨i, deed⟩ := d
    rw [enterAll_cons, ih, reads_enter, List.append_assoc]
    cases deed <;> rfl

/-- The reads grow by those of the deeds of a single check, in order. -/
theorem reads_foldl_enter (q : Purpose) (deeds : List Deed) (j : Journal) :
    (deeds.foldl (Deed.enter q) j).reads = j.reads ++ deeds.filterMap Deed.path? := by
  have hreads := reads_enterAll (fun _ => q) (deeds.map (Prod.mk 0)) j
  rwa [enterAll, List.foldl_map, List.filterMap_map] at hreads

variable (texts files target)

/-- **The search for a reference** finds the first of the other files that refers to the target,
and reads no further. -/
theorem findReference_fixed (j : Journal) :
    let out := findReference (.fixed texts) target files j
    out.1 = (files.filter fun file => file.path.components ≠ target.path.components).find?
        (fun file => RefersTo texts file target) ∧
      out.2.reads = j.reads ++ (searched texts files target).map File.path := by
  intro out
  obtain ⟨deeds, hanswered, hj, hcomes⟩ :=
    (searchReference target files).run_deeds (.fixed texts) (.reference 0) j
  obtain ⟨first, hsearch, rfl⟩ := comes_searchReference hcomes
  obtain ⟨hfound, hreadings⟩ := hsearch.reads_others (.reference 0) fun deed hdeed =>
    hanswered deed (List.mem_append_left _ hdeed)
  refine ⟨hfound, ?_⟩
  have hreads : out.2.reads = _ := (congrArg Journal.reads hj).trans (reads_foldl_enter _ _ _)
  rw [hreads, List.filterMap_append, filterMap_path?_of_readings hreadings]
  exact congrArg _ (List.append_nil _)

/-- The check of a target reads what the search for a reference reads. -/
theorem reads_checkReference (q : Purpose) (j : Journal) :
    ((checkReference files target).run (.fixed texts) q j).2.reads
      = j.reads ++ (searched texts files target).map File.path := by
  obtain ⟨deeds, hanswered, hj, hcomes⟩ :=
    (checkReference files target).run_deeds (.fixed texts) q j
  rw [hj, reads_foldl_enter,
    filterMap_path?_of_readings (comes_checkReference_fixed q hcomes hanswered)]

/-! ## All searches

Targets taken in order are read for in order. Taken in turns the reads come in some other
order, but those for one target keep theirs, since its check is one sequence of deeds
whoever comes between. -/

/-- Targets that are taken in order are searched for in order. -/
theorem reads_inOrder (place : Nat) (targets : List File) (j : Journal) :
    (Check.inOrder (.fixed texts) .reference place (targets.map (checkReference files)) j).2.reads
      = j.reads ++ targets.flatMap fun target => (searched texts files target).map File.path := by
  induction targets generalizing place j with
  | nil => simp [Check.inOrder]
  | cons target targets ih =>
    simp only [List.map_cons, Check.inOrder, bind_apply, pure_apply, ih, reads_checkReference,
      List.flatMap_cons, List.append_assoc]

/-- Targets that are searched for in turns are each searched for in order. -/
theorem asked_inTurns (turns : List Nat) (j : Journal) :
    let after := (Check.inTurns (.fixed texts) .reference turns
      (files.map (checkReference files)) j).2
    after.reads.Perm
        (j.reads ++ files.flatMap fun target => (searched texts files target).map File.path) ∧
      ∀ i target, files[i]? = some target →
        after.askedFor (.reference i) = j.askedFor (.reference i) ++
          (searched texts files target).map (readingOf texts (.reference i)) := by
  intro after
  obtain ⟨record, hj, hmade⟩ := inTurns_record (.fixed texts) .reference turns
    (files.map (checkReference files)) j
  constructor
  · rw [show after = _ from hj, reads_enterAll]
    refine List.Perm.append_left _ (hmade.perm_flatMap fun target deeds flag hcomes hanswered => ?_)
    exact filterMap_path?_of_readings
      (comes_checkReference_fixed (.reference 0) hcomes hanswered)
  · intro i target htarget
    obtain ⟨flag, -, hcomes, hanswered⟩ := hmade.of_getElem? htarget
    have hplace : ∀ k, Purpose.reference k = .reference i → k = i := fun k h => by cases h; rfl
    rw [show after = _ from hj, askedFor_enterAll hplace,
      comes_checkReference_fixed _ hcomes hanswered]

/-- All searches together read at most every file for every other one. -/
theorem length_flatMap_searched_le :
    (files.flatMap fun target => (searched texts files target).map File.path).length
      ≤ files.length * (files.length - 1) := by
  rw [List.length_flatMap]
  have heach : ∀ n ∈ files.map fun target =>
      ((searched texts files target).map File.path).length, n ≤ files.length - 1 := by
    intro n hn
    obtain ⟨target, htarget, rfl⟩ := List.mem_map.1 hn
    rw [List.length_map]
    exact length_searched_le htarget
  -- one search reads at most all files but the target itself
  have hsum := List.sum_le_card_nsmul _ _ heach
  rwa [List.length_map] at hsum

/-- A target is used exactly when the search for a reference to it comes to a file. -/
theorem isUsed_iff_findReference (j : Journal) :
    IsUsed texts files target ↔
      (findReference (.fixed texts) target files j).1.isSome = true := by
  rw [(findReference_fixed texts files target j).1, List.find?_isSome]
  simp only [IsUsed, List.mem_filter, decide_eq_true_eq, and_assoc]

end Texts

/-! ## The reads of a cross-reference

The statements for one search and for all searches are put together. The used targets are
found by the searches too, since a search stops at a file exactly if some file refers to the
target. -/

/-- **Reading stops at the first reference.** With fixed texts, the search for a reference to a
target, which may or may not be one of the files, comes to the first file at a path with other
components that can be read and whose text refers to the target. It reads those files up to this
one, each once and in order, or all of them if there is none; so it reads nothing behind the hit,
and nothing at a path that spells the target's.

In a cross-reference one such search is made for each target. What is read for a target is read in
order whatever the turns of the workers; all reads together are those of the searches, at most as
many as there are pairs of different places, and they stand in the order of the targets if these are
taken one after another. The used targets are those whose search comes to a file. -/
theorem reads_stop_at_first_reference (texts : Path → Except String String) (files : List File)
    (j : Journal) :
    (∀ target : File,
      let out := findReference (.fixed texts) target files j
      out.1 = (files.filter fun file => file.path.components ≠ target.path.components).find?
          (fun file => RefersTo texts file target) ∧
        out.2.reads = j.reads ++ (searched texts files target).map File.path ∧
        ∀ file ∈ searched texts files target, file.path.components ≠ target.path.components) ∧
    ∀ crew : Crew,
      let out := crew.crossReference (.fixed texts) files j
      let all := files.flatMap fun target => (searched texts files target).map File.path
      let found target := (findReference (.fixed texts) target files j).1.isSome
      out.2.reads.Perm (j.reads ++ all) ∧
        (crew.turnsAtTargets = [] → out.2.reads = j.reads ++ all) ∧
        (∀ i target, files[i]? = some target →
          out.2.askedFor (.reference i) = j.askedFor (.reference i) ++
            (searched texts files target).map (readingOf texts (.reference i))) ∧
        all.length ≤ files.length * (files.length - 1) ∧
        out.1 = ⟨files.filter fun target => found target,
          files.filter fun target => !found target⟩ := by
  constructor
  · intro target out
    obtain ⟨hfound, hreads⟩ := findReference_fixed texts files target j
    exact ⟨hfound, hreads, fun file => components_ne_of_mem_searched⟩
  · intro crew out all found
    obtain ⟨hreads, hasked⟩ := asked_inTurns texts files crew.turnsAtTargets
      (j.beginCrossReference files.length)
    refine ⟨hreads, fun hturns => ?_, hasked, length_flatMap_searched_le texts files, ?_⟩
    · have hinOrder := reads_inOrder texts files 0 files (j.beginCrossReference files.length)
      simp only [out, crossReference_apply, hturns, Check.inTurns]
      exact hinOrder
    -- a target is used exactly if its search comes to a file, so the filters agree
    · have hused : ∀ target, found target = decide (IsUsed texts files target) := fun target => by
        rw [Bool.eq_iff_iff, decide_eq_true_iff, isUsed_iff_findReference texts files target j]
      simp only [out, crossReference_fixed, hused, decide_not]

/-- Two files import the first one, and only the first of these two is read for it. -/
example :
    let file (name : String) := File.ofPath ⟨Text.Utf8.ofString name⟩
    let files := [file "a.ts", file "b.ts", file "c.ts"]
    (findReference (.fixed fun _ => .ok "import './a'") (file "a.ts") files .empty).2.reads
      = [⟨Text.Utf8.ofString "b.ts"⟩] := by
  decide

end Unimported.Scan
