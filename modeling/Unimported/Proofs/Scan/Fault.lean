/-
Faults: what a scan comes to when anything may happen to the files meanwhile.

Nothing is assumed of the reader here. Files may change, vanish and come back between two
readings, and workers may take any turns. The report is then a function of the journal: each
reading is entered with the check that asked for it, and from these entries alone one can tell
which candidates were kept and which targets were found to be used. `run_reports_journal` is the
main result. It says in particular that the exporting files are parted without loss, that nothing
counts as used without a reading of its own check to show for it, and that each failed reading has
left its warning.
-/
import Unimported.Proofs.Scan.Batches
import Unimported.Proofs.Scan.Phases
import Unimported.Proofs.Scan.Verdict

set_option autoImplicit false

namespace Unimported.Scan

open Source (File referenceToken)

/-! ## The report that a journal justifies

Each definition reads the journal and nothing else: not the turns, and not the reader. A
reading counts only for the check that asked for it, so what was seen for a candidate or a
target is told by its place. -/

namespace Journal

/-- Whether the check of the candidate at this place read a text that exports something. -/
def sawExports (j : Journal) (place : Nat) : Bool :=
  (j.askedFor (.exports place)).any fun r => exportsIn r.answer

/-- Whether the check of the target at this place read, at a path with other components, a text
that mentions the token of the target. -/
def sawReference (j : Journal) (place : Nat) (target : File) : Bool :=
  (j.askedFor (.reference place)).any fun r =>
    !r.path.same target.path && mentionsIn (referenceToken target.path) r.answer

/-- The candidates that were seen to export something, in order. -/
def exporting (j : Journal) (files : List File) : List File :=
  (files.zipIdx.filter fun x => j.sawExports x.2).map Prod.fst

/-- The exporting files, parted by whether another one was seen to refer to them, both in order. -/
def parted (j : Journal) (files : List File) : Classification :=
  ⟨(files.zipIdx.filter fun x => j.sawReference x.2 x.1).map Prod.fst,
    (files.zipIdx.filter fun x => !j.sawReference x.2 x.1).map Prod.fst⟩

/-- The warnings about unreadable files are those that the failed readings call for, and some
others, up to the order. -/
def Warned (others : List Log.Line) (j : Journal) : Prop :=
  (j.log.filter isSkip).Perm (j.readings.filterMap Reading.skipLine? ++ others)

/-- Each answer in the journal is the one that the reader gave, after all readings before it. -/
def Faithful (reader : Reader) (j : Journal) : Prop :=
  ∀ r earlier, (r :: earlier) <:+ j.readings → r.answer = reader earlier r.path

end Journal

/-! ## Answers

The reader sees all readings so far, so an answer is faithful if it is the one given after
the readings that stand before it. -/

/-- A step enters the answer that the reader gives. -/
theorem faithful_step {α : Type} {reader : Reader} (purpose : Purpose) (check : Check α)
    (j : Journal) (hj : j.Faithful reader) : (check.step reader purpose j).2.Faithful reader := by
  cases check with
  | read p next =>
    intro r earlier hsuffix
    rcases List.suffix_cons_iff.1 hsuffix with heq | hsuffix
    · -- the reading that this step made
      obtain ⟨rfl, rfl⟩ := List.cons.inj heq
      rfl
    · exact hj r earlier hsuffix
  | _ => exact hj

/-! ## Warnings

A check warns of a reading that failed, perhaps not at once. Over all its deeds there are as
many warnings as failures, and whatever the turns, the record has the deeds of all checks.
So the two lists agree up to the order, which is all that is said of them. -/

theorem skipLine?_reading? (purpose : Purpose) (deed : Deed) :
    (deed.reading? purpose).bind Reading.skipLine? = deed.skipLine? := by
  cases deed with
  | read p answer => cases answer <;> rfl
  | _ => rfl

/-- Checks that account for their failed readings, made together, leave the warnings complete. -/
theorem warned_enterAll {α β : Type} {reader : Reader} {items : List β} {check : β → Check α}
    {record : Record} {results : List α} {others : List Log.Line} {j : Journal}
    (purpose : Nat → Purpose) (hmade : Made reader (items.map check) record results)
    (hcheck : ∀ item deeds a, (check item).Comes deeds a → Accounted deeds)
    (hj : j.Warned others) : (enterAll purpose record j).Warned others := by
  have hperm : (record.filterMap fun d => d.2.line?.filter isSkip).Perm
      (record.filterMap (·.2.skipLine?)) :=
    hmade.perm_filterMap (f := fun deed => deed.line?.filter isSkip) (g := Deed.skipLine?)
      fun item deeds a hcomes => by
        rw [← hcheck item deeds a hcomes, ← List.filterMap_eq_filter, List.filterMap_filterMap]
        refine List.filterMap_congr fun deed _ => ?_
        cases deed.line? <;> rfl
  -- what the journal keeps of the record, picked deed by deed
  have hlines : (record.filterMap (·.2.line?)).filter isSkip
      = record.filterMap fun d => d.2.line?.filter isSkip := by
    rw [← List.filterMap_eq_filter, List.filterMap_filterMap]
    refine List.filterMap_congr fun d _ => ?_
    cases d.2.line? <;> rfl
  have hskips : (record.filterMap fun d => d.2.reading? (purpose d.1)).filterMap Reading.skipLine?
      = record.filterMap (·.2.skipLine?) := by
    rw [List.filterMap_filterMap]
    exact List.filterMap_congr fun d _ => skipLine?_reading? _ _
  unfold Journal.Warned at *
  rw [enterAll_log, enterAll_readings, List.filter_append, List.filterMap_append,
    List.filter_reverse, List.filterMap_reverse, hlines, hskips, List.append_assoc]
  exact ((List.reverse_perm _).trans (hperm.trans (List.reverse_perm _).symm)).append hj

/-- The phases themselves warn of nothing. -/
theorem warned_endPhase {others : List Log.Line} {j : Journal} {line : Log.Line}
    (hline : isSkip line = false) (phase : Phase) (count : Nat) (hj : j.Warned others) :
    (j.endPhase phase count line).Warned others := by
  unfold Journal.Warned Journal.endPhase at *
  rwa [List.filter_cons_of_neg (by simp [hline])]

theorem filterMap_skipLine?_length (readings : List Reading) :
    (readings.filterMap Reading.skipLine?).length = readings.countP Reading.failed := by
  induction readings with
  | nil => rfl
  | cons r readings ih =>
    obtain ⟨purpose, p, answer⟩ := r
    cases answer <;>
      simp [List.filterMap_cons, List.countP_cons, Reading.skipLine?, Reading.failed, ih]

/-! ## Classification

The batches are classified one behind the other, and each leaves readings for its own places
only. `Classified` is what one batch leaves, `Classified.append` puts two of them together,
and the rest is induction on the batches. -/

/-- What it leaves behind to classify files, the first of which stands at `place`: each file has
been asked for once, it is kept if the answer says so, and nothing else has been asked for. -/
structure Classified (before after : Journal) (place : Nat) (files kept : List File) : Prop where
  kept_eq : kept = ((files.zipIdx place).filter fun x => after.sawExports x.2).map Prod.fst
  asked_once : ∀ i file, files[i]? = some file → ∃ answer,
    after.askedFor (.exports (place + i)) = [⟨.exports (place + i), file.path, answer⟩]
  asked_else : ∀ q, (∀ i < files.length, .exports (place + i) ≠ q) →
    after.askedFor q = before.askedFor q

/-- Classifying some files and then others that stand behind them is classifying them all. The
others add no reading for the places of the first ones. -/
theorem Classified.append {before between after : Journal} {place : Nat}
    {files files' kept kept' : List File} (h : Classified before between place files kept)
    (h' : Classified between after (place + files.length) files' kept') :
    Classified before after place (files ++ files') (kept ++ kept') := by
  have hsame : ∀ i < files.length,
      after.askedFor (.exports (place + i)) = between.askedFor (.exports (place + i)) := by
    intro i hi
    refine h'.asked_else _ fun k _ hk => ?_
    simp only [Purpose.exports.injEq] at hk
    omega
  refine ⟨?_, fun i file hfile => ?_, fun q hq => ?_⟩
  · -- the flags of the first files can be read off the later journal just as well
    have hfirst : ((files.zipIdx place).filter fun x => between.sawExports x.2)
        = (files.zipIdx place).filter fun x => after.sawExports x.2 := by
      refine List.filter_congr fun x hx => ?_
      obtain ⟨i, hi⟩ := List.mem_iff_getElem?.1 hx
      rw [List.getElem?_zipIdx, Option.map_eq_some_iff] at hi
      obtain ⟨file, hfile, rfl⟩ := hi
      have hlt : i < files.length := (List.getElem?_eq_some_iff.1 hfile).1
      simp only [Journal.sawExports, hsame i hlt]
    rw [List.zipIdx_append, List.filter_append, List.map_append, ← h'.kept_eq, ← hfirst,
      ← h.kept_eq]
  -- a place is one of the first files or one of the others
  · by_cases hi : i < files.length
    · rw [List.getElem?_append_left hi] at hfile
      rw [hsame i hi]
      exact h.asked_once i file hfile
    · rw [List.getElem?_append_right (by omega)] at hfile
      have hplace : place + files.length + (i - files.length) = place + i := by omega
      simpa only [hplace] using h'.asked_once _ file hfile
  · rw [List.length_append] at hq
    rw [h'.asked_else q fun i hi => ?_, h.asked_else q fun i hi => hq i (by omega)]
    rw [Nat.add_assoc]
    exact hq _ (by omega)

section Phases

variable (crew : Crew) (reader : Reader)

/-- The checks of one batch classify its files, if none of them has been asked for before. -/
theorem classified_inTurns (place : Nat) (turns : List Nat) (batch : List File) (j : Journal)
    (hfresh : ∀ n, place ≤ n → j.askedFor (.exports n) = []) :
    let out := Check.inTurns reader (fun i => .exports (place + i)) turns (batch.map checkExports) j
    Classified j out.2 place batch (flagged batch out.1) := by
  intro out
  obtain ⟨record, hj, hmade⟩ := inTurns_record reader (fun i => .exports (place + i)) turns
    (batch.map checkExports) j
  -- all places are fresh, so what is asked for there is what these checks ask for
  have hasked : ∀ i, out.2.askedFor (.exports (place + i))
      = (deedsAt record i).filterMap (Deed.reading? (.exports (place + i))) := by
    intro i
    have hinj : ∀ k, Purpose.exports (place + k) = .exports (place + i) → k = i := by
      intro k hk
      simpa using hk
    show out.2.askedFor _ = _
    rw [hj, askedFor_enterAll hinj, hfresh _ (Nat.le_add_right _ _), List.nil_append]
  have hread : ∀ i file flag, (checkExports file).Comes (deedsAt record i) flag →
      ∃ answer, out.2.askedFor (.exports (place + i))
        = [⟨.exports (place + i), file.path, answer⟩] ∧ flag = exportsIn answer := by
    intro i file flag hcomes
    obtain ⟨answer, hdeeds, hflag⟩ := comes_checkExports hcomes
    exact ⟨answer, by rw [hasked, hdeeds]; rfl, hflag⟩
  refine ⟨?_, fun i file hfile => ?_, fun q hq => ?_⟩
  -- the flag of a file is what its own reading says
  · have hflags : out.1 = (batch.zipIdx place).map fun x => out.2.sawExports x.2 := by
      refine hmade.results_eq_map_zipIdx place fun i file flag _ hcomes => ?_
      obtain ⟨answer, hanswer, rfl⟩ := hread i file flag hcomes
      simp [Journal.sawExports, hanswer]
    rw [hflags, flagged_map_zipIdx]
  · obtain ⟨flag, -, hcomes, -⟩ := hmade.of_getElem? hfile
    obtain ⟨answer, hanswer, -⟩ := hread i file flag hcomes
    exact ⟨answer, hanswer⟩
  · show out.2.askedFor q = _
    rw [hj, askedFor_enterAll_of_ne fun d hd => hq d.1 (by simpa using hmade.place_lt d hd)]

/-- Batch after batch, all files are classified. The induction is on the batches; each of them
finds the journal without readings for its own places. -/
theorem classified_classifyBatches (total place : Nat) (batches : List (List File)) (j : Journal)
    (hfresh : ∀ n, place ≤ n → j.askedFor (.exports n) = []) :
    let out := crew.classifyBatches reader total place batches j
    Classified j out.2 place batches.flatten out.1 := by
  induction batches generalizing place j with
  | nil => exact ⟨rfl, by simp, fun _ _ => rfl⟩
  | cons batch batches ih =>
    have hbatch := classified_inTurns reader place (crew.batchTurns place) batch j hfresh
    simp only [Crew.classifyBatches, bind_apply, pure_apply, List.flatten_cons]
    generalize Check.inTurns reader (fun i => .exports (place + i)) (crew.batchTurns place)
      (batch.map checkExports) j = mid at hbatch ⊢
    -- what is told of a batch asks for nothing
    have htold : ∀ q, (tellBatch (place + batch.length) total batch mid.2).2.askedFor q
        = mid.2.askedFor q := by
      intro q
      rw [tellBatch_apply]
      rfl
    have hothers := ih (place + batch.length)
      (tellBatch (place + batch.length) total batch mid.2).2 fun n hn => by
        have hbehind : ∀ i < batch.length, Purpose.exports (place + i) ≠ .exports n := by
          intro i hi
          simp only [ne_eq, Purpose.exports.injEq]
          omega
        rw [htold, hbatch.asked_else _ hbehind]
        exact hfresh n (by omega)
    refine hbatch.append ⟨hothers.kept_eq, hothers.asked_once, fun q hq => ?_⟩
    rw [hothers.asked_else q hq, htold]

/-- Classification keeps what the journal afterwards says exports something. -/
theorem classified_classify (batchSize : Nat) (files : List File) (j : Journal)
    (hfresh : ∀ n, j.askedFor (.exports n) = []) :
    let out := crew.classify reader batchSize files j
    Classified j out.2 0 files out.1 := by
  have h := classified_classifyBatches crew reader files.length 0 (batches batchSize files)
    (tell (.started .classify files.length) j).2 fun n _ => hfresh n
  rw [flatten_batches] at h
  -- the notes around the batches ask for nothing
  exact ⟨h.kept_eq, h.asked_once, h.asked_else⟩

/-! ## Cross-reference

There are no batches here: all targets are searched for in turns. A search ends at its first
hit, and what it read before has no mention, so its flag is whether any of its readings has
one. -/

/-- The check of a target comes to what its own readings say. -/
theorem eq_sawReference_of_comes {files : List File} {target : File} {deeds : List Deed}
    {flag : Bool} {place : Nat} {j : Journal}
    (hcomes : (checkReference files target).Comes deeds flag)
    (hasked : j.askedFor (.reference place)
      = deeds.filterMap (Deed.reading? (.reference place))) :
    flag = j.sawReference place target := by
  obtain ⟨searched, found, n, hsearch, hdeeds, rfl⟩ := comes_checkReference hcomes
  have hread : j.askedFor (.reference place)
      = searched.filterMap (Deed.reading? (.reference place)) := by
    rw [hasked, hdeeds, List.filterMap_append]
    simp [List.filterMap_cons, Deed.reading?]
  rw [hsearch.isSome_eq_any (.reference place), Journal.sawReference, hread, Bool.eq_iff_iff]
  simp only [List.any_eq_true, Bool.and_eq_true, Bool.not_eq_true']
  -- the search goes through the other files only, so no path need be looked at again
  have hother : ∀ r ∈ searched.filterMap (Deed.reading? (.reference place)),
      r.path.same target.path = false := by
    intro r hr
    obtain ⟨file, hfile, hpath⟩ := hsearch.path_mem _ r hr
    rw [← hpath]
    simpa [others] using (List.mem_filter.1 hfile).2
  constructor
  · rintro ⟨r, hr, hmention⟩
    exact ⟨r, hr, hother r hr, hmention⟩
  · rintro ⟨r, hr, -, hmention⟩
    exact ⟨r, hr, hmention⟩

/-- Cross-reference parts the files as the journal afterwards says, if no target has been asked for
before; and it asks for nothing but targets. -/
theorem crossReference_journal (files : List File) (j : Journal)
    (hfresh : ∀ n, j.askedFor (.reference n) = []) :
    let out := crew.crossReference reader files j
    out.1 = out.2.parted files ∧
      ∀ q, (∀ n, .reference n ≠ q) → out.2.askedFor q = j.askedFor q := by
  obtain ⟨record, hj, hmade⟩ := inTurns_record reader .reference crew.turnsAtTargets
    (files.map (checkReference files)) (j.beginCrossReference files.length)
  rw [crossReference_apply]
  generalize Check.inTurns reader .reference crew.turnsAtTargets (files.map (checkReference files))
    (j.beginCrossReference files.length) = made at hj hmade ⊢
  intro out
  -- no target has been asked for before, so only its own check does so
  have hasked : ∀ i, out.2.askedFor (.reference i)
      = (deedsAt record i).filterMap (Deed.reading? (.reference i)) := by
    intro i
    have hinj : ∀ k, Purpose.reference k = .reference i → k = i := by
      intro k hk
      simpa using hk
    show (Journal.endPhase _ _ _ _).askedFor _ = _
    rw [Journal.askedFor_endPhase, hj, askedFor_enterAll hinj, Journal.askedFor_beginCrossReference,
      hfresh, List.nil_append]
  refine ⟨?_, fun q hq => ?_⟩
  · have hflags : made.1 = (files.zipIdx 0).map fun x => out.2.sawReference x.2 x.1 := by
      refine hmade.results_eq_map_zipIdx 0 fun i target flag _ hcomes => ?_
      rw [Nat.zero_add]
      exact eq_sawReference_of_comes hcomes (hasked i)
    show Classification.ofFlags _ _ = _
    rw [hflags, Classification.ofFlags_map_zipIdx]
    rfl
  · show (Journal.endPhase _ _ _ _).askedFor _ = _
    rw [Journal.askedFor_endPhase, hj, askedFor_enterAll_of_ne fun d _ => hq d.1,
      Journal.askedFor_beginCrossReference]

/-! ## What all phases preserve

Warnings and answers are invariants of each phase: the first by the record of its checks,
the second by each of their steps. -/

theorem classifyBatches_invariants {others : List Log.Line} (total place : Nat)
    (batches : List (List File)) (j : Journal) (hwarned : j.Warned others)
    (hfaithful : j.Faithful reader) :
    let out := crew.classifyBatches reader total place batches j
    out.2.Warned others ∧ out.2.Faithful reader := by
  induction batches generalizing place j with
  | nil => exact ⟨hwarned, hfaithful⟩
  | cons batch batches ih =>
    simp only [Crew.classifyBatches, bind_apply, pure_apply, tellBatch_apply]
    refine ih _ _ ?_ ?_
    · obtain ⟨record, hj, hmade⟩ := inTurns_record reader (fun i => .exports (place + i))
        (crew.batchTurns place) (batch.map checkExports) j
      rw [hj]
      exact warned_enterAll _ hmade (fun _ _ _ => accounted_checkExports) hwarned
    · exact inTurns_invariant reader faithful_step _ _ _ j hfaithful

theorem classify_invariants {others : List Log.Line} (batchSize : Nat) (files : List File)
    (j : Journal) (hwarned : j.Warned others) (hfaithful : j.Faithful reader) :
    let out := crew.classify reader batchSize files j
    out.2.Warned others ∧ out.2.Faithful reader := by
  obtain ⟨hw, hf⟩ := classifyBatches_invariants crew reader files.length 0
    (batches batchSize files) (j.beginClassify files.length) hwarned hfaithful
  exact ⟨warned_endPhase rfl _ _ hw, hf⟩

theorem crossReference_invariants {others : List Log.Line} (files : List File) (j : Journal)
    (hwarned : j.Warned others) (hfaithful : j.Faithful reader) :
    let out := crew.crossReference reader files j
    out.2.Warned others ∧ out.2.Faithful reader := by
  obtain ⟨record, hj, hmade⟩ := inTurns_record reader .reference crew.turnsAtTargets
    (files.map (checkReference files)) (j.beginCrossReference files.length)
  have hf := inTurns_invariant reader faithful_step .reference crew.turnsAtTargets
    (files.map (checkReference files)) (j.beginCrossReference files.length) hfaithful
  rw [crossReference_apply]
  refine ⟨warned_endPhase rfl _ _ ?_, hf⟩
  rw [hj]
  exact warned_enterAll _ hmade (fun _ _ _ => accounted_checkReference) hwarned

/-! ## The report

The two phases are put together. What classification left in the journal is still there at
the end, since cross-reference asks for targets only. -/

/-- After discovery has succeeded, the journal at the end says what both phases came to. -/
theorem phases_journal (batchSize : Nat) (log : List Log.Line) (files : List File) :
    let kept := crew.classify reader batchSize files (Journal.empty.discovered log files)
    let parted := crew.crossReference reader kept.1 kept.2
    kept.1 = parted.2.exporting files ∧ parted.1 = parted.2.parted kept.1 ∧
      ∀ i file, files[i]? = some file → ∃ answer,
        parted.2.askedFor (.exports i) = [⟨.exports i, file.path, answer⟩] := by
  intro kept parted
  have hkept := classified_classify crew reader batchSize files (Journal.empty.discovered log files)
    fun _ => rfl
  obtain ⟨hparted, hframe⟩ := crossReference_journal crew reader kept.1 kept.2 fun n =>
    hkept.asked_else (.reference n) (by simp)
  have hsame : ∀ i, parted.2.askedFor (.exports i) = kept.2.askedFor (.exports i) := fun i =>
    hframe _ (by simp)
  refine ⟨?_, hparted, fun i file hfile => ?_⟩
  · simp only [Journal.exporting, Journal.sawExports, hsame]
    exact hkept.kept_eq
  · rw [hsame]
    simpa only [Nat.zero_add] using hkept.asked_once i file hfile

theorem run_invariants {ε : Type} (batchSize : Nat) (elapsed : Duration) (found : Found ε) :
    let out := crew.run reader batchSize elapsed found .empty
    out.2.Warned (found.log.reverse.filter isSkip) ∧ out.2.Faithful reader := by
  obtain ⟨log, files⟩ := found
  have hnone : ∀ r earlier, ¬ (r :: earlier) <:+ ([] : List Reading) := by
    intro r earlier h
    simpa using List.suffix_nil.1 h
  cases files with
  | error e =>
    rw [run_error_apply]
    refine ⟨?_, fun r earlier h => absurd h (hnone r earlier)⟩
    simp [Journal.Warned, Journal.empty]
  | ok files =>
    have hwarned : (Journal.empty.discovered log files).Warned (log.reverse.filter isSkip) := by
      unfold Journal.Warned Journal.discovered
      rw [List.filter_cons_of_neg (by simp [foundLine, isSkip, Log.info])]
      simp [Journal.empty]
    have hfaithful : (Journal.empty.discovered log files).Faithful reader :=
      fun r earlier h => absurd h (hnone r earlier)
    -- both hold when the files are known, and each phase keeps them
    rw [run_ok_apply]
    obtain ⟨hw, hf⟩ := classify_invariants crew reader batchSize files _ hwarned hfaithful
    exact crossReference_invariants crew reader _ _ hw hf

/-- **The journal justifies the report.** Whatever the reader answers and whatever turns the workers
take, a scan fails exactly when discovery did, and then nothing was read and the observer was told
of the start alone. Otherwise each candidate was read once for its exports, and the report is the
one that the journal justifies: the exporting files are the candidates whose reading showed an
export, and they are parted, in order, by whether a reading of their own check showed a reference.
The journal has the answers that the reader gave, and the warnings about unreadable files, beyond
those of discovery, are as many as failed readings. -/
theorem run_reports_journal {ε : Type} (batchSize : Nat) (elapsed : Duration) (found : Found ε) :
    let out := crew.run reader batchSize elapsed found .empty
    let j := out.2
    (match found.files with
      | .error e =>
        out.1 = .error e ∧ j.readings = [] ∧ j.trace = [.started .discover 0]
      | .ok files =>
        let exporting := j.exporting files
        out.1 = .ok
            { totalScanned := files.length
              exportingCount := exporting.length
              used := (j.parted exporting).used.map File.path
              unused := (j.parted exporting).unused.map UnusedFile.ofFile
              elapsed := elapsed } ∧
          ∀ i file, files[i]? = some file → ∃ answer,
            j.askedFor (.exports i) = [⟨.exports i, file.path, answer⟩]) ∧
      j.Faithful reader ∧
      j.lines.countP isSkip = found.log.countP isSkip + j.readings.countP Reading.failed := by
  intro out j
  obtain ⟨hwarned, hfaithful⟩ := run_invariants crew reader batchSize elapsed found
  refine ⟨?_, hfaithful, ?_⟩
  · obtain ⟨log, files⟩ := found
    cases files with
    | error e =>
      simp only [out, j, run_error_apply]
      exact ⟨trivial, rfl, rfl⟩
    | ok files =>
      obtain ⟨hexporting, hparted, hasked⟩ := phases_journal crew reader batchSize log files
      simp only [out, j, run_ok_apply]
      refine ⟨?_, hasked⟩
      rw [← hexporting, hparted]
      rfl
  -- lists that agree up to the order are of one length
  · have hcount := hwarned.length_eq
    rw [List.length_append, filterMap_skipLine?_length, ← List.countP_eq_length_filter,
      ← List.countP_eq_length_filter, List.countP_reverse] at hcount
    rw [Journal.lines, List.countP_reverse, hcount, Nat.add_comm]

end Phases

end Unimported.Scan
