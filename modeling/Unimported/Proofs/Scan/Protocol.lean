/-
Protocol: what the observer of a scan is told, event by event.

Classification tells about each batch once it is over, so that the numbers come from the batches;
cross-reference tells about each target, with a number that its check takes from a shared count.
Both come out as if they were written down from the report: `run_trace` is the main result. The
workers may take any turns within a batch, since the checks of candidates say nothing; targets
are taken one after another here, because the order in which they are told of is part of what is
stated.
-/
import Unimported.Proofs.Scan.Fault

set_option autoImplicit false

namespace Unimported.Scan

open Source (File referenceToken)

/-! ## The numbers of batches

How many batches there are and how many files are done after each of them is arithmetic, in
which batches of no files count as batches of one. Taking the first batch away shifts the
places by one, and that is the step of the induction below. -/

/-- How many batches there are for `n` files. -/
def batchCount (size n : Nat) : Nat := (n + max size 1 - 1) / max size 1

/-- How many of `n` files are done after the batch at place `k`. -/
def doneAfter (size n k : Nat) : Nat := min ((k + 1) * max size 1) n

/-- There is a batch at a place exactly when files are left for it. -/
theorem lt_batchCount_iff {size n k : Nat} : k < batchCount size n ↔ k * max size 1 < n := by
  have hsize : 0 < max size 1 := by omega
  rw [batchCount, Nat.lt_iff_add_one_le, Nat.le_div_iff_mul_le hsize, Nat.succ_mul]
  omega

theorem doneAfter_sub_one_lt {size n : Nat} (k : Fin (batchCount size n)) :
    doneAfter size n k - 1 < n := by
  have hk := lt_batchCount_iff.1 k.isLt
  unfold doneAfter
  omega

/-- A further batch means that the first one was full, so its files come off. -/
theorem succ_lt_batchCount_iff {size n k : Nat} :
    k + 1 < batchCount size n ↔ k < batchCount size (n - max size 1) := by
  rw [lt_batchCount_iff, lt_batchCount_iff, Nat.succ_mul]
  omega

theorem doneAfter_succ {size n k : Nat} (h : k < batchCount size (n - max size 1)) :
    doneAfter size n (k + 1) = max size 1 + doneAfter size (n - max size 1) k := by
  have hleft := lt_batchCount_iff.1 h
  simp only [doneAfter, Nat.succ_mul]
  omega

theorem doneAfter_pos {size n k : Nat} (h : k < batchCount size n) : 0 < doneAfter size n k := by
  have hleft := lt_batchCount_iff.1 h
  simp only [doneAfter, Nat.succ_mul]
  omega

/-! ## Classification

The events come from the batches, and the statement is about files at places. The two are
compared place by place, a batch being taken off at each step. -/

/-- What is told about these batches, `done` of `total` files having been classified before. -/
def batchEvents (total : Nat) : Nat → List (List File) → List Event
  | _, [] => []
  | done, batch :: batches =>
    (batch.getLast?.map fun file =>
        Event.progressed .classify (done + batch.length) total file.path).toList
      ++ batchEvents total (done + batch.length) batches

/-- The event at a place is about the last file of the batch at that place. The induction is on the
files, a batch at a time. -/
theorem getElem?_batchEvents (size total done : Nat) (files : List File) (k : Nat) :
    (batchEvents total done (batches size files))[k]?
      = if k < batchCount size files.length then
          files[doneAfter size files.length k - 1]?.map fun file =>
            Event.progressed .classify (done + doneAfter size files.length k) total file.path
        else none := by
  induction hn : files.length using Nat.strongRecOn generalizing files done k with
  | ind n ih =>
    cases files with
    | nil =>
      obtain rfl : n = 0 := hn.symm
      -- no files, no batch, no event
      rw [if_neg (by rw [lt_batchCount_iff]; omega)]
      rfl
    | cons a rest =>
      have hsize : 0 < max size 1 := by omega
      have hpos : 0 < n := by rw [← hn]; exact Nat.zero_lt_succ _
      have htake : ((a :: rest).take (max size 1)).length = min (max size 1) n := by
        rw [List.length_take, hn]
      have hdrop : ((a :: rest).drop (max size 1)).length = n - max size 1 := by
        rw [List.length_drop, hn]
      have hlast : ((a :: rest).take (max size 1)).getLast?
          = (a :: rest)[min (max size 1) n - 1]? := by
        rw [List.getLast?_eq_getElem?, htake, List.getElem?_take_of_lt (by omega)]
      obtain ⟨last, hsome⟩ : ∃ last, (a :: rest)[min (max size 1) n - 1]? = some last :=
        ⟨_, List.getElem?_eq_getElem (by omega)⟩
      rw [batches_cons, batchEvents, htake, hlast, hsome]
      simp only [Option.map_some, Option.toList_some, List.singleton_append]
      -- the first event is about the last file of the first batch, the others are about the
      -- files behind
      cases k with
      | zero =>
        have hdone : doneAfter size n 0 = min (max size 1) n := by simp [doneAfter]
        rw [if_pos (by rw [lt_batchCount_iff]; omega), hdone, hsome]
        rfl
      | succ k =>
        rw [List.getElem?_cons_succ, ih (n - max size 1) (by omega) _ _ k hdrop]
        by_cases hk : k < batchCount size (n - max size 1)
        · have hleft := lt_batchCount_iff.1 hk
          rw [if_pos hk, if_pos (succ_lt_batchCount_iff.2 hk), List.getElem?_drop,
            doneAfter_succ hk, Nat.add_sub_assoc (doneAfter_pos hk), Nat.min_eq_left (by omega),
            Nat.add_assoc]
        · rw [if_neg hk, if_neg (mt succ_lt_batchCount_iff.1 hk)]

/-- What is told about the batches of all files. -/
theorem batchEvents_batches (size : Nat) (files : List File) :
    batchEvents files.length 0 (batches size files)
      = List.ofFn fun k : Fin (batchCount size files.length) =>
          Event.progressed .classify (doneAfter size files.length k) files.length
            (files.get ⟨doneAfter size files.length k - 1, doneAfter_sub_one_lt k⟩).path := by
  refine List.ext_getElem? fun k => ?_
  rw [getElem?_batchEvents, List.getElem?_ofFn]
  by_cases hk : k < batchCount size files.length
  · have hlast := doneAfter_sub_one_lt ⟨k, hk⟩
    rw [if_pos hk, dif_pos hk, List.getElem?_eq_getElem hlast, Nat.zero_add]
    rfl
  · rw [if_neg hk, dif_neg hk]

section Phases

variable (crew : Crew) (reader : Reader)

/-- The checks of candidates are silent, so each batch is heard of once, when it is over. -/
theorem events_classifyBatches (total done : Nat) (batches : List (List File)) (j : Journal) :
    (crew.classifyBatches reader total done batches j).2.events
      = (batchEvents total done batches).reverse ++ j.events := by
  induction batches generalizing done j with
  | nil => rfl
  | cons batch batches ih =>
    obtain ⟨record, hj, hmade⟩ := inTurns_record reader (fun i => .exports (done + i))
      (crew.batchTurns done) (batch.map checkExports) j
    have hsilent : (enterAll (fun i => .exports (done + i)) record j).events = j.events :=
      enterAll_events (hmade.forall_deed fun _ _ _ => silent_checkExports)
    simp only [Crew.classifyBatches, bind_apply, pure_apply, tellBatch_apply, ih, hj, hsilent,
      batchEvents, List.reverse_append, List.append_assoc]
    cases batch.getLast? <;> rfl

/-! ## Cross-reference

The number of a target is what the count holds at the time, so it is known if it is known
how often the checks before have counted. Each of them counts once, however many files it
reads. -/

/-- Two checks after each other are run after each other. -/
theorem run_bind {α β : Type} (q : Purpose) (c : Check α) (f : α → Check β) (j : Journal) :
    (c >>= f).run reader q j = (f (c.run reader q j).1).run reader q (c.run reader q j).2 := by
  induction c generalizing j with
  | done a => rfl
  | read p next ih => exact ih _ _
  | note line next ih => exact ih _
  | count next ih => exact ih _ _
  | tell event next ih => exact ih _

/-- The observer does not hear of the search for a mention, and nothing is counted by it. -/
theorem quiet_firstMention (q : Purpose) (target : Path) (token : String) (files : List File)
    (j : Journal) :
    let after := ((firstMention target token files).run reader q j).2
    after.events = j.events ∧ after.counted = j.counted := by
  induction files generalizing j with
  | nil => exact ⟨rfl, rfl⟩
  | cons file files ih =>
    rw [firstMention]
    by_cases hself : file.path.same target = true
    · rw [if_pos hself]
      exact ih j
    · -- only a reading and perhaps a line stand between this journal and the next search
      rw [if_neg hself, Check.ask_bind]
      simp only [Check.run, Scan.read, bind_apply]
      cases reader j.readings file.path with
      | ok text =>
        by_cases hmention : Source.mentions text.toList token.toList = true
        · simp only [if_pos hmention]
          exact ⟨rfl, rfl⟩
        · simp only [if_neg hmention]
          exact ih _
      | error reason => exact ih _

/-- **The check of a target** takes the next number and tells the observer once. -/
theorem events_checkReference (q : Purpose) (files : List File) (target : File) (j : Journal) :
    let after := ((checkReference files target).run reader q j).2
    after.events
        = .progressed .crossReference (j.counted + 1) files.length target.path :: j.events ∧
      after.counted = j.counted + 1 := by
  have hsearch : ((searchReference target files).run reader q j).2.events = j.events ∧
      ((searchReference target files).run reader q j).2.counted = j.counted := by
    rw [searchReference, run_bind]
    exact quiet_firstMention reader q target.path (referenceToken target.path) files j
  rw [checkReference, run_bind]
  generalize (searchReference target files).run reader q j = searched at hsearch ⊢
  rw [← hsearch.1, ← hsearch.2]
  exact ⟨rfl, rfl⟩

/-- Targets that are taken in order are told of in order, each with its number. -/
theorem events_inOrder (files : List File) (place : Nat) (targets : List File) (j : Journal) :
    (Check.inOrder reader .reference place (targets.map (checkReference files)) j).2.events
      = (targets.mapIdx fun i target => Event.progressed .crossReference (j.counted + i + 1)
          files.length target.path).reverse ++ j.events := by
  induction targets generalizing place j with
  | nil => rfl
  | cons target targets ih =>
    obtain ⟨hevents, hcounted⟩ := events_checkReference reader (.reference place) files target j
    have hnumber : ∀ i, j.counted + 1 + i + 1 = j.counted + (i + 1) + 1 := by omega
    simp only [List.map_cons, Check.inOrder, bind_apply, pure_apply, ih, hevents, hcounted, hnumber,
      List.mapIdx_cons, List.reverse_cons, List.append_assoc, List.cons_append, List.nil_append,
      Nat.add_zero]

theorem events_crossReference (hturns : crew.turnsAtTargets = []) (files : List File)
    (j : Journal) :
    let out := crew.crossReference reader files j
    out.2.events = .finished .crossReference out.1.unused.length ::
      (files.mapIdx fun i target =>
        Event.progressed .crossReference (i + 1) files.length target.path).reverse ++
      .started .crossReference files.length :: j.events := by
  have hchecks := events_inOrder reader files 0 files (j.beginCrossReference files.length)
  simp only [Journal.beginCrossReference, Nat.zero_add] at hchecks
  intro out
  simp only [out, crossReference_apply, hturns, Check.inTurns, Journal.endPhase,
    Journal.beginCrossReference, hchecks, List.cons_append]

theorem events_classify (batchSize : Nat) (files : List File) (j : Journal) :
    let out := crew.classify reader batchSize files j
    out.2.events = .finished .classify out.1.length ::
      (batchEvents files.length 0 (batches batchSize files)).reverse ++
      .started .classify files.length :: j.events := by
  intro out
  simp only [out, classify_apply, Journal.endPhase, events_classifyBatches, Journal.beginClassify,
    List.cons_append]

end Phases

/-! ## The trace

Each phase adds its events to what was told before, so they come out in the order of the
phases. -/

/-- **The observer is told of all phases, batches and targets in order.** A scan whose targets are
taken one after another tells the observer of the start alone if discovery fails. Otherwise it tells
of the three phases one after another: of each batch by its last file, of each exporting file by
itself, and of the numbers that are in the report. A phase without files has no progress. -/
theorem run_trace {ε : Type} (parallel : Bool) (batchTurns : Nat → List Nat) (reader : Reader)
    (batchSize : Nat) (elapsed : Duration) (found : Found ε) :
    let out := (Crew.mk parallel batchTurns []).run reader batchSize elapsed found .empty
    let j := out.2
    match found.files with
    | .error e => out.1 = .error e ∧ j.trace = [.started .discover 0]
    | .ok files => ∃ report, out.1 = .ok report ∧
        report.exportingCount = (j.exporting files).length ∧
        j.trace =
          [.started .discover 0, .finished .discover files.length,
              .started .classify files.length] ++
            (List.ofFn fun k : Fin (batchCount batchSize files.length) =>
              let done := doneAfter batchSize files.length k
              Event.progressed .classify done files.length
                (files.get ⟨done - 1, doneAfter_sub_one_lt k⟩).path) ++
            [.finished .classify report.exportingCount,
              .started .crossReference report.exportingCount] ++
            ((j.exporting files).mapIdx fun i file =>
              Event.progressed .crossReference (i + 1) report.exportingCount file.path) ++
            [.finished .crossReference report.unused.length] := by
  intro out j
  obtain ⟨log, files⟩ := found
  cases files with
  | error e =>
    simp only [out, j, run_error_apply]
    exact ⟨trivial, rfl⟩
  | ok files =>
    obtain ⟨hexporting, -, -⟩ :=
      phases_journal (Crew.mk parallel batchTurns []) reader batchSize log files
    have hturns : (Crew.mk parallel batchTurns []).turnsAtTargets = [] := by
      cases parallel <;> rfl
    simp only [out, j, run_ok_apply, ← hexporting]
    refine ⟨_, rfl, rfl, ?_⟩
    -- with the events of each phase put in, both sides are one list
    rw [← batchEvents_batches]
    simp only [Journal.trace, events_crossReference _ _ hturns, events_classify,
      Journal.discovered, Journal.empty, Report.ofClassification, List.length_map,
      List.reverse_cons, List.reverse_append, List.reverse_reverse, List.reverse_nil,
      List.append_assoc, List.cons_append, List.nil_append]

end Unimported.Scan
