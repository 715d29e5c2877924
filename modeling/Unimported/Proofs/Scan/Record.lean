/-
Records: what several checks did, in the order in which they did it.

A check that is made in turns with others does not see the journal that it would see alone: between
two of its steps there may be any number of steps of the others. What it does is nevertheless one
of the ways in which it can go on its own, given the answers that it got. `Check.Comes` says that
of a single check, and `inTurns_record` is the main result: whatever the turns, the journal grows
by a record of which the part of each check leads that check to its result. All that is said about
crews further on is read off this record, so turns are not mentioned again.
-/
import Unimported.Scan.Detect
import Mathlib.Data.List.Perm.Basic

set_option autoImplicit false

namespace Unimported.Scan

/-! ## Deeds

A step of a check is a deed, whatever the journal is at the time. `Check.Comes` forgets the
journal altogether: it has one constructor for each constructor of checks, and leaves the
answers open. -/

/-- What a check does in one step. -/
inductive Deed where
  | read (p : Path) (answer : Except String String)
  | note (line : Log.Line)
  | count (n : Nat)
  | tell (event : Event)

namespace Deed

/-- The journal after the deed, done by a check that reads for this purpose. -/
def enter (purpose : Purpose) (j : Journal) : Deed → Journal
  | .read p answer => { j with readings := ⟨purpose, p, answer⟩ :: j.readings }
  | .note line => { j with log := line :: j.log }
  | .count _ => { j with counted := j.counted + 1 }
  | .tell event => { j with events := event :: j.events }

/-- The reading, if the deed is one. -/
def reading? (purpose : Purpose) : Deed → Option Reading
  | .read p answer => some ⟨purpose, p, answer⟩
  | _ => none

/-- The line that the deed writes to the log, if any. -/
def line? : Deed → Option Log.Line
  | .note line => some line
  | _ => none

/-- What the deed tells the observer, if anything. -/
def event? : Deed → Option Event
  | .tell event => some event
  | _ => none

/-- If the deed is a reading, its answer is one that the reader gives at some time. -/
def Answered (reader : Reader) : Deed → Prop
  | .read p answer => ∃ history, answer = reader history p
  | _ => True

end Deed

/-- The check can come to this result by these deeds. Nothing is said of the answers and of the
count, which others have a say in. -/
inductive Check.Comes {α : Type} : Check α → List Deed → α → Prop
  | done {a : α} : Comes (.done a) [] a
  | read {p : Path} {next : Except String String → Check α} {answer : Except String String}
      {deeds : List Deed} {a : α} :
      Comes (next answer) deeds a → Comes (.read p next) (.read p answer :: deeds) a
  | note {line : Log.Line} {next : Check α} {deeds : List Deed} {a : α} :
      Comes next deeds a → Comes (.note line next) (.note line :: deeds) a
  | count {next : Nat → Check α} {n : Nat} {deeds : List Deed} {a : α} :
      Comes (next n) deeds a → Comes (.count next) (.count n :: deeds) a
  | tell {event : Event} {next : Check α} {deeds : List Deed} {a : α} :
      Comes next deeds a → Comes (.tell event next) (.tell event :: deeds) a

/-- A check that goes on after another one comes to its result in two parts. -/
theorem Check.Comes.of_bind {α β : Type} {c : Check α} {f : α → Check β} {deeds : List Deed}
    {b : β} (h : (c >>= f).Comes deeds b) :
    ∃ first a rest, deeds = first ++ rest ∧ c.Comes first a ∧ (f a).Comes rest b := by
  induction c generalizing deeds with
  | done a => exact ⟨[], a, deeds, rfl, .done, h⟩
  -- in all other cases the first deed is one of the first check, and comes off
  | read p next ih =>
    cases h with
    | read h =>
      obtain ⟨first, a, rest, rfl, hc, hf⟩ := ih _ h
      exact ⟨_ :: first, a, rest, rfl, .read hc, hf⟩
  | note line next ih =>
    cases h with
    | note h =>
      obtain ⟨first, a, rest, rfl, hc, hf⟩ := ih h
      exact ⟨_ :: first, a, rest, rfl, .note hc, hf⟩
  | count next ih =>
    cases h with
    | count h =>
      obtain ⟨first, a, rest, rfl, hc, hf⟩ := ih _ h
      exact ⟨_ :: first, a, rest, rfl, .count hc, hf⟩
  | tell event next ih =>
    cases h with
    | tell h =>
      obtain ⟨first, a, rest, rfl, hc, hf⟩ := ih h
      exact ⟨_ :: first, a, rest, rfl, .tell hc, hf⟩

/-! ## Records

A record has the deeds of all checks in the order in which they were done, and the part of
one check is a filter of it. `Made` is what a run of checks leaves: each has a result, to
which its own part leads. -/

/-- The deeds of several checks, each with the place of its check. -/
abbrev Record := List (Nat × Deed)

/-- The part of the record that the check at place `i` did. -/
def deedsAt (record : Record) (i : Nat) : List Deed :=
  record.filterMap fun d => if d.1 = i then some d.2 else none

/-- The journal after all deeds of the record, with the purposes that the checks read for. -/
def enterAll (purpose : Nat → Purpose) (record : Record) (j : Journal) : Journal :=
  record.foldl (fun j d => d.2.enter (purpose d.1) j) j

@[simp] theorem deedsAt_nil (i : Nat) : deedsAt [] i = [] := rfl

theorem deedsAt_cons (i k : Nat) (deed : Deed) (record : Record) :
    deedsAt ((k, deed) :: record) i =
      if k = i then deed :: deedsAt record i else deedsAt record i := by
  by_cases h : k = i <;> simp [deedsAt, h]

theorem deedsAt_append (first rest : Record) (i : Nat) :
    deedsAt (first ++ rest) i = deedsAt first i ++ deedsAt rest i := by
  simp only [deedsAt, List.filterMap_append]

/-- The deeds of the check at place zero, as a record. -/
theorem deedsAt_map_zero (deeds : List Deed) (i : Nat) :
    deedsAt (deeds.map (Prod.mk 0)) i = if i = 0 then deeds else [] := by
  induction deeds with
  | nil => simp
  | cons deed deeds ih =>
    rw [List.map_cons, deedsAt_cons, ih]
    by_cases h : i = 0
    · simp [h]
    · rw [if_neg (fun h0 => h h0.symm), if_neg h, if_neg h]

/-- The record with all checks moved on by one place. -/
def shiftRecord (record : Record) : Record := record.map fun d => (d.1 + 1, d.2)

theorem deedsAt_shiftRecord_zero (record : Record) : deedsAt (shiftRecord record) 0 = [] := by
  simp [deedsAt, shiftRecord, List.filterMap_map]

theorem deedsAt_shiftRecord_succ (record : Record) (i : Nat) :
    deedsAt (shiftRecord record) (i + 1) = deedsAt record i := by
  simp [deedsAt, shiftRecord, List.filterMap_map]

/-- The checks came to these results by the deeds of this record. -/
structure Made {α : Type} (reader : Reader) (checks : List (Check α)) (record : Record)
    (results : List α) : Prop where
  length_eq : results.length = checks.length
  place_lt : ∀ d ∈ record, d.1 < checks.length
  answered : ∀ d ∈ record, d.2.Answered reader
  comes : ∀ (i : Nat) (check : Check α), checks[i]? = some check →
    ∃ result, results[i]? = some result ∧ check.Comes (deedsAt record i) result

theorem enterAll_append (purpose : Nat → Purpose) (first rest : Record) (j : Journal) :
    enterAll purpose (first ++ rest) j = enterAll purpose rest (enterAll purpose first j) := by
  simp only [enterAll, List.foldl_append]

theorem enterAll_shiftRecord (purpose : Nat → Purpose) (record : Record) (j : Journal) :
    enterAll purpose (shiftRecord record) j = enterAll (fun i => purpose (i + 1)) record j := by
  simp only [enterAll, shiftRecord, List.foldl_map]

/-! ## Running checks

Alone, in order, or in turns: each way of running checks leaves a record. -/

section Running

variable {α : Type} (reader : Reader)

/-- **One step.** Either the check is made already and nothing happens, or the step is a deed, and
what the check can come to from there it comes to by this deed first. -/
theorem Check.step_cases (purpose : Purpose) (check : Check α) (j : Journal) :
    (check.step reader purpose j = (check, j)) ∨
      ∃ deed : Deed, deed.Answered reader ∧
        (check.step reader purpose j).2 = deed.enter purpose j ∧
        ∀ deeds a, (check.step reader purpose j).1.Comes deeds a →
          check.Comes (deed :: deeds) a := by
  cases check with
  | done a => exact .inl rfl
  | read p next => exact .inr ⟨.read p (reader j.readings p), ⟨_, rfl⟩, rfl, fun _ _ h => .read h⟩
  | note line next => exact .inr ⟨.note line, trivial, rfl, fun _ _ h => .note h⟩
  | count next => exact .inr ⟨.count (j.counted + 1), trivial, rfl, fun _ _ h => .count h⟩
  | tell event next => exact .inr ⟨.tell event, trivial, rfl, fun _ _ h => .tell h⟩

/-- A check that is made without a pause leaves its deeds, one after another. -/
theorem Check.run_deeds (purpose : Purpose) (check : Check α) (j : Journal) :
    ∃ deeds : List Deed, (∀ deed ∈ deeds, deed.Answered reader) ∧
      (check.run reader purpose j).2 = deeds.foldl (Deed.enter purpose) j ∧
      check.Comes deeds (check.run reader purpose j).1 := by
  -- By induction on the check. It goes on from the journal that its deed has left, so the
  -- journal varies.
  induction check generalizing j with
  | done a => exact ⟨[], by simp, rfl, .done⟩
  | read p next ih =>
    obtain ⟨deeds, hanswered, hj, hcomes⟩ :=
      ih (reader j.readings p) (Scan.read reader purpose p j).2
    refine ⟨.read p (reader j.readings p) :: deeds, ?_, hj, .read hcomes⟩
    exact List.forall_mem_cons.2 ⟨⟨_, rfl⟩, hanswered⟩
  | note line next ih =>
    obtain ⟨deeds, hanswered, hj, hcomes⟩ := ih (Scan.note line j).2
    exact ⟨.note line :: deeds, List.forall_mem_cons.2 ⟨trivial, hanswered⟩, hj, .note hcomes⟩
  | count next ih =>
    obtain ⟨deeds, hanswered, hj, hcomes⟩ := ih (j.counted + 1) (Scan.count j).2
    refine ⟨.count (j.counted + 1) :: deeds, ?_, hj, .count hcomes⟩
    exact List.forall_mem_cons.2 ⟨trivial, hanswered⟩
  | tell event next ih =>
    obtain ⟨deeds, hanswered, hj, hcomes⟩ := ih (Scan.tell event j).2
    exact ⟨.tell event :: deeds, List.forall_mem_cons.2 ⟨trivial, hanswered⟩, hj, .tell hcomes⟩

/-- Checks that are made in order leave a record. The record counts places from zero, wherever the
first of the checks stands. -/
theorem inOrder_record (purpose : Nat → Purpose) (place : Nat) (checks : List (Check α))
    (j : Journal) :
    ∃ record : Record,
      (Check.inOrder reader purpose place checks j).2
        = enterAll (fun i => purpose (place + i)) record j ∧
      Made reader checks record (Check.inOrder reader purpose place checks j).1 := by
  induction checks generalizing place j with
  | nil => exact ⟨[], rfl, rfl, by simp, by simp, by simp⟩
  | cons check checks ih =>
    obtain ⟨deeds, hanswered, hj, hcomes⟩ := check.run_deeds reader (purpose place) j
    obtain ⟨record, hj', hmade⟩ := ih (place + 1) (check.run reader (purpose place) j).2
    -- the others are one place further on than the record of the rest says
    refine ⟨deeds.map (Prod.mk 0) ++ shiftRecord record, ?_, ?_, ?_, ?_, ?_⟩
    · -- the deeds of the first check are entered first, under the purpose of its place
      have hfirst : enterAll (fun i => purpose (place + i)) (deeds.map (Prod.mk 0)) j
          = (check.run reader (purpose place) j).2 := by
        rw [hj, enterAll, List.foldl_map]
        rfl
      rw [enterAll_append, hfirst, enterAll_shiftRecord]
      simp only [Check.inOrder, bind_apply, pure_apply, hj', Nat.add_assoc, Nat.add_comm 1]
    · simp only [Check.inOrder, bind_apply, pure_apply, List.length_cons, hmade.length_eq]
    · intro d hd
      rcases List.mem_append.1 hd with h | h
      · obtain ⟨deed, -, rfl⟩ := List.mem_map.1 h
        exact Nat.zero_lt_succ _
      · obtain ⟨d', hd', rfl⟩ := List.mem_map.1 h
        exact Nat.succ_lt_succ (hmade.place_lt d' hd')
    · intro d hd
      rcases List.mem_append.1 hd with h | h
      · obtain ⟨deed, hdeed, rfl⟩ := List.mem_map.1 h
        exact hanswered deed hdeed
      · obtain ⟨d', hd', rfl⟩ := List.mem_map.1 h
        exact hmade.answered d' hd'
    -- a place is that of the first check or of one of the others, and each part of the record
    -- is about one of them only
    · intro i c hc
      rw [deedsAt_append, deedsAt_map_zero]
      cases i with
      | zero =>
        obtain rfl : check = c := by simpa using hc
        rw [deedsAt_shiftRecord_zero, List.append_nil, if_pos rfl]
        exact ⟨_, rfl, hcomes⟩
      | succ i =>
        rw [deedsAt_shiftRecord_succ, if_neg (Nat.succ_ne_zero i), List.nil_append]
        exact hmade.comes i c (by simpa using hc)

/-- **Turns leave a record.** However checks take turns, the journal grows by a record of their
deeds, and the part of each check leads that check to its result. The induction is on the turns:
a turn that is not void puts its deed in front of what the check does later. -/
theorem inTurns_record (purpose : Nat → Purpose) (turns : List Nat) (checks : List (Check α))
    (j : Journal) :
    ∃ record : Record,
      (Check.inTurns reader purpose turns checks j).2 = enterAll purpose record j ∧
      Made reader checks record (Check.inTurns reader purpose turns checks j).1 := by
  induction turns generalizing checks j with
  | nil => simpa only [Check.inTurns, Nat.zero_add] using inOrder_record reader purpose 0 checks j
  | cons turn turns ih =>
    cases hturn : checks[turn]? with
    | none => simpa only [Check.inTurns, hturn] using ih checks j
    | some check =>
      simp only [Check.inTurns, hturn, bind_apply]
      rcases check.step_cases reader (purpose turn) j with hvoid | ⟨deed, hdeed, hj, hstep⟩
      · -- a void turn leaves both the checks and the journal as they are
        have hset : checks.set turn check = checks := by
          obtain ⟨hlt, rfl⟩ := List.getElem?_eq_some_iff.1 hturn
          exact List.set_getElem_self hlt
        rw [hvoid, hset]
        exact ih checks j
      · obtain ⟨record, hj', hmade⟩ := ih (checks.set turn (check.step reader (purpose turn) j).1)
          (check.step reader (purpose turn) j).2
        have hlt : turn < checks.length := (List.getElem?_eq_some_iff.1 hturn).1
        refine ⟨(turn, deed) :: record, ?_, ?_, ?_, ?_, ?_⟩
        · rw [hj', hj]
          rfl
        · rw [hmade.length_eq, List.length_set]
        · refine List.forall_mem_cons.2 ⟨hlt, fun d hd => ?_⟩
          simpa only [List.length_set] using hmade.place_lt d hd
        · exact List.forall_mem_cons.2 ⟨hdeed, hmade.answered⟩
        · intro i c hc
          rw [deedsAt_cons]
          by_cases hi : turn = i
          · -- the check whose turn it was does this deed before all that it does later
            subst hi
            obtain rfl : check = c := Option.some.inj (hturn.symm.trans hc)
            obtain ⟨result, hresult, hcomes⟩ := hmade.comes turn _ (List.getElem?_set_self hlt)
            rw [if_pos rfl]
            exact ⟨result, hresult, hstep _ _ hcomes⟩
          · rw [if_neg hi]
            exact hmade.comes i c (by rw [List.getElem?_set_ne hi, hc])

/-! ## Invariants

What every step preserves is preserved by checks that are run, in whichever way. -/

variable {P : Journal → Prop}

theorem Check.run_invariant (hstep : ∀ q (check : Check α) j, P j → P (check.step reader q j).2)
    (purpose : Purpose) (check : Check α) (j : Journal) (hj : P j) :
    P (check.run reader purpose j).2 := by
  induction check generalizing j with
  | done a => exact hj
  | read p next ih => exact ih _ _ (hstep purpose (.read p next) j hj)
  | note line next ih => exact ih _ (hstep purpose (.note line next) j hj)
  | count next ih => exact ih _ _ (hstep purpose (.count next) j hj)
  | tell event next ih => exact ih _ (hstep purpose (.tell event next) j hj)

theorem inOrder_invariant (hstep : ∀ q (check : Check α) j, P j → P (check.step reader q j).2)
    (purpose : Nat → Purpose) (place : Nat) (checks : List (Check α)) (j : Journal) (hj : P j) :
    P (Check.inOrder reader purpose place checks j).2 := by
  induction checks generalizing place j with
  | nil => exact hj
  | cons check checks ih =>
    exact ih (place + 1) _ (check.run_invariant reader hstep (purpose place) j hj)

theorem inTurns_invariant (hstep : ∀ q (check : Check α) j, P j → P (check.step reader q j).2)
    (purpose : Nat → Purpose) (turns : List Nat) (checks : List (Check α)) (j : Journal)
    (hj : P j) : P (Check.inTurns reader purpose turns checks j).2 := by
  induction turns generalizing checks j with
  | nil => exact inOrder_invariant reader hstep purpose 0 checks j hj
  | cons turn turns ih =>
    cases hturn : checks[turn]? with
    | none => simpa only [Check.inTurns, hturn] using ih checks j hj
    | some check =>
      simp only [Check.inTurns, hturn, bind_apply]
      exact ih _ _ (hstep (purpose turn) check j hj)

end Running

/-! ## What a record leaves in the journal

The lists of a journal grow at the front, so each is read off the record backwards. What was
asked for one purpose is the part of one check, as long as no other reads for the same
purpose. -/

theorem mem_deedsAt {record : Record} {i : Nat} {deed : Deed} :
    deed ∈ deedsAt record i ↔ (i, deed) ∈ record := by
  simp only [deedsAt, List.mem_filterMap, Option.ite_none_right_eq_some, Option.some.injEq,
    Prod.exists]
  constructor
  · rintro ⟨k, d, hmem, rfl, rfl⟩
    exact hmem
  · intro hmem
    exact ⟨i, deed, hmem, rfl, rfl⟩

theorem enterAll_cons (purpose : Nat → Purpose) (i : Nat) (deed : Deed) (record : Record)
    (j : Journal) :
    enterAll purpose ((i, deed) :: record) j
      = enterAll purpose record (deed.enter (purpose i) j) := rfl

/-- The log grows by the lines of the record, the latest first. -/
theorem enterAll_log (purpose : Nat → Purpose) (record : Record) (j : Journal) :
    (enterAll purpose record j).log = (record.filterMap (·.2.line?)).reverse ++ j.log := by
  induction record generalizing j with
  | nil => rfl
  | cons d record ih =>
    obtain ⟨i, deed⟩ := d
    rw [enterAll_cons, ih]
    cases deed <;> simp [Deed.enter, Deed.line?]

/-- The readings grow by those of the record, the latest first. -/
theorem enterAll_readings (purpose : Nat → Purpose) (record : Record) (j : Journal) :
    (enterAll purpose record j).readings
      = (record.filterMap fun d => d.2.reading? (purpose d.1)).reverse ++ j.readings := by
  induction record generalizing j with
  | nil => rfl
  | cons d record ih =>
    obtain ⟨i, deed⟩ := d
    rw [enterAll_cons, ih]
    cases deed <;> simp [Deed.enter, Deed.reading?]

/-- A record in which nobody talks to the observer leaves the trace as it is. -/
theorem enterAll_events {purpose : Nat → Purpose} {record : Record} {j : Journal}
    (h : ∀ d ∈ record, d.2.event? = none) : (enterAll purpose record j).events = j.events := by
  induction record generalizing j with
  | nil => rfl
  | cons d record ih =>
    obtain ⟨i, deed⟩ := d
    obtain ⟨hdeed, hrecord⟩ := List.forall_mem_cons.1 h
    rw [enterAll_cons, ih hrecord]
    cases deed with
    | tell event => cases hdeed
    | _ => rfl

theorem askedFor_enter (purpose q : Purpose) (deed : Deed) (j : Journal) :
    (deed.enter purpose j).askedFor q
      = j.askedFor q ++ if purpose = q then (deed.reading? purpose).toList else [] := by
  by_cases h : purpose = q <;> cases deed <;>
    simp [Deed.enter, Deed.reading?, Journal.askedFor, h]

/-- **What a check asks for.** Where no other check shares its purpose, what is asked for this
purpose grows by the readings of the check, in order. -/
theorem askedFor_enterAll {purpose : Nat → Purpose} {i : Nat}
    (hi : ∀ k, purpose k = purpose i → k = i) (record : Record) (j : Journal) :
    (enterAll purpose record j).askedFor (purpose i)
      = j.askedFor (purpose i) ++ (deedsAt record i).filterMap (Deed.reading? (purpose i)) := by
  induction record generalizing j with
  | nil => simp [enterAll]
  | cons d record ih =>
    obtain ⟨k, deed⟩ := d
    rw [enterAll_cons, ih, askedFor_enter, deedsAt_cons, List.append_assoc]
    by_cases hk : k = i
    · subst hk
      rw [if_pos rfl, if_pos rfl]
      cases deed <;> rfl
    · rw [if_neg (fun h => hk (hi k h)), if_neg hk, List.nil_append]

/-- Nothing else is asked for by the checks of a record. -/
theorem askedFor_enterAll_of_ne {purpose : Nat → Purpose} {q : Purpose} {record : Record}
    {j : Journal} (h : ∀ d ∈ record, purpose d.1 ≠ q) :
    (enterAll purpose record j).askedFor q = j.askedFor q := by
  induction record generalizing j with
  | nil => rfl
  | cons d record ih =>
    obtain ⟨k, deed⟩ := d
    obtain ⟨hk, hrecord⟩ := List.forall_mem_cons.1 h
    rw [enterAll_cons, ih hrecord, askedFor_enter, if_neg hk, List.append_nil]

/-- **No deed is lost.** The deeds of a record are those of its checks, check by check, up to
their order. -/
theorem perm_flatMap_deedsAt {record : Record} {n : Nat} (h : ∀ d ∈ record, d.1 < n) :
    (record.map Prod.snd).Perm ((List.range n).flatMap (deedsAt record)) := by
  -- the induction is on the number of checks, over what the first of them did
  have hpart : ∀ m, ((record.filter (·.1 < m)).map Prod.snd).Perm
      ((List.range m).flatMap (deedsAt record)) := by
    intro m
    induction m with
    | zero => simp
    | succ m ih =>
      -- up to place `m` there are the deeds below it, and those of the check at `m` itself
      have hlast : ((record.filter (·.1 < m + 1)).filter fun d => !decide (d.1 < m)).map Prod.snd
          = deedsAt record m := by
        rw [List.filter_filter, deedsAt, ← List.filterMap_eq_filter, List.map_filterMap]
        refine List.filterMap_congr fun d _ => ?_
        by_cases hd : d.1 = m
        · simp [hd, Option.guard]
        · have hne : (!decide (d.1 < m) && decide (d.1 < m + 1)) = false := by
            simp only [Bool.and_eq_false_iff, Bool.not_eq_false', decide_eq_true_eq,
              decide_eq_false_iff_not]
            omega
          rw [Option.guard, hne, if_neg hd]
          rfl
      have hfirst : (record.filter (·.1 < m + 1)).filter (·.1 < m) = record.filter (·.1 < m) := by
        rw [List.filter_filter]
        refine List.filter_congr fun d _ => ?_
        by_cases hd : d.1 < m
        · simp [hd, Nat.lt_succ_of_lt hd]
        · simp [hd]
      rw [List.range_succ, List.flatMap_append, List.flatMap_singleton, ← hlast]
      refine List.Perm.trans ?_ (List.Perm.append_right _ ih)
      rw [← hfirst, ← List.map_append]
      exact (List.filter_append_perm _ _).symm.map _
  -- all places lie below `n`, so in the end nothing is left out
  have hall : record.filter (·.1 < n) = record :=
    List.filter_eq_self.2 fun d hd => decide_eq_true (h d hd)
  simpa only [hall] using hpart n

/-! ## What holds of each check

A list of checks is usually made from a list of items, one check an item. -/

namespace Made

variable {α β : Type} {reader : Reader} {items : List β} {check : β → Check α} {record : Record}
  {results : List α}

/-- The part of the item at a place, and its result. -/
theorem of_getElem? (h : Made reader (items.map check) record results) {i : Nat} {item : β}
    (hitem : items[i]? = some item) :
    ∃ result, results[i]? = some result ∧ (check item).Comes (deedsAt record i) result ∧
      ∀ deed ∈ deedsAt record i, deed.Answered reader := by
  obtain ⟨result, hresult, hcomes⟩ := h.comes i (check item) (by rw [List.getElem?_map, hitem]; rfl)
  exact ⟨result, hresult, hcomes, fun deed hdeed => h.answered _ (mem_deedsAt.1 hdeed)⟩

/-- Results that are told by the item and its place. -/
theorem results_eq_map_zipIdx {g : β × Nat → α} (place : Nat)
    (h : Made reader (items.map check) record results)
    (hg : ∀ i item a, items[i]? = some item → (check item).Comes (deedsAt record i) a →
      a = g (item, place + i)) :
    results = (items.zipIdx place).map g := by
  refine List.ext_getElem? fun i => ?_
  rw [List.getElem?_map, List.getElem?_zipIdx]
  -- place by place; beyond the items there are no results either
  cases hitem : items[i]? with
  | none =>
    have hlen : results.length = items.length := by simpa using h.length_eq
    exact List.getElem?_eq_none (hlen ▸ List.getElem?_eq_none_iff.1 hitem)
  | some item =>
    obtain ⟨result, hresult, hcomes, -⟩ := h.of_getElem? hitem
    rw [hresult, hg i item result hitem hcomes]
    rfl

/-- Results that depend on their items alone. -/
theorem results_eq_map {g : β → α} (h : Made reader (items.map check) record results)
    (hg : ∀ item deeds a, (check item).Comes deeds a → (∀ deed ∈ deeds, deed.Answered reader) →
      a = g item) :
    results = items.map g := by
  have hplaces : results = items.zipIdx.map (g ∘ Prod.fst) := by
    refine h.results_eq_map_zipIdx 0 fun i item a hitem hcomes => ?_
    obtain ⟨-, -, -, hanswered⟩ := h.of_getElem? hitem
    exact hg item _ a hcomes hanswered
  rw [hplaces, ← List.map_map, List.zipIdx_map_fst]

/-- What holds of all deeds of each check holds of all deeds of the record. -/
theorem forall_deed {P : Deed → Prop} (h : Made reader (items.map check) record results)
    (hP : ∀ item deeds a, (check item).Comes deeds a → ∀ deed ∈ deeds, P deed) :
    ∀ d ∈ record, P d.2 := by
  intro d hd
  have hlt : d.1 < items.length := by simpa using h.place_lt d hd
  obtain ⟨result, -, hcomes, -⟩ := h.of_getElem? (List.getElem?_eq_getElem hlt)
  exact hP _ _ _ hcomes d.2 (mem_deedsAt.2 hd)

/-- What is picked from the deeds of the record is what is picked from those of each check, check by
check, up to the order. -/
theorem perm_picked {γ : Type} (h : Made reader (items.map check) record results)
    (k : Deed → Option γ) :
    (record.filterMap (k ·.2)).Perm
      ((List.range items.length).flatMap fun i => (deedsAt record i).filterMap k) := by
  have hlt : ∀ d ∈ record, d.1 < items.length := by simpa using h.place_lt
  have hperm := (perm_flatMap_deedsAt hlt).filterMap k
  rwa [List.filterMap_map, List.filterMap_flatMap] at hperm

/-- Two ways of picking something from deeds that agree on each check agree on the whole record,
up to the order. -/
theorem perm_filterMap {γ : Type} {f g : Deed → Option γ}
    (h : Made reader (items.map check) record results)
    (hfg : ∀ item deeds a, (check item).Comes deeds a → deeds.filterMap f = deeds.filterMap g) :
    (record.filterMap (f ·.2)).Perm (record.filterMap (g ·.2)) := by
  refine (h.perm_picked f).trans (.trans (.of_eq ?_) (h.perm_picked g).symm)
  refine List.flatMap_congr fun i hi => ?_
  obtain ⟨result, -, hcomes, -⟩ := h.of_getElem?
    (List.getElem?_eq_getElem (List.mem_range.1 hi))
  exact hfg _ _ _ hcomes

/-- Where what is picked from the deeds of a check depends on its item alone, it is picked from the
record item by item, up to the order. -/
theorem perm_flatMap {γ : Type} {f : Deed → Option γ} {g : β → List γ}
    (h : Made reader (items.map check) record results)
    (hg : ∀ item deeds a, (check item).Comes deeds a → (∀ deed ∈ deeds, deed.Answered reader) →
      deeds.filterMap f = g item) :
    (record.filterMap (f ·.2)).Perm (items.flatMap g) := by
  refine (h.perm_picked f).trans (.of_eq ?_)
  -- place by place again, now that both sides run over the items
  rw [List.flatMap_def, List.flatMap_def]
  refine congrArg List.flatten (List.ext_getElem (by simp) fun i hi hi' => ?_)
  have hlt : i < items.length := by simpa using hi'
  obtain ⟨result, -, hcomes, hanswered⟩ := h.of_getElem? (List.getElem?_eq_getElem hlt)
  simpa using hg _ _ _ hcomes hanswered

end Made

end Unimported.Scan
