/-
Verdicts: what a single check comes to, and what it does on the way.

The check of a candidate reads its file once. The check of a target is a search, described by
`Search`: candidates are read one after another up to the first hit, and an unreadable one is
skipped with a line in the log. Both descriptions hold whatever the reader answers; what is special
about a reader that always gives the same answers stands at the end.
-/
import Unimported.Proofs.Scan.Record

set_option autoImplicit false

namespace Unimported.Scan

open Source (File referenceToken)

/-! ## Answers

An answer counts by its text alone, and a failed reading counts as a text that says nothing. -/

/-- Whether a text was read that exports something. -/
def exportsIn : Except String String → Bool
  | .ok text => Source.hasExports text.toList
  | .error _ => false

/-- Whether a text was read that mentions the token. -/
def mentionsIn (token : String) : Except String String → Bool
  | .ok text => Source.mentions text.toList token.toList
  | .error _ => false

/-! ## Lines about unreadable files

The warnings are recognised by how they start. No other line that a check writes starts so,
and each failed reading calls for one warning. -/

/-- How the lines about unreadable files start. -/
def skipStart : String := "Skipping unreadable file "

/-- Whether a line is a warning about an unreadable file. -/
def isSkip (line : Log.Line) : Bool :=
  line.level = .warn && skipStart.toList.isPrefixOf line.message.toList

/-- The line that a failed reading calls for. -/
def Reading.skipLine? (r : Reading) : Option Log.Line :=
  match r.answer with
  | .ok _ => none
  | .error reason => some (unreadable r.path reason)

/-- The line that the deed calls for, if it is a reading that failed. -/
def Deed.skipLine? : Deed → Option Log.Line
  | .read p (.error reason) => some (unreadable p reason)
  | _ => none

/-- Each reading of the deeds that failed has its own warning, and no other deed gives one. -/
def Accounted (deeds : List Deed) : Prop :=
  (deeds.filterMap Deed.line?).filter isSkip = deeds.filterMap Deed.skipLine?

@[simp] theorem isSkip_unreadable (p : Path) (reason : String) :
    isSkip (unreadable p reason) = true := by
  simp [isSkip, unreadable, Log.warn, skipStart, String.toList_append]

@[simp] theorem isSkip_exportsLine (p : Path) (exporting : Bool) :
    isSkip (exportsLine p exporting) = false := rfl

@[simp] theorem isSkip_referenceLine (p : Path) (token : String) (found : Option File) :
    isSkip (referenceLine p token found) = false := by
  cases found <;> rfl

theorem accounted_append {first rest : List Deed} (hfirst : Accounted first)
    (hrest : Accounted rest) : Accounted (first ++ rest) := by
  unfold Accounted at *
  rw [List.filterMap_append, List.filter_append, List.filterMap_append, hfirst, hrest]

/-! ## The check of a candidate

There is one reading, and the rest of the check depends on its answer. -/

/-- The line about what a candidate was found to be. -/
def exportsNote (p : Path) : Except String String → Log.Line
  | .ok text => exportsLine p (Source.hasExports text.toList)
  | .error reason => unreadable p reason

/-- **The check of a candidate** reads its file once, and the answer decides. -/
theorem comes_checkExports {file : File} {deeds : List Deed} {flag : Bool}
    (h : (checkExports file).Comes deeds flag) :
    ∃ answer, deeds = [.read file.path answer, .note (exportsNote file.path answer)] ∧
      flag = exportsIn answer := by
  simp only [checkExports, Check.ask_bind] at h
  cases h with
  | @read _ _ answer deeds _ h =>
    cases answer with
    | ok text =>
      cases h with
      | note h =>
        cases h
        exact ⟨.ok text, rfl, rfl⟩
    | error reason =>
      cases h with
      | note h =>
        cases h
        exact ⟨.error reason, rfl, rfl⟩

theorem accounted_checkExports {file : File} {deeds : List Deed} {flag : Bool}
    (h : (checkExports file).Comes deeds flag) : Accounted deeds := by
  obtain ⟨answer, rfl, -⟩ := comes_checkExports h
  cases answer with
  | ok text => rfl
  | error reason =>
    simp [Accounted, List.filterMap_cons, Deed.line?, Deed.skipLine?, exportsNote]

/-- Candidates are checked without a word to the observer. -/
theorem silent_checkExports {file : File} {deeds : List Deed} {flag : Bool}
    (h : (checkExports file).Comes deeds flag) : ∀ deed ∈ deeds, deed.event? = none := by
  obtain ⟨answer, rfl, -⟩ := comes_checkExports h
  simp [Deed.event?]

/-! ## The check of a target

`Search` leaves out how the files are gone through: it is about the other files only, with
one rule for each way in which a candidate can turn out. All that is said of searches is by
induction on these rules. -/

/-- A search for the token through candidates: what it does and what it finds. -/
inductive Search (token : String) : List File → List Deed → Option File → Prop
  /-- No candidate is left. -/
  | ended : Search token [] [] none
  /-- The text of a candidate mentions the token. -/
  | hit {file : File} {files : List File} {text : String} :
      Source.mentions text.toList token.toList = true →
      Search token (file :: files) [.read file.path (.ok text)] (some file)
  /-- It does not, and the search goes on. -/
  | miss {file : File} {files : List File} {text : String} {deeds : List Deed}
      {found : Option File} :
      Source.mentions text.toList token.toList = false → Search token files deeds found →
      Search token (file :: files) (.read file.path (.ok text) :: deeds) found
  /-- It cannot be read, and the search goes on. -/
  | skip {file : File} {files : List File} {reason : String} {deeds : List Deed}
      {found : Option File} :
      Search token files deeds found →
      Search token (file :: files)
        (.read file.path (.error reason) :: .note (unreadable file.path reason) :: deeds) found

/-- The files other than the one at this path. -/
def others (target : Path) (files : List File) : List File :=
  files.filter fun file => !file.path.same target

/-- The first mention is found by a search through the other files. The induction is on the files,
and so follows the recursion of the search. -/
theorem search_of_comes {target : Path} {token : String} {files : List File} {deeds : List Deed}
    {found : Option File} (h : (firstMention target token files).Comes deeds found) :
    Search token (others target files) deeds found := by
  induction files generalizing deeds with
  | nil =>
    cases h
    exact .ended
  | cons file files ih =>
    rw [firstMention] at h
    by_cases hself : file.path.same target = true
    · -- the target itself is left out on both sides
      rw [if_pos hself] at h
      have hothers : others target (file :: files) = others target files := by
        simp [others, hself]
      rw [hothers]
      exact ih h
    · rw [if_neg hself] at h
      have hothers : others target (file :: files) = file :: others target files := by
        simp [others, hself]
      rw [hothers]
      rw [Check.ask_bind] at h
      -- a candidate is read, and its answer decides whether the search goes on
      cases h with
      | @read _ _ answer deeds _ h =>
        cases answer with
        | ok text =>
          dsimp only at h
          by_cases hmention : Source.mentions text.toList token.toList = true
          · rw [if_pos hmention] at h
            cases h
            exact .hit hmention
          · rw [if_neg hmention] at h
            exact .miss (by simpa using hmention) (ih h)
        | error reason =>
          cases h with
          | note h => exact .skip (ih h)

/-- The search for a reference to a target goes through the other files; then a line says what it
came to. -/
theorem comes_searchReference {files : List File} {target : File} {deeds : List Deed}
    {found : Option File} (h : (searchReference target files).Comes deeds found) :
    ∃ searched, Search (referenceToken target.path) (others target.path files) searched found ∧
      deeds = searched ++
        [.note (referenceLine target.path (referenceToken target.path) found)] := by
  obtain ⟨searched, found', noted, rfl, hmention, hnoted⟩ := h.of_bind
  cases hnoted with
  | note hnoted =>
    cases hnoted
    exact ⟨searched, search_of_comes hmention, rfl⟩

/-- **The check of a target** is a search through the other files; then the target is counted and
the observer is told. -/
theorem comes_checkReference {files : List File} {target : File} {deeds : List Deed} {flag : Bool}
    (h : (checkReference files target).Comes deeds flag) :
    ∃ searched found n,
      Search (referenceToken target.path) (others target.path files) searched found ∧
      deeds = searched ++
        [.note (referenceLine target.path (referenceToken target.path) found), .count n,
          .tell (.progressed .crossReference n files.length target.path)] ∧
      flag = found.isSome := by
  obtain ⟨first, found, rest, rfl, hfirst, hrest⟩ := h.of_bind
  obtain ⟨searched, hsearch, rfl⟩ := comes_searchReference hfirst
  cases hrest with
  | @count _ n _ _ hrest =>
    cases hrest with
    | tell hrest =>
      cases hrest
      exact ⟨searched, found, n, hsearch, List.append_assoc .., rfl⟩

namespace Search

variable {token : String} {files : List File} {deeds : List Deed} {found : Option File}

/-- A search reads nothing but candidates. -/
theorem path_mem (h : Search token files deeds found) (q : Purpose) :
    ∀ r ∈ deeds.filterMap (Deed.reading? q), ∃ file ∈ files, file.path = r.path := by
  induction h with
  | ended => simp
  | hit _ => simp [Deed.reading?]
  | miss _ _ ih =>
    intro r hr
    rcases List.mem_cons.1 hr with rfl | hr
    · exact ⟨_, List.mem_cons_self, rfl⟩
    · obtain ⟨file, hfile, hpath⟩ := ih r hr
      exact ⟨file, List.mem_cons_of_mem _ hfile, hpath⟩
  | skip _ ih =>
    intro r hr
    rcases List.mem_cons.1 hr with rfl | hr
    · exact ⟨_, List.mem_cons_self, rfl⟩
    · obtain ⟨file, hfile, hpath⟩ := ih r hr
      exact ⟨file, List.mem_cons_of_mem _ hfile, hpath⟩

/-- Something is found exactly when one of the texts that the search read mentions the token. -/
theorem isSome_eq_any (h : Search token files deeds found) (q : Purpose) :
    found.isSome = (deeds.filterMap (Deed.reading? q)).any fun r => mentionsIn token r.answer := by
  induction h with
  | ended => rfl
  | hit hmention => simp [Deed.reading?, mentionsIn, hmention]
  | miss hmention _ ih => simp [Deed.reading?, mentionsIn, hmention, ih]
  | skip _ ih => simp [Deed.reading?, mentionsIn, ih]

theorem accounted (h : Search token files deeds found) : Accounted deeds := by
  induction h with
  | ended => rfl
  | hit _ => rfl
  | miss _ _ ih => exact ih
  | skip _ ih =>
    unfold Accounted at *
    simp [List.filterMap_cons, Deed.line?, Deed.skipLine?, ih]

end Search

theorem accounted_checkReference {files : List File} {target : File} {deeds : List Deed}
    {flag : Bool} (h : (checkReference files target).Comes deeds flag) : Accounted deeds := by
  obtain ⟨searched, found, n, hsearch, rfl, -⟩ := comes_checkReference h
  refine accounted_append hsearch.accounted ?_
  simp [Accounted, List.filterMap_cons, Deed.line?, Deed.skipLine?]

/-! ## Answers that never change

With such a reader the rules of `Search` are the cases of `List.find?`, and so the result
and the readings can be written down. -/

section Fixed

variable {texts : Path → Except String String} {token : String} {file : File} {files : List File}

/-- The reading of a file. -/
def readingOf (texts : Path → Except String String) (q : Purpose) (file : File) : Reading :=
  ⟨q, file.path, texts file.path⟩

/-- The files up to the first one whose text mentions the token, or all of them. -/
def upToMention (texts : Path → Except String String) (token : String) (files : List File) :
    List File :=
  files.take (files.findIdx (fun file => mentionsIn token (texts file.path)) + 1)

theorem upToMention_cons_of_mentions (h : mentionsIn token (texts file.path) = true) :
    upToMention texts token (file :: files) = [file] := by
  simp [upToMention, List.findIdx_cons, h]

theorem upToMention_cons_of_not (h : mentionsIn token (texts file.path) = false) :
    upToMention texts token (file :: files) = file :: upToMention texts token files := by
  simp [upToMention, List.findIdx_cons, h]

namespace Search

variable {deeds : List Deed} {found : Option File}

/-- **A search with a reader whose answers never change** finds the first candidate whose text
mentions the token, and reads the candidates up to that one. -/
theorem fixed (h : Search token files deeds found) (q : Purpose)
    (hanswered : ∀ deed ∈ deeds, deed.Answered (.fixed texts)) :
    found = files.find? (fun file => mentionsIn token (texts file.path)) ∧
      deeds.filterMap (Deed.reading? q)
        = (upToMention texts token files).map (readingOf texts q) := by
  induction h with
  | ended => exact ⟨rfl, rfl⟩
  | @hit file files text hmention =>
    obtain ⟨_, htext⟩ := hanswered _ List.mem_cons_self
    have htext : texts file.path = .ok text := htext.symm
    have hmentions : mentionsIn token (texts file.path) = true := by rwa [htext]
    rw [upToMention_cons_of_mentions hmentions, List.find?_cons, hmentions]
    exact ⟨rfl, by simp [Deed.reading?, readingOf, htext]⟩
  | @miss file files text deeds found hmention _ ih =>
    obtain ⟨⟨_, htext⟩, hrest⟩ := List.forall_mem_cons.1 hanswered
    have htext : texts file.path = .ok text := htext.symm
    have hmentions : mentionsIn token (texts file.path) = false := by rwa [htext]
    obtain ⟨hfound, hreadings⟩ := ih hrest
    rw [upToMention_cons_of_not hmentions, List.find?_cons, hmentions]
    exact ⟨hfound, by simp [Deed.reading?, readingOf, htext, hreadings]⟩
  | @skip file files reason deeds found _ ih =>
    obtain ⟨⟨_, htext⟩, hrest⟩ := List.forall_mem_cons.1 hanswered
    -- a file that cannot be read mentions nothing
    have htext : texts file.path = .error reason := htext.symm
    have hmentions : mentionsIn token (texts file.path) = false := by
      rw [htext]
      rfl
    have hnote : Deed.reading? q (.note (unreadable file.path reason)) = none := rfl
    obtain ⟨hfound, hreadings⟩ := ih (List.forall_mem_cons.1 hrest).2
    rw [upToMention_cons_of_not hmentions, List.find?_cons, hmentions]
    exact ⟨hfound, by
      simp [List.filterMap_cons_none hnote, Deed.reading?, readingOf, htext, hreadings]⟩

/-- Something is found exactly when one of the candidates has a text that mentions the token: none
of them is passed over. -/
theorem isSome_fixed (h : Search token files deeds found)
    (hanswered : ∀ deed ∈ deeds, deed.Answered (.fixed texts)) :
    found.isSome = files.any fun file => mentionsIn token (texts file.path) := by
  rw [(h.fixed (.reference 0) hanswered).1, List.isSome_find?]

end Search

end Fixed

end Unimported.Scan
