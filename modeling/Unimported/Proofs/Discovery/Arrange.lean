/-
Arranging files: each file once, in order, in its first spelling.

The files that walks have met are sorted and repeats are dropped. Sorting is stable, so of several
spellings of one file the one that was met first comes first, and it is the one that is kept. What
is left stands in strict order; each file that was met is there in some spelling, and nothing else.
-/
import Unimported.Discovery.Find
import Unimported.Proofs.Path.Order
import Mathlib.Data.List.Sort

set_option autoImplicit false

namespace Unimported.Discovery

open Source (File)

/-! ## Dropping repeats

Repeats are dropped from the end of the list on, by comparing neighbours. In a list in order
the spellings of one file are neighbours, and so no file is left twice; `dropRepeats_cons`
is the step, and the rest is by induction on the list. -/

/-- The first file is kept. Of what is kept behind it at most the first one is the same file, and
is dropped. -/
theorem dropRepeats_cons (file : File) (rest : List File) :
    ∃ others, dropRepeats (file :: rest) = file :: others ∧
      (others = dropRepeats rest ∧
          (∀ next ∈ (dropRepeats rest).head?, file.path.components ≠ next.path.components) ∨
        ∃ next, dropRepeats rest = next :: others ∧
          file.path.components = next.path.components) := by
  rw [dropRepeats]
  cases hrest : dropRepeats rest with
  | nil => exact ⟨[], rfl, .inl ⟨rfl, by simp⟩⟩
  | cons next others =>
    by_cases hsame : file.path.same next.path = true
    · exact ⟨others, by simp only [hsame, if_true], .inr ⟨next, rfl, Path.same_iff.1 hsame⟩⟩
    · refine ⟨next :: others, by simp only [hsame]; rfl, .inl ⟨rfl, ?_⟩⟩
      simpa [Path.same_iff] using hsame

theorem dropRepeats_sublist (files : List File) : (dropRepeats files).Sublist files := by
  induction files with
  | nil => exact .slnil
  | cons file rest ih =>
    obtain ⟨others, hkept, ⟨rfl, -⟩ | ⟨next, hrest, -⟩⟩ := dropRepeats_cons file rest
    · rw [hkept]
      exact ih.cons_cons file
    · rw [hkept]
      rw [hrest] at ih
      exact ((List.sublist_cons_self next others).trans ih).cons_cons file

/-- In a list in order, what is kept stands in strict order. -/
theorem dropRepeats_before {files : List File}
    (h : files.Pairwise fun f g => f.path.le g.path = true) :
    (dropRepeats files).Pairwise fun f g => f.path.Before g.path := by
  induction files with
  | nil => exact .nil
  | cons file rest ih =>
    obtain ⟨hfirst, hrest⟩ := List.pairwise_cons.1 h
    have hstrict := ih hrest
    have hle : ∀ f ∈ dropRepeats rest, file.path.le f.path = true :=
      fun f hf => hfirst f ((dropRepeats_sublist rest).subset hf)
    obtain ⟨others, hkept, ⟨rfl, hnext⟩ | ⟨next, hothers, hsame⟩⟩ := dropRepeats_cons file rest
    · -- the next file is another one, and all that follow come after it
      rw [hkept]
      refine List.pairwise_cons.2 ⟨fun f hf => ?_, hstrict⟩
      cases hdropped : dropRepeats rest with
      | nil =>
        rw [hdropped] at hf
        cases hf
      | cons next others =>
        rw [hdropped] at hf hstrict hnext hle
        have hbefore : file.path.Before next.path :=
          ⟨hle next List.mem_cons_self, hnext next rfl⟩
        rcases List.mem_cons.1 hf with rfl | hf
        · exact hbefore
        · exact hbefore.trans ((List.pairwise_cons.1 hstrict).1 f hf)
    · rw [hkept]
      rw [hothers] at hstrict hle
      obtain ⟨hafter, hstrict⟩ := List.pairwise_cons.1 hstrict
      refine List.pairwise_cons.2 ⟨fun f hf => ?_, hstrict⟩
      exact ⟨hle f (List.mem_cons_of_mem _ hf), hsame ▸ (hafter f hf).2⟩

/-- Each file is kept in some spelling. -/
theorem exists_dropRepeats {files : List File} {file : File} (h : file ∈ files) :
    ∃ kept ∈ dropRepeats files, kept.path.components = file.path.components := by
  induction files with
  | nil => cases h
  | cons first rest ih =>
    obtain ⟨others, hkept, hothers⟩ := dropRepeats_cons first rest
    rw [hkept]
    rcases List.mem_cons.1 h with rfl | h
    · exact ⟨file, List.mem_cons_self, rfl⟩
    · obtain ⟨kept, hmem, hcomponents⟩ := ih h
      obtain ⟨rfl, -⟩ | ⟨next, hrest, hsame⟩ := hothers
      · exact ⟨kept, List.mem_cons_of_mem _ hmem, hcomponents⟩
      · rw [hrest] at hmem
        rcases List.mem_cons.1 hmem with rfl | hmem
        · exact ⟨first, List.mem_cons_self, hsame.trans hcomponents⟩
        · exact ⟨kept, List.mem_cons_of_mem _ hmem, hcomponents⟩

/-- Of files in strict order none is dropped. -/
theorem dropRepeats_of_before {files : List File}
    (h : files.Pairwise fun f g => f.path.Before g.path) : dropRepeats files = files := by
  induction files with
  | nil => rfl
  | cons file rest ih =>
    obtain ⟨hfirst, hrest⟩ := List.pairwise_cons.1 h
    have hrest := ih hrest
    obtain ⟨others, hkept, ⟨rfl, -⟩ | ⟨next, hothers, hsame⟩⟩ := dropRepeats_cons file rest
    · rw [hkept, hrest]
    · rw [hrest] at hothers
      exact absurd hsame (hfirst next (hothers ▸ List.mem_cons_self)).2

/-- In a list in order, each file is kept in the spelling that comes first. -/
theorem find?_of_mem_dropRepeats {files : List File} {file : File}
    (h : files.Pairwise fun f g => f.path.le g.path = true) (hfile : file ∈ dropRepeats files) :
    files.find? (·.path.same file.path) = some file := by
  induction files with
  | nil => cases hfile
  | cons first rest ih =>
    have hstrict := dropRepeats_before h
    obtain ⟨others, hkept, hothers⟩ := dropRepeats_cons first rest
    rw [hkept] at hfile hstrict
    rcases List.mem_cons.1 hfile with rfl | hfile
    · have hself : file.path.same file.path = true := Path.same_iff.2 rfl
      rw [List.find?_cons, hself]
    · have hother : first.path.same file.path = false :=
        Bool.eq_false_iff.2 fun hsame =>
          ((List.pairwise_cons.1 hstrict).1 file hfile).2 (Path.same_iff.1 hsame)
      have hrest : file ∈ dropRepeats rest := by
        obtain ⟨rfl, -⟩ | ⟨next, hrest, -⟩ := hothers
        · exact hfile
        · exact hrest ▸ List.mem_cons_of_mem next hfile
      rw [List.find?_cons, hother]
      exact ih (List.pairwise_cons.1 h).2 hrest

/-! ## Sorting

The order of the list before sorting matters in one respect: sorting keeps the order among
the spellings of one file, so the one that was met first stays first. -/

/-- Whether a file comes before another one or is the same. -/
def inOrder (f g : File) : Bool := f.path.le g.path

theorem inOrder_trans (f g h : File) :
    inOrder f g = true → inOrder g h = true → inOrder f h = true :=
  Path.le_trans

theorem inOrder_total (f g : File) : (inOrder f g || inOrder g f) = true := Path.le_total _ _

/-- Files in the order of their components; spellings of one file keep the order they had. -/
def sorted (files : List File) : List File := files.mergeSort inOrder

theorem sorted_pairwise (files : List File) :
    (sorted files).Pairwise fun f g => f.path.le g.path = true :=
  List.pairwise_mergeSort inOrder_trans inOrder_total files

/-- **Sorting is stable.** The spellings of one file stand in the order in which they were met. -/
theorem filter_same_sorted (files : List File) (p : Path) :
    (sorted files).filter (·.path.same p) = files.filter (·.path.same p) := by
  have hpar : (files.filter (·.path.same p)).Pairwise fun f g => inOrder f g = true := by
    refine List.pairwise_of_forall_mem_list fun f hf g hg => ?_
    have hf := Path.same_iff.1 (List.mem_filter.1 hf).2
    have hg := Path.same_iff.1 (List.mem_filter.1 hg).2
    exact Path.le_of_components_eq (hf.trans hg.symm)
  -- spellings of one file are in order in any order, so sorting keeps them as a sublist
  have hsub : (files.filter (·.path.same p)).Sublist (sorted files) :=
    List.sublist_mergeSort inOrder_trans inOrder_total hpar List.filter_sublist
  have hsub := hsub.filter (·.path.same p)
  rw [List.filter_filter] at hsub
  simp only [Bool.and_self] at hsub
  refine (hsub.eq_of_length ?_).symm
  exact ((List.mergeSort_perm files _).filter _).length_eq.symm

theorem find?_sorted (files : List File) (p : Path) :
    (sorted files).find? (·.path.same p) = files.find? (·.path.same p) := by
  rw [← List.head?_filter, ← List.head?_filter, filter_same_sorted]

/-! ## Arranging

The two steps together. What is left of the files depends on which of them come first, and
on nothing else about their order: `mem_arrange_iff`. -/

/-- **Files are arranged in strict order**, so no file is there twice. -/
theorem arrange_before (files : List File) :
    (arrange files).Pairwise fun f g => f.path.Before g.path :=
  dropRepeats_before (sorted_pairwise files)

/-- Files in strict order are left as they are. -/
theorem arrange_of_before {files : List File}
    (h : files.Pairwise fun f g => f.path.Before g.path) : arrange files = files := by
  have hsorted : sorted files = files := List.mergeSort_of_pairwise (h.imp fun hbefore => hbefore.1)
  change dropRepeats (sorted files) = files
  rw [hsorted, dropRepeats_of_before h]

/-- **Nothing is added.** -/
theorem arrange_subset (files : List File) : arrange files ⊆ files :=
  fun _ h => List.mem_mergeSort.1 ((dropRepeats_sublist _).subset h)

/-- **Nothing is lost.** Each file is there in some spelling. -/
theorem exists_arrange {files : List File} {file : File} (h : file ∈ files) :
    ∃ kept ∈ arrange files, kept.path.components = file.path.components :=
  exists_dropRepeats (List.mem_mergeSort.2 h)

/-- **The first spelling is kept.** -/
theorem find?_of_mem_arrange {files : List File} {file : File} (h : file ∈ arrange files) :
    files.find? (·.path.same file.path) = some file := by
  rw [← find?_sorted]
  exact find?_of_mem_dropRepeats (sorted_pairwise files) h

/-- What is arranged are the files in their first spelling. -/
theorem mem_arrange_iff {files : List File} {file : File} :
    file ∈ arrange files ↔ files.find? (·.path.same file.path) = some file := by
  refine ⟨find?_of_mem_arrange, fun hfirst => ?_⟩
  obtain ⟨kept, hkept, hsame⟩ := exists_arrange (List.mem_of_find?_eq_some hfirst)
  have hkept' := find?_of_mem_arrange hkept
  have hpred : (fun f : File => f.path.same kept.path) = fun f => f.path.same file.path :=
    funext fun f => by rw [Path.same, Path.same, hsame]
  rw [hpred, hfirst] at hkept'
  exact Option.some.inj hkept' ▸ hkept

/-! ## Some of the files

A list in strict order is told by its members. So two ways to arrange files are compared by
asking which files each of them keeps. -/

/-- No two of the files are spellings of one. -/
def OneSpelling (files : List File) : Prop :=
  ∀ f ∈ files, ∀ g ∈ files, f.path.components = g.path.components → f = g

/-- Files in strict order are told by what is among them. -/
theorem eq_of_before {files files' : List File}
    (h : files.Pairwise fun f g => f.path.Before g.path)
    (h' : files'.Pairwise fun f g => f.path.Before g.path) (hmem : ∀ f, f ∈ files ↔ f ∈ files') :
    files = files' := by
  have : Std.Irrefl fun f g : File => f.path.Before g.path := ⟨fun f hf => hf.2 rfl⟩
  have : Std.Antisymm fun f g : File => f.path.Before g.path :=
    ⟨fun f g hfg hgf => absurd (Path.le_antisymm hfg.1 hgf.1) hfg.2⟩
  exact h.eq_of_mem_iff h' hmem

/-- Some of the files are arranged as they are among all, if of the spellings of one file all are
among them or none. -/
theorem arrange_filter_of_congr {files : List File} {keep : File → Bool}
    (h : ∀ f ∈ files, ∀ g ∈ files, f.path.components = g.path.components → keep f = keep g) :
    arrange (files.filter keep) = (arrange files).filter keep := by
  refine eq_of_before (arrange_before _) ((arrange_before _).filter keep) fun f => ?_
  rw [List.mem_filter, mem_arrange_iff, mem_arrange_iff, ← List.head?_filter, ← List.head?_filter,
    List.filter_filter]
  by_cases hkeep : f ∈ files ∧ keep f = true
  · -- the spellings of the file are all kept
    have hall : files.filter (fun g => g.path.same f.path && keep g)
        = files.filter (·.path.same f.path) := List.filter_congr fun g hg => by
      cases hsame : g.path.same f.path with
      | false => rfl
      | true => rw [h g hg f hkeep.1 (Path.same_iff.1 hsame), hkeep.2, Bool.and_self]
    rw [hall, and_iff_left hkeep.2]
  · refine iff_of_false (fun hfirst => hkeep ?_) fun hfirst => hkeep ⟨?_, hfirst.2⟩
    · obtain ⟨hmem, hkept⟩ := List.mem_filter.1 (List.mem_of_head? hfirst)
      exact ⟨hmem, (Bool.and_eq_true _ _ ▸ hkept).2⟩
    · exact (List.mem_filter.1 (List.mem_of_head? hfirst.1)).1

/-- If there is one spelling of each file, some of them are arranged as they are among all. -/
theorem arrange_filter {files : List File} (h : OneSpelling files) (keep : File → Bool) :
    arrange (files.filter keep) = (arrange files).filter keep :=
  arrange_filter_of_congr fun f hf g hg hsame => congrArg keep (h f hf g hg hsame)

/-! ## Other paths in the same order

Arranging asks how two paths compare and whether they are the same, and never what they are. -/

theorem dropRepeats_map {g : File → File} {files : List File}
    (h : ∀ f ∈ files, ∀ f' ∈ files, (g f).path.same (g f').path = f.path.same f'.path) :
    dropRepeats (files.map g) = (dropRepeats files).map g := by
  induction files with
  | nil => rfl
  | cons file rest ih =>
    have hrest := ih fun f hf f' hf' =>
      h f (List.mem_cons_of_mem _ hf) f' (List.mem_cons_of_mem _ hf')
    rw [List.map_cons, dropRepeats, hrest, dropRepeats]
    cases hdropped : dropRepeats rest with
    | nil => rfl
    | cons next others =>
      -- the neighbours that are compared are among the files, so the assumption is about them
      have hnext : next ∈ rest :=
        (dropRepeats_sublist rest).subset (hdropped ▸ List.mem_cons_self)
      simp only [List.map_cons, h file List.mem_cons_self next (List.mem_cons_of_mem _ hnext)]
      split <;> rfl

/-- If files get other paths that stand to one another as the old ones did, they are arranged as
before. -/
theorem arrange_map {g : File → File} {files : List File}
    (hle : ∀ f ∈ files, ∀ f' ∈ files, (g f).path.le (g f').path = f.path.le f'.path)
    (hsame : ∀ f ∈ files, ∀ f' ∈ files, (g f).path.same (g f').path = f.path.same f'.path) :
    arrange (files.map g) = (arrange files).map g := by
  have hsorted : (sorted files).map g = sorted (files.map g) :=
    List.map_mergeSort fun f hf f' hf' => (hle f hf f' hf').symm
  change dropRepeats (sorted (files.map g)) = (dropRepeats (sorted files)).map g
  rw [← hsorted]
  exact dropRepeats_map fun f hf f' hf' =>
    hsame f (List.mem_mergeSort.1 hf) f' (List.mem_mergeSort.1 hf')

end Unimported.Discovery
