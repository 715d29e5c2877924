/-
Batches: the pieces into which the candidates are cut.

Whatever the size that is asked for, zero included, the batches put together are the list, so
nothing is lost at the end of it, and no batch is empty. The other half of this module is about
lists with flags, which is what the checks of a batch come to.
-/
import Unimported.Scan.Detect
import Mathlib.Data.List.Basic

set_option autoImplicit false

namespace Unimported.Scan

open Source (File)

/-! ## Cutting

The fuel is the length of the list. A batch takes at least one item off, so more fuel than
that changes nothing, and after that the batches can be described without it. -/

section Cutting

variable {α : Type}

/-- Fuel beyond the length of the list makes no difference. -/
theorem batchesUpTo_eq_of_le {size : Nat} (hsize : 0 < size) {fuel fuel' : Nat} {items : List α}
    (h : items.length ≤ fuel) (h' : items.length ≤ fuel') :
    batchesUpTo size fuel items = batchesUpTo size fuel' items := by
  induction fuel generalizing fuel' items with
  | zero =>
    obtain rfl : items = [] := List.eq_nil_of_length_eq_zero (Nat.le_zero.1 h)
    cases fuel' <;> rfl
  | succ fuel ih =>
    cases items with
    | nil => cases fuel' <;> rfl
    | cons a rest =>
      cases fuel' with
      | zero => simp at h'
      | succ fuel' =>
        have hdrop : ((a :: rest).drop size).length ≤ rest.length := by
          simp only [List.length_drop, List.length_cons]
          omega
        simp only [List.length_cons] at h h'
        rw [batchesUpTo, batchesUpTo, @ih fuel' _ (by omega) (by omega)]

/-- The first batch has as many items as fit, and the others are the batches of the rest. -/
theorem batches_cons (size : Nat) (a : α) (rest : List α) :
    batches size (a :: rest)
      = (a :: rest).take (max size 1) :: batches size ((a :: rest).drop (max size 1)) := by
  have hsize : 0 < max size 1 := by omega
  rw [batches, List.length_cons, batchesUpTo, batches]
  refine congrArg _ (batchesUpTo_eq_of_le hsize ?_ (Nat.le_refl _))
  simp only [List.length_drop, List.length_cons]
  omega

/-- **Nothing is lost.** The batches put together are the list. -/
theorem flatten_batches (size : Nat) (items : List α) : (batches size items).flatten = items := by
  induction hn : items.length using Nat.strongRecOn generalizing items with
  | ind n ih =>
    cases items with
    | nil => rfl
    | cons a rest =>
      have hlt : ((a :: rest).drop (max size 1)).length < n := by
        simp only [List.length_drop, ← hn, List.length_cons]
        omega
      rw [batches_cons, List.flatten_cons, ih _ hlt _ rfl, List.take_append_drop]

end Cutting

/-! ## Flags

Checks return flags in the order of the files. Where flags are a function of the files,
picking files by flags is a filter. -/

/-- The files whose flags are set are those of which the flags say so. -/
theorem flagged_map (p : File → Bool) (files : List File) :
    flagged files (files.map p) = files.filter p := by
  induction files with
  | nil => rfl
  | cons file files ih =>
    rw [List.map_cons, flagged, ih]
    cases h : p file <;> simp [h]

/-- The same for flags that depend on the place too. -/
theorem flagged_map_zipIdx (p : File × Nat → Bool) (place : Nat) (files : List File) :
    flagged files ((files.zipIdx place).map p) = ((files.zipIdx place).filter p).map Prod.fst := by
  induction files generalizing place with
  | nil => rfl
  | cons file files ih =>
    rw [List.zipIdx_cons, List.map_cons, flagged, ih]
    cases h : p (file, place) <;> simp [h]

namespace Classification

/-- Parting files by flags that are a function of the file and its place: both parts keep the
order, and each file is in one of them. -/
theorem ofFlags_map_zipIdx (p : File × Nat → Bool) (place : Nat) (files : List File) :
    ofFlags files ((files.zipIdx place).map p)
      = ⟨((files.zipIdx place).filter p).map Prod.fst,
          ((files.zipIdx place).filter fun x => !p x).map Prod.fst⟩ := by
  induction files generalizing place with
  | nil => rfl
  | cons file files ih =>
    rw [List.zipIdx_cons, List.map_cons, ofFlags, ih]
    cases h : p (file, place) <;> simp [cons, h]

theorem ofFlags_map (p : File → Bool) (files : List File) :
    ofFlags files (files.map p) = ⟨files.filter p, files.filter fun file => !p file⟩ := by
  induction files with
  | nil => rfl
  | cons file files ih =>
    rw [List.map_cons, ofFlags, ih]
    cases h : p file <;> simp [cons, h]

end Classification

end Unimported.Scan
