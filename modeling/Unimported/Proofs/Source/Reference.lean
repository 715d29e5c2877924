/-
Reference tokens as functions of components.

The name by which a file is referred to is read off the last components of its path, so the
spelling of the path does not matter to it.
-/
import Unimported.Source.File
import Mathlib.Data.List.Basic

set_option autoImplicit false

namespace Unimported.Source

variable {p q : Path}

theorem fileName?_congr (h : p.components = q.components) : p.fileName? = q.fileName? := by
  rw [Path.fileName?, Path.fileName?, h]

theorem stem?_congr (h : p.components = q.components) : p.stem? = q.stem? := by
  rw [Path.stem?, Path.stem?, fileName?_congr h]

theorem extension?_congr (h : p.components = q.components) : p.extension? = q.extension? := by
  rw [Path.extension?, Path.extension?, fileName?_congr h]

theorem parentName?_congr (h : p.components = q.components) : p.parentName? = q.parentName? := by
  rw [Path.parentName?, Path.parentName?, h]

/-- Paths with the same components have the same token. -/
theorem referenceToken_congr (h : p.components = q.components) :
    referenceToken p = referenceToken q := by
  rw [referenceToken, referenceToken, stem?_congr h, parentName?_congr h]

/-- Paths with the same components have the same extension. -/
theorem dottedExtension_congr (h : p.components = q.components) :
    dottedExtension p = dottedExtension q := by
  rw [dottedExtension, dottedExtension, extension?_congr h]

/-- Paths with the same components are of the same kind. -/
theorem kind?_congr (h : p.components = q.components) : Kind.ofPath? p = Kind.ofPath? q := by
  rw [Kind.ofPath?, Kind.ofPath?, extension?_congr h]

/-! ## The end of a path

The last two components are enough to tell what a file goes by, so whatever a path has in
front of them may be changed. -/

section Append

variable {front : List Component}

theorem fileName?_of_append (h : p.components = front ++ q.components) (hq : q.components ≠ []) :
    p.fileName? = q.fileName? := by
  rw [Path.fileName?, Path.fileName?, h, List.getLast?_append_of_ne_nil _ hq]

theorem extension?_of_append (h : p.components = front ++ q.components)
    (hq : q.components ≠ []) : p.extension? = q.extension? := by
  rw [Path.extension?, Path.extension?, fileName?_of_append h hq]

theorem dottedExtension_of_append (h : p.components = front ++ q.components)
    (hq : q.components ≠ []) : dottedExtension p = dottedExtension q := by
  rw [dottedExtension, dottedExtension, extension?_of_append h hq]

/-- What stands in front of the last two components does not matter to the token. -/
theorem referenceToken_of_append (h : p.components = front ++ q.components)
    (hq : 2 ≤ q.components.length) : referenceToken p = referenceToken q := by
  have hne : q.components ≠ [] := List.ne_nil_of_length_pos (Nat.lt_of_lt_of_le Nat.two_pos hq)
  have hne' : q.components.dropLast ≠ [] :=
    List.ne_nil_of_length_pos (by rw [List.length_dropLast]; omega)
  have hparent : p.parentName? = q.parentName? := by
    rw [Path.parentName?, Path.parentName?, h, List.dropLast_append_of_ne_nil hne,
      List.getLast?_append_of_ne_nil _ hne']
  rw [referenceToken, referenceToken, Path.stem?, Path.stem?, fileName?_of_append h hne, hparent]

end Append

end Unimported.Source
