/-
Tables for terminals: columns between borders, each as wide as its widest cell.
-/
import Unimported.Terminal.Style

set_option autoImplicit false

namespace Unimported.Terminal

/-- On which side of its column a cell stands. -/
inductive Align where
  | left
  | right
deriving DecidableEq, Repr

/-- So many spaces. -/
def blanks (n : Nat) : List Char := List.replicate n ' '

/-- A text filled up with spaces to a width. -/
def pad (align : Align) (width : Nat) (text : List Char) : List Char :=
  match align with
  | .left => text ++ blanks (width - text.length)
  | .right => blanks (width - text.length) ++ text

/-- The width of a column with the given cells. -/
def widest (cells : List (List Char)) : Nat := cells.foldr (fun cell width => max cell.length width) 0

/-- The characters that a border has at its left end, between columns, and at its right end. -/
structure Joints where
  left : Char
  middle : Char
  right : Char

/-- The joints of the border above a table. -/
def Joints.top : Joints := ⟨'┌', '┬', '┐'⟩

/-- The joints of the border below the headers. -/
def Joints.inner : Joints := ⟨'├', '┼', '┤'⟩

/-- The joints of the border below a table. -/
def Joints.bottom : Joints := ⟨'└', '┴', '┘'⟩

/-- The border across columns of the given widths. -/
def border (joints : Joints) (widths : List Nat) : Line :=
  let segments := widths.map fun width => List.replicate (width + 2) '─'
  [⟨.dim, joints.left :: (List.intercalate [joints.middle] segments ++ [joints.right])⟩]

/-- A line of cells. Each cell is a list of spans that is as wide as its column. -/
def row (cells : List Line) : Line :=
  plain "│" :: cells.flatMap fun cell => plain " " :: cell ++ [plain " ", plain "│"]

end Unimported.Terminal
