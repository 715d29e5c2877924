/-
Tables, line by line.

A line of a table is cut by bars, and the bars stand at the same places in each line, which follow
from the widths of the columns. In a border the bars are its joints, and between them are dashes; in
a row each column holds a value and spaces. `IsTable` says so of lines of text, by the places of
their characters. Whatever a cell holds, `border` and `row` write such lines, if only no value is
wider than its column.
-/
import Mathlib.Data.List.Forall2
import Unimported.Terminal.Table

set_option autoImplicit false

namespace Unimported.Terminal

/-! ## Places

Places are counted in characters. A column of a given width takes three more places, so
where the bars stand follows from the widths alone. -/

/-- The place of the bar with that number, counted from zero: each column takes one place for the
bar before it and two for blanks. -/
def barAt : List Nat → Nat → Nat
  | _, 0 => 0
  | [], _ + 1 => 0
  | width :: widths, k + 1 => width + 3 + barAt widths k

/-- At a place stands a character, behind it a text, and behind that another character. -/
def Between (line : List Char) (place : Nat) (left : Char) (content : List Char) (right : Char) :
    Prop :=
  ∃ front back, front.length = place ∧ line = front ++ left :: (content ++ right :: back)

/-! ## Lines of a table

What a line is, said without the functions that write it: which characters stand at which
places. -/

/-- A value, and the side of its column on which it stands. -/
structure Cell where
  align : Align
  value : List Char

/-- The text is the value, with spaces on its other side. -/
inductive Cell.Fills : Cell → List Char → Prop where
  | left (value : List Char) (n : Nat) : Fills ⟨.left, value⟩ (value ++ List.replicate n ' ')
  | right (value : List Char) (n : Nat) : Fills ⟨.right, value⟩ (List.replicate n ' ' ++ value)

/-- The joint of a border at the bar with that number. -/
def Joints.at (joints : Joints) (columns k : Nat) : Char :=
  if k = 0 then joints.left else if k = columns then joints.right else joints.middle

/-- The line is a border across columns of these widths. -/
structure IsBorder (widths : List Nat) (joints : Joints) (line : List Char) : Prop where
  length : line.length = barAt widths widths.length + 1
  dashes : ∀ k width, widths[k]? = some width →
    Between line (barAt widths k) (joints.at widths.length k) (List.replicate (width + 2) '─')
      (joints.at widths.length (k + 1))

/-- The line has the cells in columns of these widths. -/
structure IsRow (widths : List Nat) (cells : List Cell) (line : List Char) : Prop where
  length : line.length = barAt widths widths.length + 1
  columns : cells.length = widths.length
  cell : ∀ k width cell, widths[k]? = some width → cells[k]? = some cell →
    ∃ text, cell.Fills text ∧ text.length = width ∧
      Between line (barAt widths k) '│' (' ' :: text ++ [' ']) '│'

/-- What a line of a table is. -/
inductive Strip where
  | border (joints : Joints)
  | row (cells : List Cell)

/-- The line is that, in a table with columns of these widths. -/
def Strip.Shows (widths : List Nat) : Strip → List Char → Prop
  | border joints => IsBorder widths joints
  | row cells => IsRow widths cells

/-- The lines are a table with columns of these widths. -/
def IsTable (widths : List Nat) (strips : List Strip) (lines : List (List Char)) : Prop :=
  List.Forall₂ (Strip.Shows widths) strips lines

theorem Strip.Shows.length {widths : List Nat} {strip : Strip} {line : List Char}
    (h : strip.Shows widths line) : line.length = barAt widths widths.length + 1 := by
  cases strip with
  | border joints => exact IsBorder.length h
  | row cells => exact IsRow.length h

/-- **All lines of a table are equally long.** -/
theorem IsTable.length_of_mem {widths : List Nat} {strips : List Strip} {lines : List (List Char)}
    (h : IsTable widths strips lines) :
    ∀ line ∈ lines, line.length = barAt widths widths.length + 1 := by
  induction h with
  | nil => exact List.forall_mem_nil _
  | cons hshows _ ih => exact List.forall_mem_cons.2 ⟨hshows.length, ih⟩

/-! ## Widths -/

variable {cells : List (List Char)} {value : List Char} {width : Nat}

theorem length_le_widest (h : value ∈ cells) : value.length ≤ widest cells := by
  induction cells with
  | nil => cases h
  | cons cell cells ih =>
    rw [widest, List.foldr_cons]
    rcases List.mem_cons.1 h with rfl | h
    · exact Nat.le_max_left _ _
    · exact Nat.le_trans (ih h) (Nat.le_max_right _ _)

theorem fills_pad (align : Align) (width : Nat) (value : List Char) :
    Cell.Fills ⟨align, value⟩ (pad align width value) := by
  cases align with
  | left => exact .left value _
  | right => exact .right value _

theorem length_pad (align : Align) (h : value.length ≤ width) :
    (pad align width value).length = width := by
  cases align with
  | left =>
    rw [pad, List.length_append, blanks, List.length_replicate]
    omega
  | right =>
    rw [pad, List.length_append, blanks, List.length_replicate]
    omega

/-! ## Strips of text

Borders and rows are both contents with joints between them. So where the joints stand is
proved once, by induction on the contents. -/

/-- Contents, with a joint before each of them and behind the last one. -/
def strip (joint : Nat → Char) : List (List Char) → List Char
  | [] => [joint 0]
  | content :: contents => joint 0 :: (content ++ strip (fun k => joint (k + 1)) contents)

variable {widths : List Nat} {contents : List (List Char)}

theorem strip_eq_cons (joint : Nat → Char) (contents : List (List Char)) :
    ∃ back, strip joint contents = joint 0 :: back := by
  cases contents with
  | nil => exact ⟨[], rfl⟩
  | cons content contents => exact ⟨_, rfl⟩

theorem length_strip (joint : Nat → Char) (h : contents.map List.length = widths.map (· + 2)) :
    (strip joint contents).length = barAt widths widths.length + 1 := by
  induction contents generalizing widths joint with
  | nil =>
    obtain rfl := List.map_eq_nil_iff.1 h.symm
    rfl
  | cons content contents ih =>
    cases widths with
    | nil => cases h
    | cons width widths =>
      obtain ⟨hcontent, hcontents⟩ := List.cons.inj h
      change content.length = width + 2 at hcontent
      rw [strip, List.length_cons, List.length_append, ih _ hcontents, List.length_cons,
        barAt]
      omega

/-- Each content stands between its two joints. The induction is on the contents; for those behind
the first one the joints are counted anew. -/
theorem between_strip (joint : Nat → Char) (h : contents.map List.length = widths.map (· + 2))
    {k : Nat} {content : List Char} (hk : contents[k]? = some content) :
    Between (strip joint contents) (barAt widths k) (joint k) content (joint (k + 1)) := by
  induction contents generalizing widths joint k with
  | nil => cases hk
  | cons first contents ih =>
    cases widths with
    | nil => cases h
    | cons width widths =>
      obtain ⟨hfirst, hcontents⟩ := List.cons.inj h
      change first.length = width + 2 at hfirst
      cases k with
      | zero =>
        -- The joint behind the first content is the one that the others start with.
        obtain ⟨back, hback⟩ := strip_eq_cons (fun k => joint (k + 1)) contents
        obtain rfl := Option.some.inj hk
        refine ⟨[], back, rfl, ?_⟩
        rw [strip, hback, List.nil_append]
      | succ k =>
        obtain ⟨front, back, hfront, hline⟩ := ih (fun k => joint (k + 1)) hcontents hk
        refine ⟨joint 0 :: (first ++ front), back, ?_, ?_⟩
        · rw [List.length_cons, List.length_append, hfront, barAt]
          omega
        · rw [strip, hline, List.cons_append, List.append_assoc]

/-! ## Borders

A border is written with its dashes put together first, and the joints at its ends are
others than those in the middle. -/

@[simp] theorem Line.write_false (line : Line) : line.write false = line.flatMap Span.text := rfl

theorem strip_eq_intercalate {joint : Nat → Char} {middle right : Char} (content : List Char)
    (hmiddle : ∀ k < contents.length, joint (k + 1) = middle)
    (hright : joint (contents.length + 1) = right) :
    strip joint (content :: contents)
      = joint 0 :: (List.intercalate [middle] (content :: contents) ++ [right]) := by
  induction contents generalizing joint content with
  | nil => rw [strip, strip, List.intercalate_singleton, ← hright, List.length_nil]
  | cons next contents ih =>
    have hrest : strip (fun k => joint (k + 1)) (next :: contents)
        = joint 1 :: (List.intercalate [middle] (next :: contents) ++ [right]) :=
      ih next (fun k hk => hmiddle (k + 1) (Nat.succ_lt_succ hk)) hright
    rw [strip, hrest, hmiddle 0 (Nat.succ_pos _), List.intercalate_cons_cons]
    simp only [List.append_assoc, List.cons_append, List.nil_append]

/-- The dashes of a border, column by column. -/
def dashes (widths : List Nat) : List (List Char) :=
  widths.map fun width => List.replicate (width + 2) '─'

theorem length_dashes (widths : List Nat) : (dashes widths).length = widths.length :=
  List.length_map _

theorem write_border (joints : Joints) (width : Nat) (widths : List Nat) :
    (border joints (width :: widths)).write false
      = strip (joints.at (widths.length + 1)) (dashes (width :: widths)) := by
  have hmiddle : ∀ k < (dashes widths).length,
      joints.at (widths.length + 1) (k + 1) = joints.middle := by
    intro k hk
    rw [length_dashes] at hk
    rw [Joints.at, if_neg (Nat.succ_ne_zero k), if_neg (by omega)]
  have hright : joints.at (widths.length + 1) ((dashes widths).length + 1) = joints.right := by
    rw [length_dashes, Joints.at, if_neg (Nat.succ_ne_zero _), if_pos rfl]
  rw [dashes, List.map_cons, ← dashes, strip_eq_intercalate _ hmiddle hright]
  simp [border, dashes, Joints.at]

/-- **A border has its joints where the bars are, and dashes elsewhere.** -/
theorem isBorder_border (joints : Joints) (h : widths ≠ []) :
    IsBorder widths joints ((border joints widths).write false) := by
  obtain ⟨width, others, rfl⟩ := List.exists_cons_of_ne_nil h
  have hlengths : (dashes (width :: others)).map List.length = (width :: others).map (· + 2) := by
    rw [dashes, List.map_map]
    exact List.map_congr_left fun width _ => List.length_replicate
  rw [write_border]
  refine ⟨length_strip _ hlengths, fun k width hk => between_strip _ hlengths ?_⟩
  rw [dashes, List.getElem?_map, hk, Option.map_some]

/-! ## Rows

In a row all joints are bars. Each cell is padded to the width of its column, with a blank
on either side. -/

theorem write_row (cells : List Line) :
    (row cells).write false
      = strip (fun _ => '│') (cells.map fun cell => ' ' :: cell.write false ++ [' ']) := by
  induction cells with
  | nil => rfl
  | cons cell cells ih =>
    rw [List.map_cons, strip, ← ih]
    simp [row, plain]

/-- **A row holds its values at the bars**, each with nothing but spaces beside it, if no value is
wider than its column. -/
theorem isRow_row {ι : Type} (columns : List ι) (cell : ι → Cell) (width : ι → Nat)
    (line : ι → Line)
    (hline : ∀ c ∈ columns,
      (line c).write false = pad (cell c).align (width c) (cell c).value)
    (hfits : ∀ c ∈ columns, (cell c).value.length ≤ width c) :
    IsRow (columns.map width) (columns.map cell) ((row (columns.map line)).write false) := by
  have htexts : (columns.map line).map (fun cell => ' ' :: cell.write false ++ [' '])
      = columns.map fun c => ' ' :: pad (cell c).align (width c) (cell c).value ++ [' '] := by
    rw [List.map_map]
    exact List.map_congr_left fun c hc => by rw [Function.comp_apply, hline c hc]
  have hlengths : (columns.map fun c =>
      ' ' :: pad (cell c).align (width c) (cell c).value ++ [' ']).map List.length
      = (columns.map width).map (· + 2) := by
    rw [List.map_map, List.map_map]
    refine List.map_congr_left fun c hc => ?_
    simp [length_pad _ (hfits c hc)]
  rw [write_row, htexts]
  -- Between two bars are the padded value and a blank on each side of it.
  refine ⟨length_strip _ hlengths, by rw [List.length_map, List.length_map], ?_⟩
  intro k w value hw hvalue
  rw [List.getElem?_map] at hw hvalue
  obtain ⟨c, hc, rfl⟩ := Option.map_eq_some_iff.1 hw
  rw [hc, Option.map_some] at hvalue
  obtain rfl := Option.some.inj hvalue
  refine ⟨pad (cell c).align (width c) (cell c).value, fills_pad _ _ _,
    length_pad _ (hfits c (List.mem_of_getElem? hc)), ?_⟩
  refine between_strip _ hlengths ?_
  rw [List.getElem?_map, hc, Option.map_some]

end Unimported.Terminal
