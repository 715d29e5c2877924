/-
TOML values.

A table remembers how it came about, since that decides what may still be added to it: a table
that a header names is complete with its section, one that only lies on the way to another may
get a header of its own later, one that dotted keys made may get more dotted keys, and one in
braces is complete at once.
-/

set_option autoImplicit false

namespace Unimported.Toml

/-- Why a text is not TOML. -/
inductive Error where
  /-- A character stands where it cannot. -/
  | unexpectedCharacter
  /-- A line goes on behind what it holds. -/
  | trailingCharacters
  /-- A key is missing or malformed. -/
  | badKey
  /-- A value is missing or malformed. -/
  | badValue
  /-- A string is malformed or not closed. -/
  | badString
  /-- A backslash is followed by something that it does not escape. -/
  | badEscape
  /-- A number is out of range. -/
  | outOfRange
  /-- A table header is malformed. -/
  | badHeader
  /-- A key or a table is defined a second time. -/
  | duplicateKey
  /-- A path leads through something that is no table. -/
  | notATable
  /-- Values are nested too deeply. -/
  | tooDeep
deriving DecidableEq, Repr

/-- How a table came about. -/
inductive Origin where
  /-- A header names it, or it is the root. -/
  | header
  /-- It lies on the way to a table that a header names. -/
  | passed
  /-- Dotted keys lead through it. -/
  | dotted
  /-- It stands in braces. -/
  | braces
deriving DecidableEq, Repr

/-- A key. -/
abbrev Key := List Char

/-- A value. -/
inductive Value where
  | string (text : List Char)
  | integer (n : Int)
  | float
  | boolean (b : Bool)
  | dateTime
  | array (items : List Value)
  | table (origin : Origin) (fields : List (Key × Value))
  /-- An array of tables with headers, the latest first. -/
  | tables (all : List (List (Key × Value)))

/-- The fields of a table, in order. -/
abbrev Fields := List (Key × Value)

/-- What a line of a text, or a number of lines, adds to it. -/
inductive Statement where
  /-- A value for the key at the end of a path. -/
  | field (path : List Key) (key : Key) (value : Value)
  /-- The start of the section of a table. -/
  | header (path : List Key) (key : Key)
  /-- The start of the section of a further table in an array. -/
  | arrayHeader (path : List Key) (key : Key)

/-! ## Tables -/

namespace Fields

/-- Changes the value of a key, which may be missing; a new one goes to the end. -/
def alter (key : Key) (f : Option Value → Except Error Value) :
    Fields → Except Error Fields
  | [] => do return [(key, ← f none)]
  | (k, v) :: rest =>
    if k = key then do return (k, ← f (some v)) :: rest
    else do return (k, v) :: (← alter key f rest)

/-- Adds a field whose key must be new. -/
def addNew (fields : Fields) (key : Key) (value : Value) : Except Error Fields :=
  if (fields.lookup key).isSome then .error .duplicateKey else .ok (fields ++ [(key, value)])

/-- Changes the table at the end of a dotted path. Tables on the way that are missing are made;
those that are there must have been made by dotted keys or lie on the way to a header, and the
last one must have been made by dotted keys. -/
def alterDotted (f : Fields → Except Error Fields) : List Key → Fields → Except Error Fields
  | [], fields => f fields
  | key :: path, fields =>
    fields.alter key fun
      | none => do return .table .dotted (← alterDotted f path [])
      | some (.table .dotted inner) => do return .table .dotted (← alterDotted f path inner)
      | some (.table .passed inner) =>
        if path.isEmpty then .error .duplicateKey
        else do return .table .passed (← alterDotted f path inner)
      | some (.table .header _) => .error .duplicateKey
      | some (.tables (last :: others)) =>
        if path.isEmpty then .error .duplicateKey
        else do return .tables ((← alterDotted f path last) :: others)
      | some _ => .error .notATable

/-- Changes the table at the end of the path of a header. Tables on the way that are missing are
made, and of an array of tables the last one is meant. -/
def alterPassed (f : Fields → Except Error Fields) : List Key → Fields → Except Error Fields
  | [], fields => f fields
  | key :: path, fields =>
    fields.alter key fun
      | none => do return .table .passed (← alterPassed f path [])
      | some (.table .braces _) => .error .notATable
      | some (.table origin inner) => do return .table origin (← alterPassed f path inner)
      | some (.tables (last :: others)) => do
        return .tables ((← alterPassed f path last) :: others)
      | some _ => .error .notATable

end Fields

/-- Adds the fields at the front of the statements to a table. -/
def addFields : Fields → List Statement → Except Error Fields
  | fields, .field path key value :: rest => do
    addFields (← fields.alterDotted (fun inner => inner.addNew key value) path) rest
  | fields, _ => .ok fields

/-- The table that a header starts, filled with the fields of its section: one that lies on the
way to another is completed, and any other that is there already is defined a second time. -/
def startTable (section_ : List Statement) (key : Key) (fields : Fields) :
    Except Error Fields :=
  fields.alter key fun
    | none => do return .table .header (← addFields [] section_)
    | some (.table .passed inner) => do return .table .header (← addFields inner section_)
    | some _ => .error .duplicateKey

/-- The array of tables to which a header adds one, filled with the fields of its section. -/
def startArrayTable (section_ : List Statement) (key : Key) (fields : Fields) :
    Except Error Fields :=
  fields.alter key fun
    | none => do return .tables [← addFields [] section_]
    | some (.tables all) => do return .tables ((← addFields [] section_) :: all)
    | some _ => .error .duplicateKey

/-- Adds the sections of all headers among the statements to the root table. -/
def addSections : Fields → List Statement → Except Error Fields
  | root, [] => .ok root
  | root, .field _ _ _ :: rest => addSections root rest
  | root, .header path key :: rest => do
    addSections (← root.alterPassed (startTable rest key) path) rest
  | root, .arrayHeader path key :: rest => do
    addSections (← root.alterPassed (startArrayTable rest key) path) rest

/-- The root table that the statements make up. -/
def rootOf (statements : List Statement) : Except Error Fields := do
  addSections (← addFields [] statements) statements

/-- The table in braces that the fields make up. -/
def bracesOf (fields : List Statement) : Except Error Value := do
  return .table .braces (← addFields [] fields)

end Unimported.Toml
