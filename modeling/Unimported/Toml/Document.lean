/-
TOML documents: the statements of a text, and the root table that they make up.
-/
import Unimported.Toml.Scalar

set_option autoImplicit false

namespace Unimported.Toml

/-! ## Values -/

/-- Leaves out blanks, comments and line ends; `fuel` bounds the number of lines. -/
def skipLines : Nat → List Char → List Char
  | 0, text => text
  | fuel + 1, text =>
    let text := skipComment (skipBlanks text)
    match afterLineEnd? text with
    | some rest => skipLines fuel rest
    | none => text

/-- How deeply values may be nested. -/
def depthLimit : Nat := 79

mutual

/-- Reads a value that lies in at most `depth` further brackets. -/
def readValue (depth fuel : Nat) (text : List Char) : Except Error (Value × List Char) :=
  match fuel with
  | 0 => .error .badValue
  | fuel + 1 =>
    match text with
    | [] => .error .badValue
    | c :: rest =>
      if c = '"' ∨ c = '\'' then (readString text).map fun r => (.string r.1, r.2)
      else if c = '[' then
        match depth with
        | 0 => .error .tooDeep
        | depth + 1 => do
          let (items, rest) ← readItems depth fuel rest
          return (.array items, rest)
      else if c = '\x7b' then
        match depth with
        | 0 => .error .tooDeep
        | depth + 1 => do
          let rest := skipBlanks rest
          if rest.head? = some '\x7d' then return (.table .braces [], rest.tail)
          let (fields, rest) ← readInlineFields depth fuel rest
          return (← bracesOf fields, rest)
      else readPlain text

/-- Reads the items of an array and its closing bracket. -/
def readItems (depth fuel : Nat) (text : List Char) : Except Error (List Value × List Char) :=
  match fuel with
  | 0 => .error .badValue
  | fuel + 1 =>
    let text := skipLines fuel text
    if text.head? = some ']' then .ok ([], text.tail)
    else do
      let (item, text) ← readValue depth fuel text
      let text := skipLines fuel text
      match text with
      | ',' :: rest =>
        let (items, rest) ← readItems depth fuel rest
        return (item :: items, rest)
      | ']' :: rest => return ([item], rest)
      | _ => throw .unexpectedCharacter

/-- Reads the fields of a table in braces and its closing brace. -/
def readInlineFields (depth fuel : Nat) (text : List Char) : Except Error (List Statement × List Char) :=
  match fuel with
  | 0 => .error .badValue
  | fuel + 1 => do
    let ((path, key), text) ← readKey text
    match text with
    | '=' :: rest =>
      let (value, text) ← readValue depth fuel (skipBlanks rest)
      match skipBlanks text with
      | ',' :: rest =>
        let (fields, rest) ← readInlineFields depth fuel rest
        return (.field path key value :: fields, rest)
      | '\x7d' :: rest => return ([.field path key value], rest)
      | _ => throw .unexpectedCharacter
    | _ => throw .badKey

end

/-! ## Lines -/

/-- Checks that nothing but a comment follows on the line, and leaves out its end. -/
def endOfLine (text : List Char) : Except Error (List Char) :=
  match skipComment (skipBlanks text) with
  | [] => .ok []
  | text =>
    match afterLineEnd? text with
    | some rest => .ok rest
    | none => .error .trailingCharacters

/-- Reads the header of a table behind its first bracket. -/
def readHeader (text : List Char) : Except Error (Statement × List Char) :=
  match text with
  | '[' :: text => do
    let ((path, key), text) ← readKey text
    match text with
    | ']' :: ']' :: rest => return (.arrayHeader path key, rest)
    | _ => throw .badHeader
  | _ => do
    let ((path, key), text) ← readKey text
    match text with
    | ']' :: rest => return (.header path key, rest)
    | _ => throw .badHeader

/-- Reads a key with its value; `fuel` is at least the length of the text. -/
def readField (fuel : Nat) (text : List Char) : Except Error (Statement × List Char) := do
  let ((path, key), text) ← readKey text
  match text with
  | '=' :: rest =>
    let (value, rest) ← readValue depthLimit (2 * fuel + 2) (skipBlanks rest)
    return (.field path key value, rest)
  | _ => throw .badKey

/-- Reads lines until the text ends; `fuel` is more than the length of the text. -/
def readStatements : Nat → List Char → Except Error (List Statement)
  | 0, _ => .error .unexpectedCharacter
  | fuel + 1, text =>
    match skipBlanks text with
    | [] => .ok []
    | '[' :: rest => do
      let (statement, rest) ← readHeader rest
      return statement :: (← readStatements fuel (← endOfLine rest))
    | c :: rest =>
      if c = '#' ∨ c = '\n' ∨ c = '\r' then do
        readStatements fuel (← endOfLine (c :: rest))
      else do
        let (statement, rest) ← readField fuel (c :: rest)
        return statement :: (← readStatements fuel (← endOfLine rest))

/-- The statements of a text, less a byte order mark at its front. -/
def statementsOf (text : List Char) : Except Error (List Statement) :=
  let text := match text with
    | '\uFEFF' :: rest => rest
    | _ => text
  readStatements (text.length + 1) text

/-- The root table of a text. -/
def parse (text : List Char) : Except Error Fields := do
  rootOf (← statementsOf text)

end Unimported.Toml
