/-
Ignore rules: the lines of an ignore file.

A line is a glob, and wildcards stay between two slashes. Where the glob has a slash at its front
or inside, it speaks of the whole path as seen from the directory of the file, and otherwise of
the name alone, at any depth. An exclamation mark at the front keeps what the glob matches, and a
slash at the end restricts it to directories. Of several rules that match, the last one counts.
If the globs of a file have no use together, no rule of it counts.
-/
import Unimported.Glob.Expression
import Unimported.Glob.Parse
import Unimported.Text.Blank
import Unimported.Text.Lines

set_option autoImplicit false

namespace Unimported.Ignore

open Text (Byte)

/-- What becomes of a path. -/
inductive Verdict where
  /-- It is left out. -/
  | ignore
  /-- It is kept, even if something else would leave it out. -/
  | keep
deriving DecidableEq, Repr

/-- One rule. -/
structure Rule where
  pattern : Glob.Pattern
  verdict : Verdict
  directoriesOnly : Bool

/-- The rules of a file, in order. -/
abbrev Rules := List Rule

/-! ## Reading -/

/-- A line without the blanks at its end, unless the last of them is escaped. -/
def trimLine (line : List Char) : List Char :=
  if ['\\', ' '].isSuffixOf line then line
  else (line.reverse.dropWhile Text.isBlank).reverse

/-- The glob without the slash at its end, which may be escaped, and whether there was one. -/
def cutSlash (glob : List Char) : List Char × Bool :=
  if glob.getLast? = some '/' then
    let glob := glob.dropLast
    (if glob.getLast? = some '\\' then glob.dropLast else glob, true)
  else (glob, false)

/-- The stars that stand for any directories at the front. -/
def anywhere : List Char := ['*', '*', '/']

/-- The glob as it is matched against a path that is seen from the directory of the file. -/
def rooted (anchored : Bool) (glob : List Char) : List Char :=
  let glob :=
    if anchored ∨ glob.contains '/' ∨ glob = ['*', '*'] then glob else anywhere ++ glob
  if ['/', '*', '*'].isSuffixOf glob then glob ++ ['/', '*'] else glob

/-- The rule that a line without its marks at the front stands for. -/
def Rule.ofGlob? (verdict : Verdict) (anchored : Bool) (text : List Char) : Option Rule :=
  let (glob, directoriesOnly) := cutSlash text
  match Glob.parseLoose (rooted anchored glob) with
  | .ok pattern => some ⟨pattern, verdict, directoriesOnly⟩
  | .error _ => none

/-- The rule behind the exclamation mark, if there was one. -/
def Rule.ofUnmarked? (verdict : Verdict) : List Char → Option Rule
  | '/' :: glob => Rule.ofGlob? verdict true glob
  | glob => Rule.ofGlob? verdict false glob

/-- The rule that a line stands for. Comments, blank lines and malformed globs stand for none. -/
def Rule.ofLine? (line : List Char) : Option Rule :=
  match trimLine line with
  | [] => none
  | '#' :: _ => none
  | '\\' :: '!' :: rest => Rule.ofGlob? .ignore false ('!' :: rest)
  | '\\' :: '#' :: rest => Rule.ofGlob? .ignore false ('#' :: rest)
  | '!' :: rest => Rule.ofUnmarked? .keep rest
  | line => Rule.ofUnmarked? .ignore line

/-- The mark that may stand at the front of a text. -/
def byteOrderMark : Char := '\uFEFF'

/-- The rules that lines stand for. -/
def Rules.ofLines : List (List Char) → Rules
  | [] => []
  | first :: rest =>
    (first.dropWhile (· == byteOrderMark) :: rest).filterMap Rule.ofLine?

/-- How wildcards of ignore rules match. -/
def wildcards : Glob.Wildcards := ⟨false⟩

/-- The rules of the bytes of a file. -/
def Rules.ofBytes (bytes : List Byte) : Except Glob.SetError Rules :=
  let rules := Rules.ofLines (Text.textLines bytes)
  match Glob.setError? wildcards (rules.map Rule.pattern) with
  | some e => .error e
  | none => .ok rules

/-! ## Matching -/

/-- Whether the rule speaks of a path as seen from the directory of its file. -/
def Rule.matchPath (r : Rule) (path : List Byte) (isDirectory : Bool) : Bool :=
  (isDirectory || !r.directoriesOnly) && Glob.matchesBytes wildcards r.pattern path

/-- The verdict of the last rule that speaks of a path. -/
def Rules.verdict? (rules : Rules) (path : List Byte) (isDirectory : Bool) : Option Verdict :=
  (rules.reverse.find? fun r => r.matchPath path isDirectory).map Rule.verdict

end Unimported.Ignore
