/-
Globs as regular expressions.

A glob that fixes too little of a path is matched as a regular expression: over bytes, from the
start of the path to its end. An expression is a tree of groups, alternations, sequences,
repetitions and classes, and one that is too deep is refused. Globs are used in sets, and a set has
no use if one of its expressions is refused, or if there is no room for them.
-/
import Unimported.Glob.Strategy

set_option autoImplicit false

namespace Unimported.Glob

open Text (Byte)

/-! ## Text -/

/-- The characters that mean something in an expression. -/
def metaCharacters : List Char :=
  ['\\', '.', '+', '*', '?', '(', ')', '|', '[', ']', '\x7b', '\x7d', '^', '$', '#', '&', '-', '~']

/-- A byte in an expression. -/
def byteText (b : Byte) : List Char :=
  if b < 0x80 then
    let c := Char.ofNat b.toNat
    if metaCharacters.contains c then ['\\', c] else [c]
  else '\\' :: 'x' :: Nat.toDigits 16 b.toNat

/-- Bytes in an expression. -/
def bytesText (bytes : List Byte) : List Char := bytes.flatMap byteText

/-- A range of bytes in a class. -/
def rangeText (range : Byte × Byte) : List Char :=
  if range.1 = range.2 then byteText range.1
  else byteText range.1 ++ '-' :: byteText range.2

mutual

/-- A token as a part of an expression. -/
def Token.text (w : Wildcards) : Token → List Char
  | .literal bytes => bytesText bytes
  | .any => if w.crossSlashes then ['.'] else "[^/]".toList
  | .many => if w.crossSlashes then ['.', '*'] else "[^/]*".toList
  | .set negated ranges =>
    '[' :: (if negated then ['^'] else []) ++ ranges.flatMap rangeText ++ [']']
  | .leading => "(?:/?|.*/)".toList
  | .between => "(?:/|/.*/)".toList
  | .trailing => "/.*".toList
  | .choice alternatives =>
    if allVoid alternatives then []
    else "(?:".toList ++ List.intercalate ['|'] (alternativeTexts w alternatives) ++ [')']

/-- A glob as a part of an expression. -/
def textOf (w : Wildcards) : Pattern → List Char
  | [] => []
  | token :: tokens => token.text w ++ textOf w tokens

/-- The alternatives that say something, as parts of an expression. -/
def alternativeTexts (w : Wildcards) : List Pattern → List (List Char)
  | [] => []
  | pattern :: patterns =>
    if isVoid pattern then alternativeTexts w patterns
    else textOf w pattern :: alternativeTexts w patterns

end

/-- The expression that a glob stands for. -/
def expressionText (w : Wildcards) (pattern : Pattern) : List Char :=
  "(?-u)^".toList
    ++ (match pattern with
      | [.leading] => ['.', '*']
      | _ => textOf w pattern)
    ++ ['$']

/-! ## Depth -/

/-- The number of parts that a token has in the sequence around it. -/
def Token.partCount : Token → Nat
  | .literal bytes => bytes.length
  | .trailing => 2
  | .choice alternatives => if allVoid alternatives then 0 else 1
  | _ => 1

/-- The number of parts of a glob in a sequence. -/
def partCount : Pattern → Nat
  | [] => 0
  | token :: tokens => token.partCount + partCount tokens

/-- The number of globs that say something. -/
def soundCount (patterns : List Pattern) : Nat := patterns.countP fun p => !isVoid p

mutual

/-- How deep the part of an expression is that a token stands for. -/
def Token.depth (w : Wildcards) : Token → Nat
  | .literal _ => 0
  | .any => if w.crossSlashes then 0 else 1
  | .many => if w.crossSlashes then 1 else 2
  | .set _ ranges => if ranges.length ≤ 1 then 1 else 2
  | .leading => 4
  | .between => 4
  | .trailing => 1
  | .choice alternatives =>
    if allVoid alternatives then 0
    else
      let inside := depthOfAny w alternatives
      if soundCount alternatives = 1 then inside + 1 else inside + 2

/-- How deep the deepest part of a glob is. -/
def depthOfParts (w : Wildcards) : Pattern → Nat
  | [] => 0
  | token :: tokens => max (token.depth w) (depthOfParts w tokens)

/-- How deep the deepest of the alternatives is. Several parts make a sequence, which counts. -/
def depthOfAny (w : Wildcards) : List Pattern → Nat
  | [] => 0
  | pattern :: patterns =>
    let parts := depthOfParts w pattern
    max (if partCount pattern ≤ 1 then parts else parts + 1) (depthOfAny w patterns)

end

/-- How deep an expression may be. -/
def depthLimit : Nat := 250

/-- Whether the expression of a glob is too deep. It is a sequence, for the ends of the path count
as parts. -/
def isTooDeep (w : Wildcards) (pattern : Pattern) : Bool :=
  depthLimit < depthOfParts w pattern + 1

/-! ## Sets

The expressions of a set become machines: one for each of those that look at the extension first,
and one for all others together. A machine is built only if no expression is too deep and if it fits
into the room that is there for it. How large it gets is for the engine of the expressions to say,
so the room is a parameter, and a set that is used without mention of it has all the room that it
needs. -/

/-- The room for a machine. -/
structure Room where
  /-- Whether the machine for these expressions fits in. -/
  fits : List (List Char) → Bool

/-- Room for any machine. -/
def Room.unbounded : Room := ⟨fun _ => true⟩

/-- Why a set of globs has no use. -/
inductive SetError where
  /-- An expression that stands by itself is too deep. -/
  | deepAlone (expression : List Char)
  /-- An expression that stands by itself is too large. -/
  | largeAlone (expression : List Char)
  /-- Of the expressions that are matched together, the one with this number is too deep. -/
  | deepTogether (index : Nat)
  /-- The expressions that are matched together are too large. -/
  | largeTogether
deriving DecidableEq, Repr

/-- The words for an expression that is too deep. -/
def deepMessage (index : Nat) : String := "error parsing pattern " ++ toString index

/-- The words for expressions that are too large. -/
def largeMessage : String := "error building NFA"

/-- The words about an expression that stands by itself. -/
def aloneMessage (expression : List Char) (message : String) : String :=
  "error parsing glob '" ++ String.ofList expression ++ "': " ++ message

/-- What is wrong, in words. -/
def SetError.message : SetError → String
  | .deepAlone expression => aloneMessage expression (deepMessage 0)
  | .largeAlone expression => aloneMessage expression largeMessage
  | .deepTogether index => deepMessage index
  | .largeTogether => largeMessage

namespace Room

/-- What is wrong with a glob whose expression stands by itself, if anything is. -/
def aloneError? (room : Room) (w : Wildcards) (pattern : Pattern) : Option SetError :=
  let expression := expressionText w pattern
  if isTooDeep w pattern then some (.deepAlone expression)
  else if room.fits [expression] then none
  else some (.largeAlone expression)

/-- What is wrong with globs whose expressions are matched together, if anything is. -/
def togetherError? (room : Room) (w : Wildcards) (patterns : List Pattern) : Option SetError :=
  match patterns.findIdx? (isTooDeep w) with
  | some index => some (.deepTogether index)
  | none =>
    if room.fits (patterns.map (expressionText w)) then none else some .largeTogether

/-- What is wrong with a set of globs, if anything is. Expressions that look at the extension first
stand by themselves and are checked before the others. -/
def setError? (room : Room) (w : Wildcards) (patterns : List Pattern) : Option SetError :=
  let withStrategy (s : Strategy) := patterns.filter fun p => strategyOf w p = s
  ((withStrategy .extensionFirst).findSome? (room.aloneError? w)).or
    (room.togetherError? w (withStrategy .expression))

end Room

/-- What is wrong with a set of globs that has all the room it needs, if anything is. -/
def setError? (w : Wildcards) (patterns : List Pattern) : Option SetError :=
  Room.unbounded.setError? w patterns

end Unimported.Glob
