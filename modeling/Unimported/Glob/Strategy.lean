/-
Strategies: what a glob looks at when it is matched.

Many globs fix so much of a path that they need no more than a comparison: with a name, a path,
an extension, a start or an end. The others are matched as expressions, of which those that fix
an extension look at that first.

Two dots at the end of a path lead above. They are no name and have no extension, so a glob that
goes by one of these does not match there, even where its text would.
-/
import Unimported.Glob.Match

set_option autoImplicit false

namespace Unimported.Glob

open Text (Byte)

/-- What a glob looks at. -/
inductive Strategy where
  /-- The name of the file, in any directory. -/
  | name
  /-- The whole path. -/
  | path
  /-- The extension. -/
  | extension
  /-- The start of the path. -/
  | start
  /-- The end of the path. -/
  | ending
  /-- The extension, and then the path as an expression. -/
  | extensionFirst
  /-- The path as an expression. -/
  | expression
deriving DecidableEq, Repr

/-! ## Fixed bytes -/

/-- The bytes that a token stands for, if they are fixed. -/
def Token.fixed? : Token → Option (List Byte)
  | .literal bytes => some bytes
  | _ => none

/-- The bytes that a glob stands for, if they are fixed. -/
def fixed? (pattern : Pattern) : Option (List Byte) :=
  (pattern.mapM Token.fixed?).map List.flatten

/-- The fixed bytes at the end of a glob. -/
def fixedEnd (pattern : Pattern) : List Byte :=
  (pattern.reverse.takeWhile fun token => token.fixed?.isSome).reverse.flatMap
    fun token => token.fixed?.getD []

/-- Whether the bytes are an extension with its dot. -/
def isExtension : List Byte → Bool
  | [] => false
  | b :: rest => b = dot && !rest.contains dot && !rest.contains slash

/-- Whether the fixed bytes at the end of a glob hold an extension with its dot. -/
def endsInExtension (pattern : Pattern) : Bool :=
  ((fixedEnd pattern).reverse.takeWhile (· != slash)).contains dot

/-- Whether all but an end of the path is fixed. -/
def fixesStart (w : Wildcards) (pattern : Pattern) : Bool :=
  (match pattern.getLast? with
    | some .trailing => true
    | some .many => w.crossSlashes && 1 < pattern.length
    | _ => false) && (fixed? pattern.dropLast).isSome

/-! ## Choosing -/

/-- The strategy of a glob that is not fixed, by what follows the directories at its front;
`led` says whether there are any. -/
def strategyOfLoose (w : Wildcards) (led : Bool) (pattern : Pattern) : Strategy :=
  let otherwise : Strategy := if endsInExtension pattern then .extensionFirst else .expression
  match pattern with
  | .many :: rest =>
    match fixed? rest with
    | some bytes =>
      if (led || w.crossSlashes) && isExtension bytes then .extension
      else if w.crossSlashes && !bytes.isEmpty && bytes != [slash] then .ending
      else otherwise
    | none => otherwise
  | _ => if !led && fixesStart w pattern then .start else otherwise

/-- The strategy of a glob, by what follows the directories at its front. -/
def strategyBehind (w : Wildcards) (led : Bool) (pattern : Pattern) : Strategy :=
  match fixed? pattern with
  | some bytes =>
    if bytes.isEmpty then .expression
    else if !led then .path
    else if bytes.contains slash then .ending
    else .name
  | none => strategyOfLoose w led pattern

/-- The strategy of a glob. -/
def strategyOf (w : Wildcards) : Pattern → Strategy
  | .leading :: pattern => strategyBehind w true pattern
  | pattern => strategyBehind w false pattern

/-- Whether the strategy looks at the name of the file or at its extension. -/
def Strategy.goesByName : Strategy → Bool
  | .name => true
  | .extension => true
  | .extensionFirst => true
  | _ => false

/-! ## Matching paths -/

/-- Whether a path ends in two dots. -/
def leadsAbove (p : Path) : Bool := p.segments.getLast? = some [dot, dot]

/-- Whether the glob matches the path. -/
def matchesPath (w : Wildcards) (pattern : Pattern) (p : Path) : Bool :=
  matchesBytes w pattern p.bytes && !(leadsAbove p && (strategyOf w pattern).goesByName)

end Unimported.Glob
