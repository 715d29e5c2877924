/-
Matching globs against paths.

A path is matched from its front to its end, with a mark at each place that the tokens so far can
lead to. At first only the front is marked, each token moves the marks on, and the glob matches
if the end is marked after the last one. A token looks at each place once, so the work grows with
the length of the path and not with the number of ways to read it.

Whether wildcards may run across slashes is up to the use of the glob.
-/
import Unimported.Glob.Token

set_option autoImplicit false

namespace Unimported.Glob

open Text (Byte)

/-- Whether wildcards match slashes too. -/
structure Wildcards where
  crossSlashes : Bool
deriving DecidableEq, Repr

/-- Whether a wildcard may stand for the byte. -/
def Wildcards.allow (w : Wildcards) (b : Byte) : Bool := w.crossSlashes || b != slash

/-- Whether the byte belongs to the class. -/
def inSet (negated : Bool) (ranges : List (Byte × Byte)) (b : Byte) : Bool :=
  (ranges.any fun r => r.1 ≤ b && b ≤ r.2) != negated

/-! ## Marks -/

/-- Bytes with a place before each of them and one at the end, of which some are marked. -/
inductive Marks where
  | last (marked : Bool)
  | cons (marked : Bool) (byte : Byte) (rest : Marks)
deriving DecidableEq, Repr

namespace Marks

/-- The bytes with at most the first place marked. -/
def ofBytes (first : Bool) : List Byte → Marks
  | [] => .last first
  | b :: bytes => .cons first b (ofBytes false bytes)

/-- Whether the end is marked. -/
def atEnd : Marks → Bool
  | .last marked => marked
  | .cons _ _ rest => rest.atEnd

/-- No place is marked. -/
def clear : Marks → Marks
  | .last _ => .last false
  | .cons _ b rest => .cons false b rest.clear

/-- A place is marked if it is in either; both are of the same bytes. -/
def or : Marks → Marks → Marks
  | .last a, .last b => .last (a || b)
  | .cons a byte rest, .cons b _ others => .cons (a || b) byte (rest.or others)
  | marks, _ => marks

/-- Moves each mark over one byte, if that is allowed; `before` says whether a mark comes in from
before the first place. -/
def step (allow : Byte → Bool) (before : Bool) : Marks → Marks
  | .last _ => .last before
  | .cons marked b rest => .cons before b (rest.step allow (marked && allow b))

/-- Spreads each mark over the allowed bytes behind it; `before` says whether one comes in from
before the first place. -/
def spread (allow : Byte → Bool) (before : Bool) : Marks → Marks
  | .last marked => .last (before || marked)
  | .cons marked b rest =>
    .cons (before || marked) b (rest.spread allow ((before || marked) && allow b))

/-- Moves each mark over one allowed byte. -/
def pass (allow : Byte → Bool) (m : Marks) : Marks := m.step allow false

/-- Moves each mark over a slash. -/
def passSlash (m : Marks) : Marks := m.pass (· == slash)

/-- Moves each mark over these bytes. -/
def passBytes : List Byte → Marks → Marks
  | [], m => m
  | b :: bytes, m => passBytes bytes (m.pass (· == b))

/-- Marks all places behind each mark too. -/
def toEnd (m : Marks) : Marks := m.spread (fun _ => true) false

/-- Moves each mark behind any slash that follows it. -/
def behindSlashes (m : Marks) : Marks := m.toEnd.passSlash

end Marks

/-! ## Tokens -/

mutual

/-- Whether the token says nothing at all: an alternative of groups without alternatives. -/
def Token.isVoid : Token → Bool
  | .choice alternatives => allVoid alternatives
  | _ => false

/-- Whether all tokens of the glob say nothing. -/
def isVoid : Pattern → Bool
  | [] => true
  | token :: tokens => token.isVoid && isVoid tokens

/-- Whether all the globs say nothing. -/
def allVoid : List Pattern → Bool
  | [] => true
  | pattern :: patterns => isVoid pattern && allVoid patterns

end

mutual

/-- Moves the marks to where a token can lead. -/
def Token.advance (w : Wildcards) : Token → Marks → Marks
  | .literal bytes, m => m.passBytes bytes
  | .any, m => m.pass w.allow
  | .many, m => m.spread w.allow false
  | .set negated ranges, m => m.pass (inSet negated ranges)
  | .leading, m => m.or m.behindSlashes
  | .between, m => m.passSlash.or m.passSlash.behindSlashes
  | .trailing, m => m.passSlash.toEnd
  | .choice alternatives, m => if allVoid alternatives then m else advanceAny w alternatives m

/-- Moves the marks to where the tokens can lead, one after the other. -/
def advance (w : Wildcards) : Pattern → Marks → Marks
  | [], m => m
  | token :: tokens, m => advance w tokens (token.advance w m)

/-- Moves the marks to where one of the globs can lead. An empty glob among others is left out. -/
def advanceAny (w : Wildcards) : List Pattern → Marks → Marks
  | [], m => m.clear
  | pattern :: patterns, m =>
    if isVoid pattern then advanceAny w patterns m
    else (advance w pattern m).or (advanceAny w patterns m)

end

/-- Whether the glob matches the whole of the bytes. Leading directories alone stand for any
path. -/
def matchesBytes (w : Wildcards) : Pattern → List Byte → Bool
  | [.leading], _ => true
  | pattern, bytes => (advance w pattern (.ofBytes true bytes)).atEnd

end Unimported.Glob
