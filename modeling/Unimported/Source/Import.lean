/-
Imports: the statements and calls by which a source text names other files.

There are three of them: the import statement, the call of `require` and the call of `import`.
Each names its file by a specifier between quotes. A file counts as mentioned when its token is
part of a specifier, wherever in it that is.
-/
import Unimported.Source.Signature

set_option autoImplicit false

namespace Unimported.Source

/-- The kinds of import. -/
inductive Import where
  /-- An import statement. -/
  | statement
  /-- A call of `require`. -/
  | require
  /-- A call of `import`. -/
  | dynamic
deriving DecidableEq, Repr

namespace Import

/-- The kinds of import, in the order in which they are read. -/
def kinds : List Import := [.statement, .require, .dynamic]

/-- A call with one quoted argument and nothing else between the parentheses. -/
def callSignature (head : List Char) : Signature :=
  [.word [head], .quote, .specifier, .quote, .word [[')']]]

/-- The shape by which this kind is recognised. The statement keeps to the line on which its
first word after the blanks stands. -/
def signature : Import → Signature
  | .statement => [.word ["import".toList], .blanks, .gap, .quote, .specifier, .quote]
  | .require => callSignature "require(".toList
  | .dynamic => callSignature "import(".toList

/-- The specifiers of all imports of this kind, in the order of the text. -/
def specifiersIn (kind : Import) (text : List Char) : List (List Char) :=
  kind.signature.captures text

end Import

/-- The specifiers of all imports: kind by kind, and within a kind in the order of the text. -/
def importedSpecifiers (text : List Char) : List (List Char) :=
  Import.kinds.flatMap fun kind => kind.specifiersIn text

/-- Whether `part` occurs in the text; the empty part occurs in every text. -/
def occursIn (part : List Char) : List Char → Bool
  | [] => part.isEmpty
  | c :: text => part.isPrefixOf (c :: text) || occursIn part text

/-- Whether the text imports something whose specifier contains `token`. -/
def mentions (text token : List Char) : Bool :=
  (importedSpecifiers text).any fun specifier => occursIn token specifier

end Unimported.Source
