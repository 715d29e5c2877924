/-
Settings in YAML.

The document is a mapping. A value that is left blank counts as an empty list or mapping. Texts
may be written in any style, also where they look like numbers; numbers and truth values must be
plain, or literal blocks with the tag of their kind.
-/
import Unimported.Settings.Overlay
import Unimported.Yaml.Node

set_option autoImplicit false

namespace Unimported.Settings

/-! ## Scalars -/

/-- The value of a digit in some base. -/
def digitIn? (base : Nat) (c : Char) : Option Nat :=
  match Yaml.hexValue? c with
  | some d => if d < base then some d else none
  | none => none

/-- The number that digits of the base spell, if it has at most 64 bits. -/
def countIn? (base : Nat) (digits : List Char) : Option Nat :=
  match digits.mapM (digitIn? base) with
  | some (d :: ds) =>
    let n := (d :: ds).foldl (fun n d => n * base + d) 0
    if n ≤ maxCount then some n else none
  | _ => none

/-- Whether the text is a zero with more digits behind it, which is no number. -/
def isZeroPadded (text : List Char) : Bool :=
  text.length > 1 && text.head? == some '0' && text.all Char.isDigit

/-- The number that a plain scalar stands for: decimal, or with a mark for its base. -/
def countOfPlain? (text : List Char) : Option Nat :=
  let text := match text with
    | '+' :: rest => rest
    | _ => text
  let marked := match text with
    | '0' :: 'x' :: rest => countIn? 16 rest
    | '0' :: 'o' :: rest => countIn? 8 rest
    | '0' :: 'b' :: rest => countIn? 2 rest
    | _ => none
  match marked with
  | some n => some n
  | none => if isZeroPadded text then none else countIn? 10 text

/-- The truth value that a plain scalar stands for. -/
def truthOfPlain? (text : List Char) : Option Bool :=
  if ["true".toList, "True".toList, "TRUE".toList].contains text then some true
  else if ["false".toList, "False".toList, "FALSE".toList].contains text then some false
  else none

/-! ## Nodes -/

/-- The node itself, or the one that it means as an alias. -/
def follow (root : Yaml.Node) : Yaml.Node → Option Yaml.Node
  | .alias n => root.target? n
  | node => some node

/-- The text of a scalar. -/
def textOfNode? (root node : Yaml.Node) : Option String :=
  match follow root node with
  | some (.scalar _ _ _ text) => some (String.ofList text)
  | _ => none

/-- The texts of a sequence. -/
def textsOfNode? (root node : Yaml.Node) : Option (List String) :=
  match follow root node with
  | some (.sequence _ items) => items.mapM (textOfNode? root)
  | some other => if other.isBlank then some [] else none
  | none => none

/-- The text of a scalar that is plain, or a literal block with the tag. -/
def plainText? (tag : String) (root node : Yaml.Node) : Option (List Char) :=
  match follow root node with
  | some (.scalar _ _ .plain text) => some text
  | some (.scalar _ t .literal text) => if t = some tag.toList then some text else none
  | _ => none

/-- The fields of a mapping. -/
def fieldsOfNode (root node : Yaml.Node) : Except Mismatch (List (String × Yaml.Node)) :=
  match follow root node with
  | some (.mapping _ entries) =>
    entries.mapM fun entry =>
      match textOfNode? root entry.1 with
      | some name => .ok (name, entry.2)
      | none => .error .badName
  | some other => if other.isBlank then .ok [] else .error .notATable
  | none => .error .notATable

/-- How the nodes below the root show their values, apart from the settings of reports. -/
def yamlScalars (root : Yaml.Node) : ValueReader Yaml.Node where
  text := textOfNode? root
  texts := textsOfNode? root
  truth node := (plainText? "tag:yaml.org,2002:bool" root node).bind truthOfPlain?
  count node := (plainText? "tag:yaml.org,2002:int" root node).bind countOfPlain?
  report _ := .error (.wrongKind "report")

/-- How the nodes below the root show their values. -/
def yamlReader (root : Yaml.Node) : ValueReader Yaml.Node :=
  { yamlScalars root with
    report := fun node => do (yamlScalars root).reportOf (← fieldsOfNode root node) }

/-- The settings that a YAML document gives; one without content gives none. -/
def overlayOfYaml : Option Yaml.Node → Except Mismatch Overlay
  | none => .ok .none
  | some root => do (yamlReader root).overlayOf (← fieldsOfNode root root)

end Unimported.Settings
