/-
YAML documents as trees of nodes.

An anchor gives a node a number, and an alias refers to a number. The number of an anchor is how
many names are in use when it is met, so a name that is used anew takes a number that a later
name may take as well; an alias then means the latest of all nodes with its number.
-/
import Unimported.Yaml.Token

set_option autoImplicit false

namespace Unimported.Yaml

/-- A node of a document. -/
inductive Node where
  /-- The node with the given anchor. -/
  | alias (target : Nat)
  /-- A text, with its tag if it has one. -/
  | scalar (anchor : Option Nat) (tag : Option (List Char)) (style : Style) (value : List Char)
  /-- A list of nodes. -/
  | sequence (anchor : Option Nat) (items : List Node)
  /-- A list of keys, each with a value. -/
  | mapping (anchor : Option Nat) (entries : List (Node × Node))

namespace Node

/-- The node where nothing is written. -/
def blank : Node := .scalar none none .plain []

/-- Whether the node was left blank, or could have been. -/
def isBlank : Node → Bool
  | .scalar _ _ .plain [] => true
  | _ => false

/-- The number of the node's anchor. -/
def anchor? : Node → Option Nat
  | .alias _ => none
  | .scalar a _ _ _ => a
  | .sequence a _ => a
  | .mapping a _ => a

mutual

/-- All nodes of the tree that have an anchor, in the order of the text. -/
def anchored : Node → List (Nat × Node)
  | .alias _ => []
  | .scalar a t s v => (a.map fun n => (n, Node.scalar a t s v)).toList
  | .sequence a items =>
    (a.map fun n => (n, Node.sequence a items)).toList ++ anchoredItems items
  | .mapping a entries =>
    (a.map fun n => (n, Node.mapping a entries)).toList ++ anchoredEntries entries

/-- All nodes below the items that have an anchor. -/
def anchoredItems : List Node → List (Nat × Node)
  | [] => []
  | item :: items => item.anchored ++ anchoredItems items

/-- All nodes below the entries that have an anchor. -/
def anchoredEntries : List (Node × Node) → List (Nat × Node)
  | [] => []
  | (key, value) :: entries => key.anchored ++ (value.anchored ++ anchoredEntries entries)

end

/-- The node that an alias in the tree means. -/
def target? (root : Node) (n : Nat) : Option Node :=
  (root.anchored.reverse.find? fun a => a.1 == n).map Prod.snd

end Node

/-! ## From tokens to nodes -/

/-- The tokens that are left, and the names of anchors so far with their numbers. -/
structure NodeState where
  tokens : List Token
  names : List (List Char × Nat)

namespace NodeState

/-- Gives the name of an anchor its number. -/
def define (p : NodeState) (name : List Char) : NodeState × Nat :=
  let n := p.names.length
  ({ p with names := (name, n) :: p.names.filter fun a => a.1 != name }, n)

/-- Leaves out the next token. -/
def skip (p : NodeState) : NodeState := { p with tokens := p.tokens.tail }

/-- The next token. -/
def next (p : NodeState) : Token := p.tokens.headD .streamEnd

end NodeState

/-- The prefixes that the handles of tags stand for. -/
abbrev Handles := List (List Char × List Char)

/-- The handles that need no declaration. -/
def defaultHandles : Handles :=
  [(['!'], ['!']), (['!', '!'], "tag:yaml.org,2002:".toList)]

/-- The full name of a tag. -/
def resolveTag (handles : Handles) (tag : RawTag) : Except Error (List Char) :=
  if tag.handle.isEmpty then .ok tag.suffix
  else
    match handles.lookup tag.handle with
    | some start => .ok (start ++ tag.suffix)
    | none => .error .unknownHandle

/-- What may stand in front of a node. -/
structure Properties where
  anchor : Option (List Char)
  tag : Option RawTag

/-- Reads an anchor and a tag, in either order. -/
def readProperties (p : NodeState) : Properties × NodeState :=
  match p.tokens with
  | .anchor a :: .tag t :: rest => (⟨some a, some t⟩, { p with tokens := rest })
  | .anchor a :: rest => (⟨some a, none⟩, { p with tokens := rest })
  | .tag t :: .anchor a :: rest => (⟨some a, some t⟩, { p with tokens := rest })
  | .tag t :: rest => (⟨none, some t⟩, { p with tokens := rest })
  | _ => (⟨none, none⟩, p)

/-- Where a node stands: on its own in a block, as part of an entry of a mapping in a block
(where a sequence needs no indentation), or in brackets. -/
inductive Place where
  | block
  | entry
  | flow
deriving DecidableEq, Repr

mutual

/-- Reads a node. -/
def readNode (handles : Handles) (fuel : Nat) (place : Place) (p : NodeState) :
    Except Error (Node × NodeState) :=
  match fuel with
  | 0 => .error .missingNode
  | fuel + 1 =>
    match p.tokens with
    | .alias name :: rest =>
      match p.names.lookup name with
      | some n => .ok (.alias n, { p with tokens := rest })
      | none => .error .unknownAnchor
    | _ => do
      let (properties, p) := readProperties p
      let tag ← match properties.tag with
        | some t => (resolveTag handles t).map some
        | none => pure none
      let (p, anchor) := match properties.anchor with
        | some name => ((p.define name).1, some (p.define name).2)
        | none => (p, none)
      match p.next with
      | .scalar style value => return (.scalar anchor tag style value, p.skip)
      | .flowSequence => do
        let (items, p) ← readFlowSequence handles fuel true p.skip
        return (.sequence anchor items, p)
      | .flowMapping => do
        let (entries, p) ← readFlowMapping handles fuel true p.skip
        return (.mapping anchor entries, p)
      | .blockEntry =>
        if place = .entry then do
          let (items, p) ← readIndentless handles fuel p
          return (.sequence anchor items, p)
        else if properties.anchor.isSome || properties.tag.isSome then
          return (.scalar anchor tag .plain [], p)
        else throw .missingNode
      | .blockSequence =>
        if place = .flow then
          if properties.anchor.isSome || properties.tag.isSome then
            return (.scalar anchor tag .plain [], p)
          else throw .missingNode
        else do
          let (items, p) ← readBlockSequence handles fuel p.skip
          return (.sequence anchor items, p)
      | .blockMapping =>
        if place = .flow then
          if properties.anchor.isSome || properties.tag.isSome then
            return (.scalar anchor tag .plain [], p)
          else throw .missingNode
        else do
          let (entries, p) ← readBlockMapping handles fuel p.skip
          return (.mapping anchor entries, p)
      | _ =>
        if properties.anchor.isSome || properties.tag.isSome then
          return (.scalar anchor tag .plain [], p)
        else throw .missingNode

/-- Reads the entries of a block sequence and its end. -/
def readBlockSequence (handles : Handles) (fuel : Nat) (p : NodeState) :
    Except Error (List Node × NodeState) :=
  match fuel with
  | 0 => .error .missingNode
  | fuel + 1 =>
    match p.next with
    | .blockEntry => do
      let p := p.skip
      let (item, p) ←
        if p.next = .blockEntry ∨ p.next = .blockEnd then pure (.blank, p)
        else readNode handles fuel .block p
      let (items, p) ← readBlockSequence handles fuel p
      return (item :: items, p)
    | .blockEnd => .ok ([], p.skip)
    | _ => .error .badCollection

/-- Reads the entries of a sequence without indentation of its own. -/
def readIndentless (handles : Handles) (fuel : Nat) (p : NodeState) :
    Except Error (List Node × NodeState) :=
  match fuel with
  | 0 => .error .missingNode
  | fuel + 1 =>
    match p.next with
    | .blockEntry => do
      let p := p.skip
      let (item, p) ←
        if p.next = .blockEntry ∨ p.next = .key ∨ p.next = .value ∨ p.next = .blockEnd then
          pure (.blank, p)
        else readNode handles fuel .block p
      let (items, p) ← readIndentless handles fuel p
      return (item :: items, p)
    | _ => .ok ([], p)

/-- Reads the entries of a block mapping and its end. -/
def readBlockMapping (handles : Handles) (fuel : Nat) (p : NodeState) :
    Except Error (List (Node × Node) × NodeState) :=
  match fuel with
  | 0 => .error .missingNode
  | fuel + 1 =>
    match p.next with
    | .key => do
      let p := p.skip
      let (key, p) ←
        if p.next = .key ∨ p.next = .value ∨ p.next = .blockEnd then pure (.blank, p)
        else readNode handles fuel .entry p
      let (value, p) ←
        if p.next = .value then do
          let p := p.skip
          if p.next = .key ∨ p.next = .value ∨ p.next = .blockEnd then pure (.blank, p)
          else readNode handles fuel .entry p
        else pure (.blank, p)
      let (entries, p) ← readBlockMapping handles fuel p
      return ((key, value) :: entries, p)
    | .blockEnd => .ok ([], p.skip)
    | _ => .error .badCollection

/-- Reads the entries of a sequence in brackets and its end. An entry with a question mark or a
colon is a mapping of its own. -/
def readFlowSequence (handles : Handles) (fuel : Nat) (first : Bool) (p : NodeState) :
    Except Error (List Node × NodeState) :=
  match fuel with
  | 0 => .error .missingNode
  | fuel + 1 =>
    if p.next = .flowSequenceEnd then .ok ([], p.skip)
    else if !first && p.next ≠ .flowEntry then .error .badCollection
    else do
      let p := if first then p else p.skip
      if p.next = .flowSequenceEnd then return ([], p.skip)
      let (item, p) ←
        if p.next = .key then do
          let (entry, p) ← readFlowPair handles fuel p.skip
          pure (.mapping none [entry], p)
        else readNode handles fuel .flow p
      let (items, p) ← readFlowSequence handles fuel false p
      return (item :: items, p)

/-- Reads the single entry of a mapping that is itself an entry of a sequence in brackets. A
colon without a key before it counts as the key. -/
def readFlowPair (handles : Handles) (fuel : Nat) (p : NodeState) :
    Except Error ((Node × Node) × NodeState) :=
  match fuel with
  | 0 => .error .missingNode
  | fuel + 1 => do
    let (key, p) ←
      if p.next = .value ∨ p.next = .flowEntry ∨ p.next = .flowSequenceEnd then
        pure (.blank, p.skip)
      else readNode handles fuel .flow p
    let (value, p) ←
      if p.next = .value then do
        let p := p.skip
        if p.next = .flowEntry ∨ p.next = .flowSequenceEnd then pure (.blank, p)
        else readNode handles fuel .flow p
      else pure (.blank, p)
    return ((key, value), p)

/-- Reads the entries of a mapping in braces and its end. -/
def readFlowMapping (handles : Handles) (fuel : Nat) (first : Bool) (p : NodeState) :
    Except Error (List (Node × Node) × NodeState) :=
  match fuel with
  | 0 => .error .missingNode
  | fuel + 1 =>
    if p.next = .flowMappingEnd then .ok ([], p.skip)
    else if !first && p.next ≠ .flowEntry then .error .badCollection
    else do
      let p := if first then p else p.skip
      if p.next = .flowMappingEnd then return ([], p.skip)
      let (entry, p) ←
        if p.next = .key then do
          let p := p.skip
          let (key, p) ←
            if p.next = .value ∨ p.next = .flowEntry ∨ p.next = .flowMappingEnd then
              pure (.blank, p)
            else readNode handles fuel .flow p
          let (value, p) ←
            if p.next = .value then do
              let p := p.skip
              if p.next = .flowEntry ∨ p.next = .flowMappingEnd then pure (.blank, p)
              else readNode handles fuel .flow p
            else pure (.blank, p)
          pure ((key, value), p)
        else do
          let (key, p) ← readNode handles fuel .flow p
          pure ((key, .blank), p)
      let (entries, p) ← readFlowMapping handles fuel false p
      return (entry :: entries, p)

end

/-! ## Documents -/

/-- Reads the directives in front of a document: whether a version was given, and the handles. -/
def readDirectives (versioned : Bool) (handles : Handles) :
    List Token → Except Error (Handles × List Token)
  | .version major minor :: rest =>
    if versioned || major != 1 || (minor != 1 && minor != 2) then .error .badDirective
    else readDirectives true handles rest
  | .tagDirective handle start :: rest =>
    if (handles.lookup handle).isSome then .error .badDirective
    else readDirectives versioned ((handle, start) :: handles) rest
  | rest => .ok (handles, rest)

/-- Checks that nothing but document ends follows. -/
def endOfStream : List Token → Except Error Unit
  | [] => .ok ()
  | .documentEnd :: rest => endOfStream rest
  | .streamEnd :: _ => .ok ()
  | _ => .error .manyDocuments

/-- Reads the root node of a document. -/
def readRoot (handles : Handles) (tokens : List Token) : Except Error (Node × List Token) := do
  let (root, p) ← readNode handles (4 * tokens.length + 4) .block ⟨tokens, []⟩
  return (root, p.tokens)

/-- Whether a document that starts here has no content. -/
def isContentless : List Token → Bool
  | [] => true
  | .version _ _ :: _ => true
  | .tagDirective _ _ :: _ => true
  | .documentStart :: _ => true
  | .documentEnd :: _ => true
  | .streamEnd :: _ => true
  | _ => false

/-- The document that the tokens hold, if they hold one. -/
def documentOf (tokens : List Token) : Except Error (Option Node) := do
  let (handles, rest) ← readDirectives false [] tokens
  match tokens with
  | .streamEnd :: _ => return none
  | .version _ _ :: _ | .tagDirective _ _ :: _ | .documentStart :: _ =>
    match rest with
    | .documentStart :: rest =>
      let (root, rest) ←
        if isContentless rest then pure (.blank, rest)
        else readRoot (handles ++ defaultHandles) rest
      endOfStream rest
      return some root
    | _ => throw .missingDocument
  | _ =>
    let (root, rest) ← readRoot defaultHandles tokens
    endOfStream rest
    return some root

/-- The document in a text, if there is one. -/
def parse (text : List Char) : Except Error (Option Node) := do
  documentOf (← tokensOf text)

end Unimported.Yaml
