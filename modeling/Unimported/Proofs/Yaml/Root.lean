/-
The root of a YAML document, as told by its first tokens.

If the first token is a scalar or opens a list, the root is that scalar or list, whatever follows.
If a mapping is opened and its first key is a list, the key stays a list. And no document begins
with a key outside all mappings, or with a mapping where two scalars follow each other.
-/
import Unimported.Yaml.Node
import Unimported.Proofs.Fallible
import Mathlib.Data.List.Basic

set_option autoImplicit false

namespace Unimported.Yaml

variable {handles : Handles} {fuel : Nat} {place : Place} {tokens rest : List Token}
  {names : List (List Char × Nat)} {style : Style} {value : List Char} {node : Node}
  {document : Option Node} {p : NodeState}

/-! ## Nodes

The first token decides what kind of node is read, and where it is decided alone the node is
known without reading on. -/

theorem readNode_scalar :
    readNode handles (fuel + 1) place ⟨.scalar style value :: rest, names⟩
      = .ok (.scalar none none style value, ⟨rest, names⟩) := rfl

theorem readNode_flowSequence :
    readNode handles (fuel + 1) place ⟨.flowSequence :: rest, names⟩
      = do
        let (items, p) ← readFlowSequence handles fuel true ⟨rest, names⟩
        return (.sequence none items, p) := rfl

theorem readNode_blockSequence :
    readNode handles (fuel + 1) .block ⟨.blockSequence :: rest, names⟩
      = do
        let (items, p) ← readBlockSequence handles fuel ⟨rest, names⟩
        return (.sequence none items, p) := rfl

theorem readNode_blockMapping :
    readNode handles (fuel + 1) .block ⟨.blockMapping :: rest, names⟩
      = do
        let (entries, p) ← readBlockMapping handles fuel ⟨rest, names⟩
        return (.mapping none entries, p) := rfl

theorem readNode_key :
    readNode handles (fuel + 1) place ⟨.key :: rest, names⟩ = .error .missingNode := rfl

/-- A node that starts with a bracket is a list. -/
theorem sequence_of_readNode
    (h : readNode handles fuel place ⟨.flowSequence :: rest, names⟩ = .ok (node, p)) :
    ∃ items, node = .sequence none items := by
  cases fuel with
  | zero => cases h
  | succ fuel =>
    rw [readNode_flowSequence] at h
    obtain ⟨⟨items, after⟩, -, hnode⟩ := bind_eq_ok_iff.1 h
    exact ⟨items, (congrArg Prod.fst (pure_eq_ok_iff.1 hnode)).symm⟩

/-! ## The first entry of a mapping

What follows the key may be anything, as long as the key stays in front of the entries. The
case without a colon matters too: then the mapping goes on at once, and the next token must
suit it. -/

/-- What stands behind the mark of a key is read as a node, unless nothing is written there. If no
colon follows, the mapping goes on right behind that node. -/
theorem readNode_of_readBlockMapping {entries : List (Node × Node)} {first : Token}
    (hfirst : ¬ (first = .key ∨ first = .value ∨ first = .blockEnd))
    (h : readBlockMapping handles (fuel + 1) ⟨.key :: first :: rest, names⟩ = .ok (entries, p)) :
    ∃ key after, readNode handles fuel .entry ⟨first :: rest, names⟩ = .ok (key, after) ∧
      (∃ value others, entries = (key, value) :: others) ∧
      (after.next ≠ .value → ∃ others, readBlockMapping handles fuel after = .ok (others, p)) := by
  rw [readBlockMapping] at h
  rcases ite_eq_iff.1 h with ⟨hblank, -⟩ | ⟨-, h⟩
  · exact absurd hblank hfirst
  obtain ⟨⟨key, after⟩, hkey, h⟩ := bind_eq_ok_iff.1 h
  refine ⟨key, after, hkey, ?_⟩
  rcases ite_eq_iff.1 h with ⟨hcolon, h⟩ | ⟨-, h⟩
  · -- with a colon all that matters is that the key stays in front
    rcases ite_eq_iff.1 h with ⟨-, h⟩ | ⟨-, h⟩
    all_goals
      obtain ⟨⟨value, behind⟩, -, h⟩ := bind_eq_ok_iff.1 h
      obtain ⟨⟨others, last⟩, -, h⟩ := bind_eq_ok_iff.1 h
      obtain ⟨rfl, -⟩ := Prod.mk.inj (pure_eq_ok_iff.1 h)
      exact ⟨⟨value, others, rfl⟩, fun hnone => absurd hcolon hnone⟩
  · obtain ⟨⟨value, behind⟩, hvalue, h⟩ := bind_eq_ok_iff.1 h
    obtain ⟨-, rfl⟩ := Prod.mk.inj (pure_eq_ok_iff.1 hvalue)
    obtain ⟨⟨others, last⟩, hothers, h⟩ := bind_eq_ok_iff.1 h
    obtain ⟨rfl, rfl⟩ := Prod.mk.inj (pure_eq_ok_iff.1 h)
    exact ⟨⟨value, others, rfl⟩, fun _ => ⟨others, hothers⟩⟩

/-- Between two entries of a mapping there is no scalar. -/
theorem readBlockMapping_scalar :
    readBlockMapping handles (fuel + 1) ⟨.scalar style value :: rest, names⟩
      = .error .badCollection := rfl

/-! ## Documents

The root is read behind what may precede it, and what stands behind it must be the end. So
from a document that was read one gets back to its root, and from there to the first tokens. -/

theorem documentOf_of_content (hcontent : isContentless tokens = false) :
    documentOf tokens = do
      let (root, rest) ← readRoot defaultHandles tokens
      endOfStream rest
      return some root := by
  cases tokens with
  | nil => cases hcontent
  | cons first rest =>
    cases first
    all_goals first
      | rfl
      | cases hcontent

/-- The root that is read is a node, and all there is. -/
theorem readNode_of_readRoot
    (h : (do
      let (root, rest) ← readRoot handles tokens
      endOfStream rest
      return some root) = .ok document) :
    ∃ root p, readNode handles (4 * tokens.length + 4) .block ⟨tokens, []⟩ = .ok (root, p) ∧
      document = some root := by
  obtain ⟨⟨root, after⟩, hroot, hend⟩ := bind_eq_ok_iff.1 h
  obtain ⟨-, -, hdocument⟩ := bind_eq_ok_iff.1 hend
  obtain ⟨⟨node, p⟩, hnode, hroot⟩ := bind_eq_ok_iff.1 hroot
  obtain ⟨rfl, -⟩ := Prod.mk.inj (pure_eq_ok_iff.1 hroot)
  exact ⟨node, p, hnode, (pure_eq_ok_iff.1 hdocument).symm⟩

/-- A document that starts with content has the node there as its root. -/
theorem readNode_of_documentOf (hcontent : isContentless tokens = false)
    (h : documentOf tokens = .ok document) :
    ∃ root p, readNode defaultHandles (4 * tokens.length + 4) .block ⟨tokens, []⟩ = .ok (root, p) ∧
      document = some root :=
  readNode_of_readRoot ((documentOf_of_content hcontent).symm.trans h)

/-- A scalar at the front is the whole document. -/
theorem documentOf_scalar (hfront : [.scalar style value] <+: tokens)
    (h : documentOf tokens = .ok document) : document = some (.scalar none none style value) := by
  obtain ⟨rest, rfl⟩ := hfront
  obtain ⟨root, p, hroot, hdocument⟩ := readNode_of_documentOf rfl h
  obtain ⟨rfl, -⟩ := Prod.mk.inj (Except.ok.inj (readNode_scalar.symm.trans hroot))
  exact hdocument

/-- A list that is opened at the front is the whole document. -/
theorem documentOf_sequence
    (hfront : [.flowSequence] <+: tokens ∨ [.blockSequence] <+: tokens)
    (h : documentOf tokens = .ok document) : ∃ items, document = some (.sequence none items) := by
  rcases hfront with ⟨rest, rfl⟩ | ⟨rest, rfl⟩
  · obtain ⟨root, p, hroot, hdocument⟩ := readNode_of_documentOf rfl h
    obtain ⟨items, rfl⟩ := sequence_of_readNode hroot
    exact ⟨items, hdocument⟩
  · obtain ⟨root, p, hroot, hdocument⟩ := readNode_of_documentOf rfl h
    obtain ⟨⟨items, after⟩, -, hnode⟩ := bind_eq_ok_iff.1 (readNode_blockSequence.symm.trans hroot)
    obtain ⟨rfl, -⟩ := Prod.mk.inj (pure_eq_ok_iff.1 hnode)
    exact ⟨items, hdocument⟩

/-- A scalar behind the mark of a document is the whole document. -/
theorem documentOf_marked_scalar (hfront : [.documentStart, .scalar style value] <+: tokens)
    (h : documentOf tokens = .ok document) : document = some (.scalar none none style value) := by
  obtain ⟨rest, rfl⟩ := hfront
  have hmarked : documentOf (.documentStart :: .scalar style value :: rest) = do
      let (root, rest) ← readRoot defaultHandles (.scalar style value :: rest)
      endOfStream rest
      return some root := rfl
  obtain ⟨root, p, hroot, hdocument⟩ := readNode_of_readRoot (hmarked.symm.trans h)
  obtain ⟨rfl, -⟩ := Prod.mk.inj (Except.ok.inj (readNode_scalar.symm.trans hroot))
  exact hdocument

/-- No document begins with a key. -/
theorem documentOf_key : documentOf (.key :: rest) ≠ .ok document := by
  intro h
  obtain ⟨root, p, hroot, -⟩ := readNode_of_documentOf rfl h
  cases readNode_key.symm.trans hroot

/-- The entries of a mapping that is opened at the front. -/
theorem documentOf_mapping (h : documentOf (.blockMapping :: rest) = .ok document) :
    ∃ fuel entries p, readBlockMapping defaultHandles (fuel + 2) ⟨rest, []⟩ = .ok (entries, p) ∧
      document = some (.mapping none entries) := by
  obtain ⟨root, p, hroot, hdocument⟩ := readNode_of_documentOf rfl h
  obtain ⟨⟨entries, after⟩, hentries, hnode⟩ :=
    bind_eq_ok_iff.1 (readNode_blockMapping.symm.trans hroot)
  obtain ⟨rfl, -⟩ := Prod.mk.inj (pure_eq_ok_iff.1 hnode)
  exact ⟨_, entries, after, hentries, hdocument⟩

/-- A list that is opened as the first key of a mapping stays its first key. -/
theorem documentOf_sequence_key (hfront : [.blockMapping, .key, .flowSequence] <+: tokens)
    (h : documentOf tokens = .ok document) :
    ∃ items value entries,
      document = some (.mapping none ((.sequence none items, value) :: entries)) := by
  obtain ⟨rest, rfl⟩ := hfront
  obtain ⟨fuel, entries, p, hentries, hdocument⟩ := documentOf_mapping h
  obtain ⟨key, after, hkey, ⟨value, others, rfl⟩, -⟩ :=
    readNode_of_readBlockMapping (by simp) hentries
  obtain ⟨items, rfl⟩ := sequence_of_readNode hkey
  exact ⟨items, value, others, hdocument⟩

/-- No mapping begins with two scalars in a row. -/
theorem documentOf_scalars_key {style' : Style} {value' : List Char}
    (hfront : [.blockMapping, .key, .scalar style value, .scalar style' value'] <+: tokens) :
    documentOf tokens ≠ .ok document := by
  intro h
  obtain ⟨rest, rfl⟩ := hfront
  obtain ⟨fuel, entries, p, hentries, -⟩ := documentOf_mapping h
  obtain ⟨key, after, hkey, -, hnext⟩ := readNode_of_readBlockMapping (by simp) hentries
  obtain ⟨-, rfl⟩ := Prod.mk.inj (Except.ok.inj (readNode_scalar.symm.trans hkey))
  -- the second scalar stands where the next entry would have to begin
  obtain ⟨others, hothers⟩ := hnext (by simp [NodeState.next])
  cases readBlockMapping_scalar.symm.trans hothers

end Unimported.Yaml
