/-
Trees of files as a disk can hold them.

The type of nodes has room for more than a disk: names with slashes in them, and directories with
two entries of one name. A tree is well-formed if it has neither, and then a list of names leads
to at most one place, and two lists to two. In a plain tree there are no links either.
-/
import Unimported.Disk.Basic
import Unimported.Proofs.Path.Join

set_option autoImplicit false

namespace Unimported

/-! ## Well-formed trees

Nodes and entries are defined together, so all that is said of them is said together too,
and decided in the same way. -/

namespace Disk

/-- A name that a directory can hold: short enough, and without a null byte. -/
def IsEntryName (n : Name) : Prop := Path.IsName n ∧ 0 ∉ n ∧ n.length ≤ nameLimit

instance (n : Name) : Decidable (IsEntryName n) := inferInstanceAs (Decidable (_ ∧ _))

end Disk

mutual

/-- Whether all directories from the node on hold proper names, each of them once. -/
def Node.WellFormed : Node → Prop
  | .file _ => True
  | .link _ => True
  | .directory entries => entries.WellFormed

/-- Whether these entries have proper names, each its own, and lead to well-formed nodes. -/
def Entries.WellFormed : Entries → Prop
  | .nil => True
  | .cons name node rest =>
    Disk.IsEntryName name ∧ rest.get? name = none ∧ node.WellFormed ∧ rest.WellFormed

end

mutual

/-- Whether there is no link from the node on. -/
def Node.Plain : Node → Prop
  | .file _ => True
  | .link _ => False
  | .directory entries => entries.Plain

/-- Whether these entries lead to no link. -/
def Entries.Plain : Entries → Prop
  | .nil => True
  | .cons _ node rest => node.Plain ∧ rest.Plain

end

mutual

/-- Well-formedness of a node is decided entry by entry. -/
def Node.decideWellFormed : (node : Node) → Decidable node.WellFormed
  | .file _ => .isTrue trivial
  | .link _ => .isTrue trivial
  | .directory entries => entries.decideWellFormed

/-- Well-formedness of entries is decided one by one. -/
def Entries.decideWellFormed : (entries : Entries) → Decidable entries.WellFormed
  | .nil => .isTrue trivial
  | .cons name node rest =>
    have := node.decideWellFormed
    have := rest.decideWellFormed
    inferInstanceAs (Decidable (Disk.IsEntryName name ∧ rest.get? name = none ∧ _ ∧ _))

end

instance (node : Node) : Decidable node.WellFormed := node.decideWellFormed

mutual

/-- Whether a node is plain is decided entry by entry. -/
def Node.decidePlain : (node : Node) → Decidable node.Plain
  | .file _ => .isTrue trivial
  | .link _ => .isFalse id
  | .directory entries => entries.decidePlain

/-- Whether entries are plain is decided one by one. -/
def Entries.decidePlain : (entries : Entries) → Decidable entries.Plain
  | .nil => .isTrue trivial
  | .cons _ node rest =>
    have := node.decidePlain
    have := rest.decidePlain
    inferInstanceAs (Decidable (_ ∧ _))

end

instance (node : Node) : Decidable node.Plain := node.decidePlain

/-- A disk as there can be one: a well-formed tree with a directory at its root. -/
structure Disk.WellFormed (d : Disk) : Prop where
  tree : d.root.WellFormed
  directory : ∃ entries, d.root = .directory entries

/-! ## Entries

An entry is the first of its name or stands behind others. The recursion is the one by which
an entry is looked up. -/

namespace Entries

theorem get?_cons (name n : Name) (node : Node) (rest : Entries) :
    (Entries.cons n node rest).get? name = if n = name then some node else rest.get? name := rfl

/-- What a name stands for in a well-formed directory is well-formed, and the name is proper. The
recursion is on the entries. -/
theorem WellFormed.of_get? {name : Name} {node : Node} : ∀ {entries : Entries},
    entries.WellFormed → entries.get? name = some node → Disk.IsEntryName name ∧ node.WellFormed
  | .cons n first rest, h, hget => by
    obtain ⟨hname, -, hfirst, hrest⟩ := h
    rw [get?_cons] at hget
    by_cases hn : n = name
    · rw [if_pos hn] at hget
      obtain rfl := Option.some.inj hget
      exact ⟨hn ▸ hname, hfirst⟩
    · rw [if_neg hn] at hget
      exact hrest.of_get? hget

theorem Plain.of_get? {name : Name} {node : Node} : ∀ {entries : Entries},
    entries.Plain → entries.get? name = some node → node.Plain
  | .cons n first rest, h, hget => by
    rw [get?_cons] at hget
    by_cases hn : n = name
    · rw [if_pos hn] at hget
      exact Option.some.inj hget ▸ h.1
    · rw [if_neg hn] at hget
      exact Plain.of_get? h.2 hget

end Entries

/-! ## Where names lead

Names are followed one directory at a time. `at?_cons_eq_some` is one step, for any node,
and the lemmas on whole lists are by induction with it. -/

namespace Node

theorem Plain.ne_link {node : Node} (h : node.Plain) (target : Path) : node ≠ .link target := by
  rintro rfl
  exact h

@[simp] theorem at?_nil (node : Node) : node.at? [] = some node := by
  cases node <;> rfl

theorem at?_cons (name : Name) (names : List Name) (entries : Entries) :
    (Node.directory entries).at? (name :: names) = (entries.get? name).bind (at? names) := rfl

/-- Names lead on from directories alone. -/
theorem at?_cons_eq_some {name : Name} {names : List Name} {node sub : Node} :
    node.at? (name :: names) = some sub ↔
      ∃ entries child, node = .directory entries ∧ entries.get? name = some child ∧
        child.at? names = some sub := by
  cases node with
  | directory entries =>
    rw [at?_cons, Option.bind_eq_some_iff]
    constructor
    · rintro ⟨child, hchild, hsub⟩
      exact ⟨entries, child, rfl, hchild, hsub⟩
    · rintro ⟨_, child, ⟨⟩, hchild, hsub⟩
      exact ⟨child, hchild, hsub⟩
  | file bytes => exact iff_of_false (by rintro ⟨⟩) (by rintro ⟨_, _, ⟨⟩, -⟩)
  | link target => exact iff_of_false (by rintro ⟨⟩) (by rintro ⟨_, _, ⟨⟩, -⟩)

theorem at?_append (names names' : List Name) (node : Node) :
    node.at? (names ++ names') = (node.at? names).bind (at? names') := by
  induction names generalizing node with
  | nil => rw [List.nil_append, at?_nil, Option.bind_some]
  | cons name names ih =>
    cases node with
    | directory entries =>
      rw [List.cons_append, at?_cons, at?_cons, Option.bind_assoc]
      exact Option.bind_congr fun child _ => ih child
    | file bytes => rfl
    | link target => rfl

/-- Proper names lead through a well-formed tree, to a well-formed part of it. -/
theorem WellFormed.of_at? {names : List Name} {node sub : Node} (h : node.WellFormed)
    (hat : node.at? names = some sub) : (∀ n ∈ names, Disk.IsEntryName n) ∧ sub.WellFormed := by
  induction names generalizing node with
  | nil =>
    rw [at?_nil] at hat
    exact ⟨by simp, Option.some.inj hat ▸ h⟩
  | cons name names ih =>
    obtain ⟨entries, child, rfl, hchild, hsub⟩ := at?_cons_eq_some.1 hat
    obtain ⟨hname, hwf⟩ := Entries.WellFormed.of_get? h hchild
    obtain ⟨hnames, hwf⟩ := ih hwf hsub
    exact ⟨List.forall_mem_cons.2 ⟨hname, hnames⟩, hwf⟩

theorem Plain.of_at? {names : List Name} {node sub : Node} (h : node.Plain)
    (hat : node.at? names = some sub) : sub.Plain := by
  induction names generalizing node with
  | nil =>
    rw [at?_nil] at hat
    exact Option.some.inj hat ▸ h
  | cons name names ih =>
    obtain ⟨entries, child, rfl, hchild, hsub⟩ := at?_cons_eq_some.1 hat
    exact ih (Entries.Plain.of_get? h hchild) hsub

end Node

/-! ## Tests of all names

Some conditions are on all names that lead somewhere, of which there are finitely many.
Testing them decides such a condition on a given tree. -/

mutual

/-- Whether all lists of names that lead somewhere from a node pass a test. `front` are the names
that lead to the node. -/
def Node.allNames (test : List Name → Bool) (front : List Name) : Node → Bool
  | .file _ => test front
  | .link _ => test front
  | .directory entries => test front && entries.allNames test front

/-- Whether all lists of names that lead somewhere by way of entries pass a test. -/
def Entries.allNames (test : List Name → Bool) (front : List Name) : Entries → Bool
  | .nil => true
  | .cons name node rest =>
    node.allNames test (front ++ [name]) && rest.allNames test front

end

theorem Entries.allNames_of_get? {test : List Name → Bool} {front : List Name} {name : Name}
    {node : Node} : ∀ {entries : Entries}, entries.allNames test front = true →
    entries.get? name = some node → node.allNames test (front ++ [name]) = true
  | .cons n first rest, h, hget => by
    rw [allNames, Bool.and_eq_true] at h
    rw [get?_cons] at hget
    by_cases hn : n = name
    · rw [if_pos hn] at hget
      exact hn ▸ Option.some.inj hget ▸ h.1
    · rw [if_neg hn] at hget
      exact allNames_of_get? h.2 hget

/-- If the test of all names succeeds, names that lead somewhere pass it. -/
theorem Node.test_of_allNames {test : List Name → Bool} {front names : List Name}
    {node sub : Node} (h : node.allNames test front = true) (hat : node.at? names = some sub) :
    test (front ++ names) = true := by
  induction names generalizing node front with
  | nil =>
    rw [List.append_nil]
    cases node with
    | file bytes => exact h
    | link target => exact h
    | directory entries =>
      rw [allNames, Bool.and_eq_true] at h
      exact h.1
  | cons name names ih =>
    obtain ⟨entries, child, rfl, hget, hat⟩ := Node.at?_cons_eq_some.1 hat
    rw [allNames, Bool.and_eq_true] at h
    rw [List.append_cons]
    exact ih (Entries.allNames_of_get? h.2 hget) hat

end Unimported
