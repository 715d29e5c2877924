/-
What can be read from a report as JSON.

Both forms say the same, under names of their own: they have one content, and read back each gives
that content and nothing else. The document always exists, since it shows a path that is no text
with replacement characters; the record does not exist then. Where all paths are text, nothing is
lost, and a report can be rebuilt from what is read.
-/
import Unimported.Proofs.Fallible
import Unimported.Proofs.Json.Written
import Unimported.Proofs.Text.Utf8
import Unimported.Report.Json

set_option autoImplicit false

namespace Unimported

open Json (Tree Spells parse?)

/-! ## Contents

Document and record are two ways to write one content. Stated by way of it, what is read
back is told without the report, and that both say the same is no statement of its own. -/

/-- What is said of an unused file. -/
structure Entry where
  file : String
  component : String
  extension : String

/-- What a report says, as text and numbers. -/
structure Content where
  totalScanned : Nat
  exportingCount : Nat
  /-- The time, as it is spelled. -/
  elapsed : List Char
  used : List String
  unused : List Entry

namespace Entry

/-- The entry in a document. -/
def document (e : Entry) : Tree :=
  .object [
    ("file", .string e.file),
    ("component", .string e.component),
    ("extension", .string e.extension)]

/-- The entry in a record. -/
def record (e : Entry) : Tree :=
  .object [
    ("path", .string e.file),
    ("token", .string e.component),
    ("extension", .string e.extension)]

/-- The unused file that the entry is about. -/
def toFile (e : Entry) : UnusedFile := ⟨Path.ofString e.file, e.component, e.extension⟩

theorem document_injective : Function.Injective document := by
  rintro ⟨file, component, extension⟩ ⟨file', component', extension'⟩ h
  simpa [document] using h

end Entry

namespace Content

/-- The content as a document. -/
def document (c : Content) : Tree :=
  .object [
    ("version", .string "1.0"),
    ("summary", .object [
      ("total_scanned", .natural c.totalScanned),
      ("exporting_count", .natural c.exportingCount),
      ("used_count", .natural c.used.length),
      ("unused_count", .natural c.unused.length),
      ("elapsed_seconds", .decimal c.elapsed)]),
    ("unused", .array (c.unused.map Entry.document)),
    ("used", .array (c.used.map .string))]

/-- The content as a record. -/
def record (c : Content) : Tree :=
  .object [
    ("total_scanned", .natural c.totalScanned),
    ("exporting_count", .natural c.exportingCount),
    ("used", .array (c.used.map .string)),
    ("unused", .array (c.unused.map Entry.record)),
    ("elapsed_seconds", .decimal c.elapsed)]

/-- The report with that content. -/
def toReport (c : Content) (elapsed : Duration) : Report :=
  ⟨c.totalScanned, c.exportingCount, c.used.map Path.ofString, c.unused.map Entry.toFile, elapsed⟩

/-- A document tells all of its content. -/
theorem document_injective : Function.Injective document := by
  rintro ⟨total, exporting, elapsed, used, unused⟩ ⟨total', exporting', elapsed', used', unused'⟩ h
  have hstring : Function.Injective Tree.string := fun _ _ => Tree.string.inj
  simp only [document, Tree.object.injEq, List.cons.injEq, Prod.mk.injEq, Tree.natural.injEq,
    Tree.decimal.injEq, Tree.array.injEq, true_and, and_true] at h
  -- The two counts between are the lengths of the lists, and say nothing of their own.
  obtain ⟨⟨rfl, rfl, -, -, rfl⟩, hunused, hused⟩ := h
  rw [List.map_injective_iff.2 Entry.document_injective hunused,
    List.map_injective_iff.2 hstring hused]

end Content

/-- The entry for an unused file. -/
def UnusedFile.entry (f : UnusedFile) : Entry := ⟨f.path.display, f.token, f.extension⟩

/-- The content of a report. -/
def Report.content (r : Report) : Content :=
  ⟨r.totalScanned, r.exportingCount, r.elapsed.toDouble.write, r.used.map Path.display,
    r.unused.map UnusedFile.entry⟩

/-! ## Paths that are text

A path is shown by its text, and bytes that are none are replaced. So a path can be had back
from what is shown if it is text, and only then. -/

/-- The bytes of the path are those of a text. -/
def Path.IsText (p : Path) : Prop := ∃ text, p.bytes = Text.Utf8.encode text

/-- All paths of the report are text. -/
structure Report.AllText (r : Report) : Prop where
  used : ∀ p ∈ r.used, p.IsText
  unused : ∀ f ∈ r.unused, f.path.IsText

theorem Path.isText_ofString (s : String) : (Path.ofString s).IsText := ⟨s.toList, rfl⟩

theorem Path.ofString_display {p : Path} (h : p.IsText) : Path.ofString p.display = p := by
  obtain ⟨bytes⟩ := p
  obtain ⟨text, rfl⟩ := h
  rw [display, Text.Utf8.toStringLossy, Text.Utf8.lossy_encode, ofString, Text.Utf8.ofString,
    String.toList_ofList]

theorem UnusedFile.toFile_entry {f : UnusedFile} (h : f.path.IsText) : f.entry.toFile = f := by
  rw [entry, Entry.toFile, Path.ofString_display h]

theorem map_map_of_inverse {α β : Type} {f : α → β} {g : β → α} {xs : List α}
    (h : ∀ x ∈ xs, g (f x) = x) : (xs.map f).map g = xs := by
  rw [List.map_map]
  exact (List.map_congr_left h).trans (List.map_id _)

/-- **A report whose paths are text is told by its content and its time.** -/
theorem Report.toReport_content {r : Report} (h : r.AllText) :
    r.content.toReport r.elapsed = r := by
  have hused := map_map_of_inverse fun p hp => Path.ofString_display (h.used p hp)
  have hunused := map_map_of_inverse fun f hf => UnusedFile.toFile_entry (h.unused f hf)
  rw [content, Content.toReport, hused, hunused]

/-! ## The document

The values that are written have the trees of the content, piece by piece. That reading
finds the tree of what has been written is known of all values. -/

theorem tree_array {α β : Type} {items : List α} {write : α → Json.Value} {say : α → β}
    {tree : β → Tree} (h : ∀ a, (write a).tree = tree (say a)) :
    (Json.Value.array (items.map write)).tree = .array ((items.map say).map tree) := by
  rw [Json.Value.tree, Json.Value.trees_eq, List.map_map, List.map_map]
  exact congrArg Tree.array (List.map_congr_left fun a _ => h a)

namespace Report

theorem tree_used (r : Report) :
    (Json.Value.array (r.used.map fun p => .string p.display)).tree
      = .array (r.content.used.map .string) :=
  tree_array fun _ => rfl

theorem tree_document (r : Report) : r.document.tree = r.content.document := by
  have hunused : (Json.Value.array (r.unused.map UnusedFile.toDocument)).tree
      = .array (r.content.unused.map Entry.document) := tree_array fun _ => rfl
  have hcounts : r.content.used.length = r.used.length
      ∧ r.content.unused.length = r.unused.length := ⟨List.length_map _, List.length_map _⟩
  rw [Content.document, hcounts.1, hcounts.2, ← hunused, ← tree_used]
  rfl

theorem parse?_toJson (r : Report) : parse? r.toJson = some r.content.document := by
  rw [← tree_document]
  exact Json.parse?_eq_some_iff.2 r.document.spells_indented

/-- **A document is in the grammar of JSON, and read back it is the content of the report**, and
nothing else. Where all paths are text, only that report has this document. -/
theorem toJson_decodes (r : Report) :
    (∀ t, Spells (.element t) r.toJson.toList ↔ t = r.content.document) ∧
      parse? r.toJson = some r.content.document ∧
      ∀ other : Report, other.elapsed = r.elapsed → other.AllText → r.AllText →
        other.toJson = r.toJson → other = r := by
  refine ⟨fun t => ?_, parse?_toJson r, fun other helapsed hother htext heq => ?_⟩
  · rw [← Json.parse?_eq_some_iff, parse?_toJson, Option.some_inj, eq_comm]
  -- Equal texts are read as one document, and from the content the report is built again.
  · have hcontent : other.content = r.content := by
      apply Content.document_injective
      rw [← Option.some_inj, ← parse?_toJson, ← parse?_toJson, heq]
    rw [← toReport_content hother, ← toReport_content htext, hcontent, helapsed]

/-- One path, spelled as a text with a quote and as its bytes. -/
theorem toJson_decodes_quote :
    Report.mk 1 1 [⟨[0x61, 0x22, 0xC3, 0xA9]⟩] [] ⟨0, 250000000⟩
      = Report.mk 1 1 [Path.ofString "a\"é"] [] ⟨0, 250000000⟩ :=
  (toJson_decodes (.mk 1 1 [Path.ofString "a\"é"] [] ⟨0, 250000000⟩)).2.2
    (.mk 1 1 [⟨[0x61, 0x22, 0xC3, 0xA9]⟩] [] ⟨0, 250000000⟩) rfl
    ⟨List.forall_mem_singleton.2 ⟨['a', '"', 'é'], rfl⟩, nofun⟩
    ⟨List.forall_mem_singleton.2 (Path.isText_ofString _), nofun⟩ rfl

end Report

/-! ## The record

The record is made as the document is, but each path on the way may fail. If none does, it
is `shown`, which no step can fail for; so it is enough to know when each step succeeds. -/

theorem Path.toRecord_eq_ok_iff {p : Path} {v : Json.Value} :
    p.toRecord = .ok v ↔ p.IsText ∧ v = .string p.display := by
  rw [toRecord]
  -- A path that is decoded is the text of its bytes, and no replacement is shown in it.
  cases hread : Text.Utf8.decode? p.bytes with
  | none =>
    have hnot : ¬ p.IsText := fun ⟨text, htext⟩ => by
      rw [Text.Utf8.decode?_eq_some_iff.2 htext] at hread
      cases hread
    simp [hnot]
  | some text =>
    have hbytes := Text.Utf8.decode?_eq_some_iff.1 hread
    have hdisplay : p.display = String.ofList text := by
      rw [display, hbytes, Text.Utf8.toStringLossy, Text.Utf8.lossy_encode]
    have htext : p.IsText := ⟨text, hbytes⟩
    simp [hdisplay, htext, eq_comm]

/-- An unused file in a record, with its path as it is shown. -/
def UnusedFile.shown (f : UnusedFile) : Json.Value :=
  .object [
    ("path", .string f.path.display),
    ("token", .string f.token),
    ("extension", .string f.extension)]

theorem UnusedFile.toRecord_eq_ok_iff {f : UnusedFile} {v : Json.Value} :
    f.toRecord = .ok v ↔ f.path.IsText ∧ v = f.shown := by
  simp only [toRecord, bind_eq_ok_iff, Path.toRecord_eq_ok_iff]
  constructor
  · rintro ⟨_, ⟨htext, rfl⟩, hv⟩
    exact ⟨htext, (Except.ok.inj hv).symm⟩
  · rintro ⟨htext, rfl⟩
    exact ⟨_, ⟨htext, rfl⟩, rfl⟩

namespace Report

/-- The record, with each path as it is shown. -/
def shown (r : Report) : Json.Value :=
  .object [
    ("total_scanned", .natural r.totalScanned),
    ("exporting_count", .natural r.exportingCount),
    ("used", .array (r.used.map fun p => .string p.display)),
    ("unused", .array (r.unused.map UnusedFile.shown)),
    ("elapsed_seconds", .real r.elapsed.toDouble)]

theorem record_eq_ok_iff {r : Report} {v : Json.Value} :
    r.record = .ok v ↔ r.AllText ∧ v = r.shown := by
  simp only [record, bind_eq_ok_iff, mapM_eq_ok_iff fun _ _ => Path.toRecord_eq_ok_iff,
    mapM_eq_ok_iff fun _ _ => UnusedFile.toRecord_eq_ok_iff]
  constructor
  · rintro ⟨_, ⟨hused, rfl⟩, _, ⟨hunused, rfl⟩, hv⟩
    exact ⟨⟨hused, hunused⟩, (Except.ok.inj hv).symm⟩
  · rintro ⟨htext, rfl⟩
    exact ⟨_, ⟨htext.used, rfl⟩, _, ⟨htext.unused, rfl⟩, rfl⟩

theorem tree_shown (r : Report) : r.shown.tree = r.content.record := by
  have hunused : (Json.Value.array (r.unused.map UnusedFile.shown)).tree
      = .array (r.content.unused.map Entry.record) := tree_array fun _ => rfl
  rw [Content.record, ← hunused, ← tree_used]
  rfl

theorem serialize_eq_ok_iff {r : Report} {text : String} :
    r.serialize = .ok text ↔ r.AllText ∧ text = r.shown.compact := by
  simp only [serialize, map_eq_ok_iff, record_eq_ok_iff]
  constructor
  · rintro ⟨_, ⟨htext, rfl⟩, rfl⟩
    exact ⟨htext, rfl⟩
  · rintro ⟨htext, rfl⟩
    exact ⟨_, ⟨htext, rfl⟩, rfl⟩

/-- **There is a record exactly if all paths are text, and it says what the document says**: the
record and the document are read back as one content. -/
theorem serialize_agrees (r : Report) :
    ((∃ text, r.serialize = .ok text) ↔ r.AllText) ∧
      ∀ text, r.serialize = .ok text →
        parse? text = some r.content.record ∧ parse? r.toJson = some r.content.document := by
  simp only [serialize_eq_ok_iff]
  refine ⟨⟨fun ⟨_, htext, _⟩ => htext, fun htext => ⟨_, htext, rfl⟩⟩, ?_⟩
  rintro text ⟨-, rfl⟩
  refine ⟨?_, parse?_toJson r⟩
  rw [← tree_shown]
  exact Json.parse?_eq_some_iff.2 r.shown.spells_compact

/-- A used path with a quote, and an unused one beyond ASCII. -/
theorem serialize_agrees_quote :
    ∃ text, (Report.mk 2 2 [Path.ofString "a\"b.ts"] [⟨Path.ofString "é.js", "é", ".js"⟩]
        ⟨0, 250000000⟩).serialize = .ok text ∧
      parse? text = some
        (Content.mk 2 2 ['0', '.', '2', '5'] ["a\"b.ts"] [⟨"é.js", "é", ".js"⟩]).record := by
  have htext : (Report.mk 2 2 [Path.ofString "a\"b.ts"] [⟨Path.ofString "é.js", "é", ".js"⟩]
      ⟨0, 250000000⟩).AllText :=
    ⟨List.forall_mem_singleton.2 (Path.isText_ofString _),
      List.forall_mem_singleton.2 (Path.isText_ofString _)⟩
  have hrecord := serialize_eq_ok_iff.2 ⟨htext, rfl⟩
  exact ⟨_, hrecord, ((serialize_agrees _).2 _ hrecord).1⟩

end Report

end Unimported
