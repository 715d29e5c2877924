/-
The journal of a scan: what it read, what it told its observer, and what it logged.

A scan sees the project through a reader, which answers each request with a text or an error.
Nothing is assumed of the reader: its answer may depend on all requests and answers before it,
so files may change, vanish and come back while the scan runs. All steps of a scan are functions
of the journal so far, and they only ever add to it.
-/
import Unimported.Log
import Unimported.Path.Basic

set_option autoImplicit false

namespace Unimported.Scan

/-! ## What is recorded -/

/-- The parts of a scan. -/
inductive Phase where
  /-- Finding the candidate files. -/
  | discover
  /-- Telling which of them export something. -/
  | classify
  /-- Telling which of those no other one refers to. -/
  | crossReference
deriving DecidableEq, Repr

/-- What an observer is told. -/
inductive Event where
  /-- A phase begins, with so many items before it. -/
  | started (phase : Phase) (total : Nat)
  /-- So many of all items are done; `current` is the latest of them. -/
  | progressed (phase : Phase) (done total : Nat) (current : Path)
  /-- A phase has ended and produced so many items. -/
  | finished (phase : Phase) (count : Nat)
deriving DecidableEq, Repr

/-- What the text of a file is asked for. -/
inductive Purpose where
  /-- To tell whether the candidate file at this place exports anything. -/
  | exports (place : Nat)
  /-- To tell whether another file refers to the exporting file at this place. -/
  | reference (place : Nat)
deriving DecidableEq, Repr

/-- One request for the text of a file, with its answer. -/
structure Reading where
  purpose : Purpose
  path : Path
  answer : Except String String

/-- Whether the request failed. -/
def Reading.failed (r : Reading) : Bool :=
  match r.answer with
  | .ok _ => false
  | .error _ => true

/-- A source of texts: given all readings so far, the latest first, and a path, it answers with
the text of the file or with the reason why it cannot be read. -/
abbrev Reader := List Reading → Path → Except String String

/-- A reader whose answers never change. -/
def Reader.fixed (texts : Path → Except String String) : Reader := fun _ p => texts p

/-- All that a scan has done so far, the latest first. -/
structure Journal where
  readings : List Reading
  events : List Event
  log : List Log.Line
  /-- How many targets of the cross-reference have been counted as checked. -/
  counted : Nat

namespace Journal

/-- The journal of a scan that has not begun. -/
def empty : Journal := ⟨[], [], [], 0⟩

/-- The paths that were asked for, in order. -/
def reads (j : Journal) : List Path := (j.readings.map Reading.path).reverse

/-- What was asked for this purpose, in order. -/
def askedFor (j : Journal) (purpose : Purpose) : List Reading :=
  (j.readings.filter (·.purpose = purpose)).reverse

/-- What the observer was told, in order. -/
def trace (j : Journal) : List Event := j.events.reverse

/-- The lines of the log, in order. -/
def lines (j : Journal) : List Log.Line := j.log.reverse

end Journal

end Scan

/-- A step of a scan. -/
abbrev Scan := StateM Scan.Journal

namespace Scan

@[simp] theorem bind_apply {α β : Type} (x : Scan α) (f : α → Scan β) (j : Journal) :
    (x >>= f) j = f (x j).1 (x j).2 := rfl

@[simp] theorem pure_apply {α : Type} (a : α) (j : Journal) : (pure a : Scan α) j = (a, j) := rfl

/-- Asks the reader for the text of a file. -/
def read (reader : Reader) (purpose : Purpose) (p : Path) : Scan (Except String String) := fun j =>
  let answer := reader j.readings p
  (answer, { j with readings := ⟨purpose, p, answer⟩ :: j.readings })

/-- Tells the observer. -/
def tell (event : Event) : Scan Unit := fun j => ((), { j with events := event :: j.events })

/-- Writes a line to the log. -/
def note (line : Log.Line) : Scan Unit := fun j => ((), { j with log := line :: j.log })

/-- Sets the count of checked targets back to zero. -/
def restartCount : Scan Unit := fun j => ((), { j with counted := 0 })

/-- Counts one more target as checked, and says how many there are by now. -/
def count : Scan Nat := fun j => (j.counted + 1, { j with counted := j.counted + 1 })

end Unimported.Scan
