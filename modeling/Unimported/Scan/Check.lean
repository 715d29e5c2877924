/-
Checks: the parts of a scan that several workers may carry out at the same time.

A check is written down step by step. In one step it reads a file, writes a line to the log,
counts itself as made, or tells the observer; between two steps of a check there may be steps of
other ones. `Check.inTurns` runs checks in turns that are given, which is every way in which
workers that share the checks can get on with them. Without any turns the checks are made one
after another, which is how a single worker makes them.
-/
import Unimported.Scan.Journal

set_option autoImplicit false

namespace Unimported.Scan

/-- A check, in steps. -/
inductive Check (α : Type) where
  /-- It is made, with this result. -/
  | done (result : α)
  /-- It reads a file, and goes on with the answer. -/
  | read (p : Path) (next : Except String String → Check α)
  /-- It writes a line to the log. -/
  | note (line : Log.Line) (next : Check α)
  /-- It is counted as made, and goes on with the number of those counted by then. -/
  | count (next : Nat → Check α)
  /-- It tells the observer. -/
  | tell (event : Event) (next : Check α)

namespace Check

variable {α β : Type}

/-! ## Writing checks -/

/-- A check, and then another one that depends on the result of the first. -/
def bind : Check α → (α → Check β) → Check β
  | .done a, f => f a
  | .read p next, f => .read p fun answer => (next answer).bind f
  | .note line next, f => .note line (next.bind f)
  | .count next, f => .count fun n => (next n).bind f
  | .tell event next, f => .tell event (next.bind f)

instance : Monad Check where
  pure := .done
  bind := bind

/-- Asks for the text of a file. -/
def ask (p : Path) : Check (Except String String) := .read p .done

/-- Writes a line to the log. -/
def log (line : Log.Line) : Check Unit := .note line (.done ())

/-- Counts the check as made, and says how many are by now. -/
def tally : Check Nat := .count .done

/-- Tells the observer. -/
def report (event : Event) : Check Unit := .tell event (.done ())

@[simp] theorem pure_eq (a : α) : (pure a : Check α) = .done a := rfl

@[simp] theorem done_bind (a : α) (f : α → Check β) : (Check.done a >>= f) = f a := rfl

@[simp] theorem ask_bind (p : Path) (f : Except String String → Check β) :
    (ask p >>= f) = .read p f := rfl

@[simp] theorem log_bind (line : Log.Line) (f : Unit → Check β) :
    (log line >>= f) = .note line (f ()) := rfl

@[simp] theorem tally_bind (f : Nat → Check β) : (tally >>= f) = .count f := rfl

@[simp] theorem report_bind (event : Event) (f : Unit → Check β) :
    (report event >>= f) = .tell event (f ()) := rfl

/-! ## Running checks -/

section Running

variable (reader : Reader) (purpose : Purpose)

/-- Makes one step of a check that reads for this purpose. -/
def step : Check α → Scan (Check α)
  | .done a => return .done a
  | .read p next => do return next (← Scan.read reader purpose p)
  | .note line next => do
    Scan.note line
    return next
  | .count next => do return next (← Scan.count)
  | .tell event next => do
    Scan.tell event
    return next

/-- Makes all steps of a check that reads for this purpose. -/
def run : Check α → Scan α
  | .done a => return a
  | .read p next => do run (next (← Scan.read reader purpose p))
  | .note line next => do
    Scan.note line
    run next
  | .count next => do run (next (← Scan.count))
  | .tell event next => do
    Scan.tell event
    run next

end Running

/-- Makes checks one after another; the first of them stands at `place`, and what a check reads
for depends on its place. -/
def inOrder (reader : Reader) (purpose : Nat → Purpose) : Nat → List (Check α) → Scan (List α)
  | _, [] => return []
  | place, check :: checks => do
    let result ← check.run reader (purpose place)
    let others ← inOrder reader purpose (place + 1) checks
    return result :: others

/-- Makes checks in turns: one turn after another names the place of the check that makes its next
step. The turn of a check that is made already is void, and so is one that no check has. What is
left when all turns are over is made in order. -/
def inTurns (reader : Reader) (purpose : Nat → Purpose) :
    List Nat → List (Check α) → Scan (List α)
  | [], checks => inOrder reader purpose 0 checks
  | turn :: turns, checks =>
    match checks[turn]? with
    | none => inTurns reader purpose turns checks
    | some check => do
      let check ← check.step reader (purpose turn)
      inTurns reader purpose turns (checks.set turn check)

end Check

end Unimported.Scan
