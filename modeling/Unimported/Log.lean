/-
Log lines: what a run tells about its work, by level of detail.
-/

set_option autoImplicit false

namespace Unimported

namespace Log

/-- How detailed a line is, from the finest level to the gravest. -/
inductive Level where
  | trace
  | debug
  | info
  | warn
deriving DecidableEq, Repr

/-- The word for the level. -/
def Level.toString : Level → String
  | .trace => "TRACE"
  | .debug => "DEBUG"
  | .info => "INFO"
  | .warn => "WARN"

/-- One line of the log. -/
structure Line where
  level : Level
  message : String
deriving DecidableEq, Repr

/-- The line as it is written. -/
def Line.toString (l : Line) : String := l.level.toString ++ " " ++ l.message

/-- A line of the finest level. -/
def trace (message : String) : Line := ⟨.trace, message⟩

/-- A line about details. -/
def debug (message : String) : Line := ⟨.debug, message⟩

/-- A line about the progress of the run. -/
def info (message : String) : Line := ⟨.info, message⟩

/-- A line about something that went wrong. -/
def warn (message : String) : Line := ⟨.warn, message⟩

end Log

end Unimported
