/-
Styled text for terminals.

A line is a list of spans, each in one style. On a terminal with colours a span is written
between an escape sequence that turns its style on and one that turns all styles off; without
colours only its text is written. A text may hold such a sequence itself, and then the style is
turned on again behind it.
-/

set_option autoImplicit false

namespace Unimported.Terminal

/-- A colour of the foreground. -/
inductive Colour where
  | red
  | green
  | yellow
  | blue
  | magenta
  | cyan
  | white
deriving DecidableEq, Repr

/-- The number that stands for a colour. -/
def Colour.code : Colour → List Char
  | .red => ['3', '1']
  | .green => ['3', '2']
  | .yellow => ['3', '3']
  | .blue => ['3', '4']
  | .magenta => ['3', '5']
  | .cyan => ['3', '6']
  | .white => ['3', '7']

/-- How text is shown. -/
inductive Style where
  | plain
  | bold
  | dim
  | colour (c : Colour)
  | boldColour (c : Colour)
deriving DecidableEq, Repr

/-- The numbers that stand for a style. -/
def Style.code : Style → List Char
  | .plain => []
  | .bold => ['1']
  | .dim => ['2']
  | .colour c => c.code
  | .boldColour c => '1' :: ';' :: c.code

/-- The character that escape sequences start with. -/
def escape : Char := '\x1b'

/-- The sequence that turns a style on. -/
def Style.start (s : Style) : List Char := escape :: '[' :: (s.code ++ ['m'])

/-- The sequence that turns all styles off. -/
def reset : List Char := [escape, '[', '0', 'm']

/-- The text with `again` behind each sequence that turns all styles off. -/
def afterResets (again : List Char) : List Char → List Char
  | '\x1b' :: '[' :: '0' :: 'm' :: rest => reset ++ again ++ afterResets again rest
  | c :: rest => c :: afterResets again rest
  | [] => []

/-- Text in one style. -/
structure Span where
  style : Style
  text : List Char
deriving DecidableEq, Repr

/-- A line of spans. -/
abbrev Line := List Span

/-- A span without a style. -/
def plain (text : String) : Span := ⟨.plain, text.toList⟩

/-- A span in a style. -/
def styled (style : Style) (text : String) : Span := ⟨style, text.toList⟩

/-- The text of a span, with its style if there are colours. -/
def Span.write (coloured : Bool) (s : Span) : List Char :=
  if coloured && s.style != .plain then
    s.style.start ++ afterResets s.style.start s.text ++ reset
  else s.text

/-- The text of a line. -/
def Line.write (coloured : Bool) (line : Line) : List Char :=
  line.flatMap (Span.write coloured)

/-- The text of lines, each with its end. -/
def writeLines (coloured : Bool) (lines : List Line) : List Char :=
  lines.flatMap fun line => line.write coloured ++ ['\n']

end Unimported.Terminal
