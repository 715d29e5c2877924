/-
Arguments: reading a command line.

Arguments are read from left to right. An option has a long name behind two dashes, and some have
a letter behind one dash; letters can be joined. A parameter takes a value, which is the next
argument unless it stands in the same one: behind an equals sign, or directly behind the letter.
The next argument is no value if it looks like an option. Two dashes alone end the options. What
is neither is the root of the project. Only some parameters may be repeated.
-/
import Unimported.CommandLine.Options

set_option autoImplicit false

namespace Unimported.Arguments

/-- An option that is on or off. -/
inductive Flag where
  | respectIgnoreFiles
  | parallel
  | showUsed
  | noProgress
  | verbose
  | quiet
deriving DecidableEq, Repr

/-- An option with a value. -/
inductive Parameter where
  | config
  | target
  | exclude
  | extension
  | format
  | output
  | batchSize
deriving DecidableEq, Repr

/-- What an option's name stands for. -/
inductive Item where
  | flag (f : Flag)
  | parameter (p : Parameter)
  | help
  | version
deriving DecidableEq, Repr

/-- What is wrong with a command line. -/
inductive Misuse where
  /-- There is no such option, or there is a second root. -/
  | unexpected (argument : String)
  /-- A parameter has no value, or an empty one where there must be a path. -/
  | missingValue (p : Parameter)
  /-- The root is empty. -/
  | emptyPath
  /-- A parameter has a value that it cannot have. -/
  | invalidValue (p : Parameter) (value : String)
  /-- A flag has a value. -/
  | unneededValue (name value : String)
  /-- An option is given twice. -/
  | repeated (item : Item)
deriving DecidableEq, Repr

/-- Why a command line asks for no run. -/
inductive Stop where
  /-- It asks for the description of the options. -/
  | help
  /-- It asks for the version. -/
  | version
  | misuse (m : Misuse)
deriving DecidableEq, Repr

/-! ## Names -/

/-- The long names. -/
def longNames : List (String × Item) := [
  ("config", .parameter .config),
  ("target", .parameter .target),
  ("exclude", .parameter .exclude),
  ("ext", .parameter .extension),
  ("respect-gitignore", .flag .respectIgnoreFiles),
  ("format", .parameter .format),
  ("output", .parameter .output),
  ("batch-size", .parameter .batchSize),
  ("parallel", .flag .parallel),
  ("show-used", .flag .showUsed),
  ("no-progress", .flag .noProgress),
  ("verbose", .flag .verbose),
  ("quiet", .flag .quiet),
  ("help", .help),
  ("version", .version)]

/-- The letters. -/
def letters : List (Char × Item) := [
  ('c', .parameter .config),
  ('t', .parameter .target),
  ('e', .parameter .exclude),
  ('f', .parameter .format),
  ('o', .parameter .output),
  ('v', .flag .verbose),
  ('q', .flag .quiet),
  ('h', .help),
  ('V', .version)]

/-- The long name of an option. -/
def Item.name (item : Item) : String :=
  ((longNames.find? fun entry => entry.2 = item).map Prod.fst).getD ""

/-- What is wrong, in words. -/
def Misuse.message : Misuse → String
  | .unexpected argument => "unexpected argument '" ++ argument ++ "'"
  | .missingValue p => "a value is required for '--" ++ (Item.parameter p).name ++ "'"
  | .emptyPath => "a value is required for the path"
  | .invalidValue p value =>
    "invalid value '" ++ value ++ "' for '--" ++ (Item.parameter p).name ++ "'"
  | .unneededValue name value => "unexpected value '" ++ value ++ "' for '--" ++ name ++ "'"
  | .repeated item => "'--" ++ item.name ++ "' cannot be used more than once"

/-! ## Values -/

/-- The number that digits stand for, if there are any. -/
def natural? (digits : List Char) : Option Nat :=
  if digits.isEmpty ∨ ¬ digits.all Char.isDigit then none
  else some (digits.foldl (fun n c => 10 * n + (c.toNat - '0'.toNat)) 0)

/-- The batch size that a text stands for: digits, behind a plus sign or not. -/
def batchSize? (text : List Char) : Option Nat :=
  let digits := if text.head? = some '+' then text.drop 1 else text
  (natural? digits).filter fun n => n ≤ Settings.maxCount

/-- Sets an option that can be given once. -/
def once {α : Type} (item : Item) (old : Option α) (new : α) : Except Misuse (Option α) :=
  if old.isSome then .error (.repeated item) else .ok (some new)

/-- The path that is the value of a parameter. -/
def pathValue (p : Parameter) (value : List Char) : Except Misuse Path :=
  if value.isEmpty then .error (.missingValue p) else .ok (Path.ofString (String.ofList value))

/-- Sets a parameter. -/
def Parameter.set (p : Parameter) (value : List Char) (o : Options) : Except Misuse Options := do
  let text := String.ofList value
  match p with
  | .config => return { o with config := ← once (.parameter p) o.config (← pathValue p value) }
  | .target => return { o with targets := o.targets ++ [← pathValue p value] }
  | .exclude => return { o with exclude := o.exclude ++ [text] }
  | .extension => return { o with extensions := o.extensions ++ [text] }
  | .format =>
    match Report.Format.all.find? fun f => f.name = text with
    | some f => return { o with format := ← once (.parameter p) o.format f }
    | none => throw (.invalidValue p text)
  | .output => return { o with output := ← once (.parameter p) o.output (← pathValue p value) }
  | .batchSize =>
    match batchSize? value with
    | some n => return { o with batchSize := ← once (.parameter p) o.batchSize n }
    | none => throw (.invalidValue p text)

/-- Whether a flag is on. -/
def Flag.get (f : Flag) (o : Options) : Bool :=
  match f with
  | .respectIgnoreFiles => o.respectIgnoreFiles
  | .parallel => o.parallel
  | .showUsed => o.showUsed
  | .noProgress => o.noProgress
  | .verbose => o.verbose
  | .quiet => o.quiet

/-- Turns a flag on, which must be off. -/
def Flag.set (f : Flag) (o : Options) : Except Misuse Options :=
  if f.get o then .error (.repeated (.flag f))
  else
    .ok <| match f with
    | .respectIgnoreFiles => { o with respectIgnoreFiles := true }
    | .parallel => { o with parallel := true }
    | .showUsed => { o with showUsed := true }
    | .noProgress => { o with noProgress := true }
    | .verbose => { o with verbose := true }
    | .quiet => { o with quiet := true }

/-- Sets the root of the project. -/
def setPath (text : List Char) (o : Options) : Except Misuse Options :=
  if o.path.isSome then .error (.unexpected (String.ofList text))
  else if text.isEmpty then .error .emptyPath
  else .ok { o with path := some (Path.ofString (String.ofList text)) }

/-! ## Reading -/

/-- The options after an argument, with the parameter that waits for its value. -/
abbrev Progress := Options × Option Parameter

/-- A command line with something wrong. -/
def misuse {α : Type} (m : Misuse) : Except Stop α := .error (.misuse m)

/-- Turns what is wrong into the end of the reading. -/
def orStop {α : Type} (r : Except Misuse α) : Except Stop α := r.mapError .misuse

/-- The value behind a letter, without an equals sign before it. -/
def attached : List Char → List Char
  | '=' :: value => value
  | value => value

/-- Reads letters behind one dash. -/
def readLetters (o : Options) : List Char → Except Stop Progress
  | [] => .ok (o, none)
  | c :: rest =>
    match letters.lookup c with
    | none => misuse (.unexpected (String.ofList ['-', c]))
    | some .help => .error .help
    | some .version => .error .version
    | some (.flag f) => do readLetters (← orStop (f.set o)) rest
    | some (.parameter p) =>
      if rest.isEmpty then .ok (o, some p)
      else do return (← orStop (p.set (attached rest) o), none)

/-- The text before the first equals sign, and the text behind it if there is one. -/
def cutEquals (text : List Char) : List Char × Option (List Char) :=
  match text.dropWhile (· != '=') with
  | [] => (text, none)
  | _ :: value => (text.takeWhile (· != '='), some value)

/-- Reads a long name behind two dashes, with its value if that stands in the same argument. -/
def readLong (o : Options) (text : List Char) : Except Stop Progress :=
  let (name, value?) := cutEquals text
  match longNames.lookup (String.ofList name), value? with
  | none, _ => misuse (.unexpected ("--" ++ String.ofList text))
  | some (.parameter p), none => .ok (o, some p)
  | some (.parameter p), some value => do return (← orStop (p.set value o), none)
  | some _, some value => misuse (.unneededValue (String.ofList name) (String.ofList value))
  | some .help, none => .error .help
  | some .version, none => .error .version
  | some (.flag f), none => do return (← orStop (f.set o), none)

/-- Whether an argument looks like an option: a dash with something behind it. -/
def isOptionLike : List Char → Bool
  | '-' :: _ :: _ => true
  | _ => false

/-- Reads an argument that is no value. -/
def readArgument (o : Options) : List Char → Except Stop Progress
  | '-' :: '-' :: text => readLong o text
  | '-' :: c :: rest => readLetters o (c :: rest)
  | text => do return (← orStop (setPath text o), none)

/-- Reads arguments that are no options. -/
def readPaths : Options → List String → Except Stop Options
  | o, [] => .ok o
  | o, argument :: rest => do readPaths (← orStop (setPath argument.toList o)) rest

/-- Reads arguments; `waiting` is the parameter whose value is the next one. -/
def readFrom : Progress → List String → Except Stop Options
  | (o, none), [] => .ok o
  | (_, some p), [] => misuse (.missingValue p)
  | (o, none), argument :: rest =>
    if argument = "--" then readPaths o rest
    else do readFrom (← readArgument o argument.toList) rest
  | (o, some p), argument :: rest =>
    if isOptionLike argument.toList then misuse (.missingValue p)
    else do readFrom (← orStop (p.set argument.toList o), none) rest

/-- The options that a command line asks for. -/
def read (arguments : List String) : Except Stop Options := readFrom (.empty, none) arguments

end Unimported.Arguments
