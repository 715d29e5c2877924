/-
The program. It takes a picture of the parts of the disk that a run can see, runs on the picture,
shows the outcome, and writes the document to its file.

The picture is taken in two steps: the settings files first, and then, by the settings, the
project. It holds the names of all files of the project, the texts of those that are looked for,
and all ignore files. What cannot be read is missing, and a link leads to the absolute path of
what it stands for.
-/
import Unimported.CommandLine.Run

set_option autoImplicit false

namespace Unimported.Main

/-! ## Places -/

/-- The names on an absolute path. -/
def namesOf (place : String) : List Name :=
  (Path.ofString place).segments.filter fun segment => !Path.isTrivialSegment segment

/-- The absolute paths of a directory and of those above it. -/
def upwards (place : String) : List String :=
  place :: (Ignore.Levels.above (namesOf place)).map fun names =>
    (Ignore.Levels.absolutePath names).display

/-- The beginnings of a path, the shortest first. -/
def beginnings (p : Path) : List String :=
  let segments := p.segments
  (List.range segments.length).map fun n =>
    let beginning : Path := ⟨joinSlash (segments.take (n + 1))⟩
    if beginning.bytes.isEmpty then "/" else beginning.display

/-- The absolute path that a path leads to, if there is anything. -/
def realPath? (p : String) : IO (Option String) := do
  try return some (← IO.FS.realPath p).toString
  catch _ => return none

/-! ## The picture -/

/-- Adds a node to the picture where it has none. -/
def addNode (d : Disk) (place : String) (node : Node) : Disk :=
  if (d.root.at? (namesOf place)).isSome then d
  else { d with root := d.root.put (namesOf place) node }

/-- Adds the directories and links that a path leads through. -/
def addWay (d : Disk) (p : Path) : IO Disk := do
  let mut d := d
  let mut directory := (← IO.currentDir).toString
  for beginning in beginnings p do
    match ← realPath? beginning with
    | none => pure ()
    | some place =>
      let here := (← IO.currentDir) / beginning
      match (← here.symlinkMetadata).type, here.fileName with
      | .symlink, some name => d := addNode d (directory ++ "/" ++ name) (.link (Path.ofString place))
      | _, _ => pure ()
      if ← here.isDir then d := addNode d place (.directory .nil)
      directory := place
  return d

/-- What is at an absolute path, with all that is below it and the texts of the wanted files. -/
partial def nodeAt? (wanted : Name → Bool) (place : String) : IO (Option Node) := do
  try
    let here := (← IO.currentDir) / place
    match (← here.symlinkMetadata).type with
    | .file =>
      if wanted (Text.Utf8.ofString (here.fileName.getD "")) then
        let bytes ← IO.FS.readBinFile here
        return some (.file bytes.toList)
      else return some (.file [])
    | .symlink =>
      let target ← IO.FS.realPath here
      return some (.link (Path.ofString target.toString))
    | .dir =>
      let mut entries := Entries.nil
      for entry in ← here.readDir do
        match ← nodeAt? wanted (place ++ "/" ++ entry.fileName) with
        | some node => entries := .cons (Text.Utf8.ofString entry.fileName) node entries
        | none => pure ()
      return some (.directory entries)
    | _ => return none
  catch _ => return none

/-- Adds what is at a path, with the way to it. -/
def add (wanted : Name → Bool) (d : Disk) (p : Path) : IO Disk := do
  let d ← addWay d p
  match ← realPath? p.display with
  | none => return d
  | some place =>
    match ← nodeAt? wanted place with
    | some node => return { d with root := d.root.put (namesOf place) node }
    | none => return d

/-- The names of the files that tell what is ignored, and of those that lead to them. -/
def ignoreNames : List String :=
  [".ignore", ".gitignore", ".git", ".git/info/exclude", ".jj"]

/-- The picture of an empty disk. -/
def emptyPicture : IO Disk := do
  let here := namesOf (← IO.currentDir).toString
  return ⟨(Node.directory .nil).put here (.directory .nil), here⟩

/-- Adds the settings files that a run can see. -/
def addSettingsFiles (o : Options) (d : Disk) : IO Disk := do
  let files :=
    match o.config with
    | some p => [p]
    | none => Settings.defaultNames.map fun name => o.root.join (Path.ofString name)
  files.foldlM (add fun _ => true) (← addWay d o.root)

/-- Whether a run with the given settings may read a file of the given name. -/
def mayRead (s : Settings) (name : Name) : Bool :=
  name.head? = some dot || name = Text.Utf8.ofString "exclude"
    || name = Text.Utf8.ofString "commondir"
    || s.acceptsExtension ((Path.splitExtension name).2.getD [])

/-- Adds all that a run with the given settings can see of the project. -/
def addProject (o : Options) (s : Settings) (d : Disk) : IO Disk := do
  let mut d := d
  for start in Discovery.starts s o.root do
    d ← add (mayRead s) d start
    match ← realPath? start.display with
    | none => pure ()
    | some place =>
      for directory in upwards place do
        for name in ignoreNames do
          let p := (Path.ofString directory).join (Path.ofString name)
          d ← if name = ".git" ∨ name = ".jj" then addWay d p else add (mayRead s) d p
  match o.output with
  | some p => add (fun _ => true) d p
  | none => return d

/-- The picture for a run with the given options. -/
def picture (o : Options) : IO Disk := do
  let d ← addSettingsFiles o (← emptyPicture)
  match CommandLine.loadSettings o d with
  | .ok s => addSettingsFiles o (← addProject o s d)
  | .error _ => return d

/-! ## The outcome -/

/-- Writes the document to its file, if the run has done so on the picture. -/
def writeBack (o : Options) (before after : Disk) : IO Bool := do
  match o.output.map fun p => (p, before.readBytes p, after.readBytes p) with
  | some (p, old, .ok new) =>
    match old with
    | .ok bytes => if bytes = new then return true
    | .error _ => pure ()
    try
      IO.FS.writeBinFile p.display ⟨new.toArray⟩
      return true
    catch _ => return false
  | _ => return true

/-- Whether text on the standard output may be coloured. -/
def mayColour : IO Bool := do
  if (← IO.getEnv "NO_COLOR").isSome then return false
  (← IO.getStdout).isTty

/-- Runs the program with the given options. -/
def runWith (o : Options) : IO UInt32 := do
  let started ← IO.monoNanosNow
  let d ← picture o
  let prepared ← IO.lazyPure fun _ => CommandLine.prepare o d
  let elapsed := Duration.ofNanos ((← IO.monoNanosNow) - started)
  let coloured ← mayColour
  let outcome := CommandLine.conclude coloured elapsed prepared
  for line in outcome.log.filter o.shows do
    IO.eprintln (CommandLine.logText line)
  IO.eprint (String.ofList (Terminal.writeLines coloured outcome.notices))
  IO.print outcome.output
  match outcome.failure with
  | some failure =>
    IO.eprintln ("Error: " ++ failure.message)
    return 1
  | none =>
    if ← writeBack o d outcome.disk then return 0
    IO.eprintln "Error: Failed to write report"
    return 1

end Unimported.Main

/-- Reads the command line and does what it asks for. -/
def main (arguments : List String) : IO UInt32 := do
  match Unimported.Arguments.read arguments with
  | .ok o => Unimported.Main.runWith o
  | .error .help =>
    IO.print Unimported.Help.text
    return 0
  | .error .version =>
    IO.print Unimported.versionText
    return 0
  | .error (.misuse m) =>
    IO.eprintln ("error: " ++ m.message)
    return 2
