/-
Settings files.

The form of a file is told by its extension; where that says nothing, YAML is tried before TOML.
Without a file of its own a project may have one of six names in its root, and the first that is
there is taken, whether or not it can be read.
-/
import Unimported.Disk.Basic
import Unimported.Settings.FromToml
import Unimported.Settings.FromYaml

set_option autoImplicit false

namespace Unimported.Settings

/-- Why a YAML text holds no settings. -/
inductive YamlCause where
  | malformed (cause : Yaml.Error)
  | mismatched (cause : Mismatch)
deriving DecidableEq, Repr

/-- Why a TOML text holds no settings. -/
inductive TomlCause where
  | malformed (cause : Toml.Error)
  | mismatched (cause : Mismatch)
deriving DecidableEq, Repr

/-- Why settings cannot be loaded. -/
inductive LoadError where
  | unreadable (path : Path) (cause : Trouble)
  | yaml (path : Path) (cause : YamlCause)
  | toml (path : Path) (cause : TomlCause)
deriving DecidableEq, Repr

/-- What is wrong, in words. -/
def LoadError.message : LoadError → String
  | .unreadable p cause =>
    "Failed to read config file " ++ p.display ++ ": " ++ cause.message
  | .yaml p _ => "Failed to parse YAML config " ++ p.display
  | .toml p _ => "Failed to parse TOML config " ++ p.display

/-! ## Texts -/

/-- The settings that a YAML text gives. -/
def readYaml (text : List Char) : Except YamlCause Overlay :=
  match Yaml.parse text with
  | .error e => .error (.malformed e)
  | .ok document => (overlayOfYaml document).mapError .mismatched

/-- The settings that a TOML text gives. -/
def readToml (text : List Char) : Except TomlCause Overlay :=
  match Toml.parse text with
  | .error e => .error (.malformed e)
  | .ok root => (overlayOfToml root).mapError .mismatched

/-- The forms of settings files. -/
inductive FileForm where
  | yaml
  | toml
  /-- YAML, or else TOML. -/
  | either
deriving DecidableEq, Repr

/-- The form of the file at a path. -/
def FileForm.ofPath (p : Path) : FileForm :=
  match p.extension? with
  | some extension =>
    if extension = Text.Utf8.ofString "yml" ∨ extension = Text.Utf8.ofString "yaml" then .yaml
    else if extension = Text.Utf8.ofString "toml" then .toml
    else .either
  | none => .either

/-- The settings that a text of the given form gives; the path is for errors only. -/
def readAs (form : FileForm) (p : Path) (text : List Char) : Except LoadError Overlay :=
  match form with
  | .yaml => (readYaml text).mapError (.yaml p)
  | .toml => (readToml text).mapError (.toml p)
  | .either =>
    match readYaml text with
    | .ok overlay => .ok overlay
    | .error _ => (readToml text).mapError (.toml p)

/-! ## Files -/

/-- The settings in the file at a path. -/
def fromFile (d : Disk) (p : Path) : Except LoadError Settings := do
  match d.readText p with
  | .error cause => throw (.unreadable p cause)
  | .ok text =>
    let overlay ← readAs (FileForm.ofPath p) p text.toList
    return overlay.apply Settings.default

/-- The names that settings files have by default, in the order in which they are tried. -/
def defaultNames : List String :=
  [".unusedfiles.yml", ".unusedfiles.yaml", ".unusedfiles.toml",
   "unusedfiles.yml", "unusedfiles.yaml", "unusedfiles.toml"]

/-- The first settings file with a default name in a project. -/
def defaultFile? (d : Disk) (root : Path) : Option Path :=
  (defaultNames.map fun name => root.join (Path.ofString name)).find? d.hasFile

/-- The settings in the first file with a default name, or else the defaults. -/
def fromDefaultFiles (d : Disk) (root : Path) : Except LoadError Settings :=
  match defaultFile? d root with
  | some p => fromFile d p
  | none => .ok Settings.default

end Unimported.Settings
