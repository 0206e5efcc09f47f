import ClassSurface.Project.Scope
import ClassSurface.Text.File
import ClassSurface.Toml.Document

/-! # Project.Settings — how a project is resolved

Settings are put together step by step, or read from a TOML document. In a document a list of name
parts may be written as a single string, and whatever is no setting is passed over.
-/

namespace ClassSurface

structure Settings where
  /-- Leading parts of the names in scope. -/
  included : List String := []
  /-- Leading parts of the names out of scope, whatever is included. -/
  excluded : List String := []
  /-- Whether all references to a class share one entry. -/
  shared : Bool := true
  deriving DecidableEq, Repr, Inhabited

/-- Why settings cannot be had. -/
inductive SettingsError where
  | undecodable
  | unreadable (cause : FileError)
  deriving DecidableEq, Repr, Inhabited

namespace Settings

def including (s : Settings) (part : String) : Settings :=
  { s with included := s.included ++ [part] }

def excluding (s : Settings) (part : String) : Settings :=
  { s with excluded := s.excluded ++ [part] }

def sharing (s : Settings) (shared : Bool) : Settings := { s with shared }

def scope (s : Settings) : Scope := { included := s.included, excluded := s.excluded }

/-! ### Reading settings -/

def string? : Toml.Value → Option String
  | .string s => some s
  | _ => none

/-- One string, or an array of strings. -/
def strings? : Toml.Value → Option (List String)
  | .string s => some [s]
  | .array items => items.mapM string?
  | _ => none

def switch? : Toml.Value → Option Bool
  | .boolean b => some b
  | _ => none

/-- The setting called `name`, or what it is if nothing is said. -/
def setting {α : Type} (root : Toml.Entries) (name : String) (read : Toml.Value → Option α)
    (unset : α) : Option α :=
  match root.get? name with
  | none => some unset
  | some value => read value

def ofEntries? (root : Toml.Entries) : Option Settings := do
  some
    { included := ← setting root "include_prefixes" strings? []
      excluded := ← setting root "exclude_prefixes" strings? []
      shared := ← setting root "share_descriptors" switch? true }

def ofToml (text : String) : Except SettingsError Settings :=
  match (Toml.read? text).bind ofEntries? with
  | some settings => .ok settings
  | none => .error .undecodable

def ofFile (file : File) : Except SettingsError Settings :=
  match file.text with
  | .error cause => .error (.unreadable cause)
  | .ok text => ofToml text

end Settings

end ClassSurface
