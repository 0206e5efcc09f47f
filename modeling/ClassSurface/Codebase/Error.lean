import ClassSurface.Text.File

/-! # Codebase.Error — why facts about classes cannot be had
-/

namespace ClassSurface

inductive SourceError where
  | unknownClass (name : String)
  /-- A text that should hold declarations, or a list of classes, does not. -/
  | undecodable
  | unreadable (cause : FileError)
  deriving DecidableEq, Repr, Inhabited

def SourceError.message : SourceError → String
  | unknownClass name => "Unknown class: " ++ name
  | undecodable => "Undecodable text"
  | unreadable cause => cause.message

/-- Reads the text of a file with `read`. -/
def SourceError.onFile {α : Type} (read : String → Except SourceError α) (file : File) :
    Except SourceError α :=
  match file.text with
  | .error cause => .error (.unreadable cause)
  | .ok text => read text

end ClassSurface
