/-! # Text.File — files as texts
-/

namespace ClassSurface

/-- Why a file cannot be read as text. -/
inductive FileError where
  | notFound
  | notText
  deriving DecidableEq, Repr, Inhabited

def FileError.message : FileError → String
  | notFound => "IO error: No such file or directory (os error 2)"
  | notText => "IO error: stream did not contain valid UTF-8"

/-- What is found where a file is looked for. -/
inductive File where
  | missing
  | holding (bytes : ByteArray)

/-- A file must be there and be encoded in UTF-8. -/
def File.text : File → Except FileError String
  | missing => .error .notFound
  | holding bytes =>
    match String.fromUTF8? bytes with
    | some text => .ok text
    | none => .error .notText

end ClassSurface
