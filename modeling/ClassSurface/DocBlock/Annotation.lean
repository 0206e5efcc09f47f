/-! # DocBlock.Annotation — what documentation says about a class or a method

A documentation block is reduced to an ordered list of annotations. A tag that should have been one
but cannot be read is kept as `Annotation.invalid`, so that the rest of the block stays usable.

A `DocReader` turns the text of one block into its annotations. Its error means that the block as a
whole is unusable.
-/

namespace ClassSurface

/-- Why a documentation block, or one tag of it, cannot be read. -/
inductive DocError where
  | malformed (tag text : String)
  deriving DecidableEq, Repr, Inhabited

def DocError.message : DocError → String
  | malformed tag text => "Malformed @" ++ tag ++ " annotation: " ++ text

inductive Annotation where
  /-- The type and the name of one parameter; either is empty when the tag leaves it out. -/
  | param (typeHint name : String)
  /-- The type of the result; empty when the tag leaves it out. -/
  | result (typeHint : String)
  /-- A method that exists without a declaration, with its signature in normal form. -/
  | method (name rendered : String)
  | invalid (error : DocError)
  deriving DecidableEq, Repr, Inhabited

abbrev DocReader := String → Except DocError (List Annotation)

/-- The reader to which every block is unusable. -/
def DocReader.rejecting : DocReader := fun doc => .error (.malformed "block" doc)

end ClassSurface
