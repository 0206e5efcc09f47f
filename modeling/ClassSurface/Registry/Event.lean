import ClassSurface.DocBlock.Annotation

/-! # Registry.Event — what a run reports while it works

Events are values; how one is shown (`level`, `message`, `details`) is settled in one place.
-/

namespace ClassSurface

inductive Level where
  | debug
  | info
  | warn
  deriving DecidableEq, Repr, Inhabited

def Level.rank : Level → Nat
  | debug => 0
  | info => 1
  | warn => 2

def Level.text : Level → String
  | debug => "DEBUG"
  | info => "INFO"
  | warn => "WARN"

inductive Event where
  /-- A class that was not resolved yet is taken up. -/
  | resolving (className : String)
  | resolvedMethod (className method returnType : String)
  /-- A parameter annotation beyond the declared parameters. -/
  | surplusParam (className method parameter : String)
  /-- A tag that cannot be read, in the documentation of a class or of one of its methods. -/
  | malformedTag (className : String) (method : Option String) (error : DocError)
  /-- Documentation that cannot be read at all, of a class or of one of its methods. -/
  | unusableDoc (className : String) (method : Option String) (error : DocError)
  | started (classes : Nat) (included excluded : String) (shared : Bool)
  | finished (inScope entries methods unresolved : Nat)
  deriving DecidableEq, Repr, Inhabited

namespace Event

def level : Event → Level
  | resolving .. | resolvedMethod .. | surplusParam .. => .debug
  | malformedTag .. | unusableDoc .. => .warn
  | started .. | finished .. => .info

def message : Event → String
  | resolving _ => "Resolving class"
  | resolvedMethod .. => "Resolved method"
  | surplusParam _ _ parameter => "Ignoring @param " ++ parameter ++ " beyond declared parameters"
  | malformedTag _ _ error => "Skipping malformed annotation: " ++ error.message
  | unusableDoc _ none error => "Ignoring class documentation: " ++ error.message
  | unusableDoc _ (some _) error => "Ignoring method documentation: " ++ error.message
  | started .. => "Starting project resolution"
  | finished .. => "Resolved project"

/-- What an event is about, by name. -/
def details : Event → List (String × String)
  | resolving className => [("class", className)]
  | resolvedMethod className method returnType =>
    [("class", className), ("method", method), ("return_type", returnType)]
  | surplusParam className method _ => [("class", className), ("method", method)]
  | malformedTag className method _ | unusableDoc className method _ =>
    ("class", className) :: (method.map ("method", ·)).toList
  | started classes included excluded shared =>
    [("classes", toString classes), ("include", included), ("exclude", excluded),
      ("share_descriptors", toString shared)]
  | finished inScope entries methods unresolved =>
    [("in_scope", toString inScope), ("descriptors", toString entries),
      ("methods", toString methods), ("unresolved", toString unresolved)]

end Event

end ClassSurface
