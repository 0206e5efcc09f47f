/-! # Project.Scope — which classes belong to a project

A scope is given by leading parts of fully qualified class names. A name that starts with an
excluded part is out, whatever is included; of the others, those that start with an included part
are in.
-/

namespace ClassSurface

structure Scope where
  included : List String := []
  excluded : List String := []
  deriving DecidableEq, Repr, Inhabited

namespace Scope

/-- The scope of the names that start with `s`. -/
def only (s : String) : Scope := { included := [s] }

/-- Also leaves out the names that start with `s`. -/
def without (scope : Scope) (s : String) : Scope :=
  { scope with excluded := scope.excluded ++ [s] }

/-- Some part in `parts` is a leading part of `name`. -/
def startsWithAny (parts : List String) (name : String) : Bool :=
  parts.any fun part => part.toList.isPrefixOf name.toList

def contains (scope : Scope) (name : String) : Bool :=
  !startsWithAny scope.excluded name && startsWithAny scope.included name

end Scope

end ClassSurface
