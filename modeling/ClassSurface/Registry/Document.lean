import ClassSurface.Project.Scope
import ClassSurface.Registry.Resolve

/-! # Registry.Document — the text of a project

A document shows the classes of a list that are in scope, in list order, each followed by an empty
line. A class counts as rendered as soon as its text is written, also when a later class of the list
fails.
-/

namespace ClassSurface.Registry

def textOf (r : Registry) (id : ClassId) : String := (r.entries[id]?.map Entry.text).getD ""

def markRendered (r : Registry) (id : ClassId) : Registry :=
  { r with rendered := r.rendered.push id }

/-- Requests the classes in scope and writes them down. -/
def document (ctx : Context) (scope : Scope) : List String → Registry → Outcome String
  | [], r => some (.ok "", r)
  | name :: names, r =>
    if scope.contains name then
      (r.request ctx name).andThen fun id r =>
        (document ctx scope names (r.markRendered id)).andThen fun rest s =>
          some (.ok (r.textOf id ++ "\n" ++ rest), s)
    else document ctx scope names r

end ClassSurface.Registry
