import ClassSurface.Codebase.Lineage
import Std.Data.TreeMap

/-! # Codebase.Source — where views of classes come from

A source is asked for views by name, through an arbitrary function of the number of the query, so
its answers may change between queries. It also tells how deep requests may nest.

A codebase is a source whose answers stay the same. It may be overlaid with ready-made views, which
are found by the name asked for, whatever class they describe. Requests to a source of finitely many
names need not nest deeper than there are names, and once more to find a loop.
-/

namespace ClassSurface

structure Source where
  /-- The answer to a query, given how many were made before it. -/
  answer : Nat → String → Except SourceError ClassView
  /-- The greatest number of requests that may be under way at once. -/
  depth : Nat

/-- Views by the name under which they are found. -/
abbrev Overlay := Std.TreeMap String ClassView

namespace Codebase

/-- The view found under `name`, first in the overlay and then in the codebase. -/
def viewThrough (c : Codebase) (overlay : Overlay) (name : String) : Except SourceError ClassView :=
  match overlay[name]? with
  | some view => .ok view
  | none => c.view name

def source (c : Codebase) (overlay : Overlay := ∅) : Source where
  answer := fun _ name => c.viewThrough overlay name
  depth := c.size + overlay.size + 1

end Codebase

end ClassSurface
