import ClassSurface.Decimal.Layout
import ClassSurface.Registry.Basic

/-! # Registry.Stats — what a registry has come to

Counts over the entries of a registry and over the classes rendered from it; a class that was
rendered twice counts twice. With the time that the work took they are written as an indented JSON
object.
-/

namespace ClassSurface

/-- A span of time. -/
structure Duration where
  seconds : Nat
  nanoseconds : Nat
  deriving DecidableEq, Repr, Inhabited

namespace Duration

def ofMilliseconds (ms : Nat) : Duration := ⟨ms / 1000, ms % 1000 * 1000000⟩

/-- The span in seconds: whole and fractional part are rounded each, then their sum. -/
def inSeconds (d : Duration) : Binary64 :=
  let sum := do
    let whole ← Binary64.ofNat? d.seconds
    let fraction ← Binary64.ofRatio? d.nanoseconds 1000000000
    whole.add? fraction
  sum.getD .zero

end Duration

structure Stats where
  /-- Entries of the registry, also those out of scope. -/
  classes : Nat
  inScopeClasses : Nat
  /-- Methods written under the class that declares them. -/
  methods : Nat
  dynamicMethods : Nat
  /-- Methods of those written whose return type is unresolved. -/
  unresolvedReturns : Nat
  deriving DecidableEq, Repr, Inhabited

namespace Stats

/-- A count, added up over a list. -/
def total {α : Type} (count : α → Nat) : List α → Nat
  | [] => 0
  | a :: rest => count a + total count rest

theorem total_map {α β : Type} (count : β → Nat) (f : α → β) (l : List α) :
    total count (l.map f) = total (fun a => count (f a)) l := by
  induction l with
  | nil => rfl
  | cons a l ih => rw [List.map_cons, total, total, ih]

def collect (r : Registry) : Stats :=
  let shown := r.renderedEntries.map (·.2)
  { classes := r.size
    inScopeClasses := shown.length
    methods := total (·.ownMethods.length) shown
    dynamicMethods := total (·.dynamicMethods.size) shown
    unresolvedReturns :=
      total (·.ownMethods.countP (·.returnType = Signature.unresolvedType)) shown }

/-- The counts and the time taken, one member on a line. -/
def toJson (s : Stats) (d : Duration) : String :=
  let row := fun (name value : String) => "  \"" ++ name ++ "\": " ++ value
  "\x7b\n" ++
    ",\n".intercalate
      [row "classes" (toString s.classes), row "in_scope_classes" (toString s.inScopeClasses),
        row "methods" (toString s.methods), row "dynamic_methods" (toString s.dynamicMethods),
        row "unresolved_returns" (toString s.unresolvedReturns),
        row "duration_seconds" (d.inSeconds.text .measure)] ++
    "\n\x7d"

end Stats

end ClassSurface
