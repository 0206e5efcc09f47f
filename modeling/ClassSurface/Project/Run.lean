import ClassSurface.Project.Settings
import ClassSurface.Registry.Document
import ClassSurface.Registry.Stats
import ClassSurface.Text.Quoted

/-! # Project.Run — from a list of classes to the document of a project

`run` resolves the classes of a list in a new registry. It reports its start once the list is known,
then what the registry has to report, and its end if all went well.
-/

namespace ClassSurface.Project

/-- At what a run failed. -/
inductive RunError where
  /-- The list of classes could not be had. -/
  | enumeration (cause : SourceError)
  | resolution (cause : ResolveError)
  deriving DecidableEq, Repr, Inhabited

def RunError.message : RunError → String
  | enumeration cause => "Failed to enumerate project classes: " ++ cause.message
  | resolution cause => "Failed to resolve project classes: " ++ cause.message

structure Report where
  document : String
  stats : Stats
  deriving DecidableEq, Repr, Inhabited

def startEvent (settings : Settings) (classes : List String) : Event :=
  .started classes.length (Text.quotedList settings.included) (Text.quotedList settings.excluded)
    settings.shared

def endEvent (s : Stats) : Event :=
  .finished s.inScopeClasses s.classes s.methods s.unresolvedReturns

/-- The report, or what went wrong, and the events on the way. It is empty when requests nest deeper
than the source allows. -/
def run (settings : Settings) (classes : Except SourceError (List String)) (ctx : Context) :
    Option (Except RunError Report × List Event) :=
  match classes with
  | .error cause => some (.error (.enumeration cause), [])
  | .ok classes =>
    let start : Registry := { shared := settings.shared, log := #[startEvent settings classes] }
    match Registry.document ctx settings.scope classes start with
    | none => none
    | some (.error cause, r) => some (.error (.resolution cause), r.log.toList)
    | some (.ok document, r) =>
      let stats := Stats.collect r
      some (.ok { document, stats }, (r.report [endEvent stats]).log.toList)

end ClassSurface.Project
