import ClassSurface.Codebase.Error
import ClassSurface.Registry.Event
import ClassSurface.Registry.Signature
import Std.Data.TreeMap

/-! # Registry.Basic — the store of classes

A registry holds one entry for each class view it was given, numbered in order of arrival. An entry
starts out with the view alone and is resolved once it has a `Surface`. Entries are never removed,
and a surface never changes.

* `idOf?` is the number of the first entry that was requested under a name; later ones do not
  replace it.
* `stateOf` tells how far an entry has come: an entry is in progress while it stands on the stack.
-/

namespace ClassSurface

/-- What can go wrong when a class is resolved. -/
inductive ResolveError where
  /-- The class was requested again while it was being resolved. -/
  | reentrant (name : String)
  | notRegistered (name : String)
  | source (cause : SourceError)
  deriving DecidableEq, Repr, Inhabited

def ResolveError.message : ResolveError → String
  | reentrant name =>
    "Resolution of " ++ name ++ " re-entered while in progress. Maybe there is a dependency loop."
  | notRegistered name => "Class not found in registry: " ++ name
  | source cause => cause.message

/-- What resolving a class adds to its view. -/
structure Surface where
  parent : Option ClassId
  interfaces : List ClassId
  /-- Methods that exist by documentation alone: name and signature text. -/
  dynamicMethods : Std.TreeMap String String
  /-- Every method visible on the class, by name. -/
  methods : Std.TreeMap String Signature

structure Entry where
  /-- The number of the entry. -/
  id : ClassId
  /-- The name under which the class was requested. -/
  requested : String
  view : ClassView
  surface : Option Surface := none

inductive State where
  | pending
  | inProgress
  | resolved
  deriving DecidableEq, Repr, Inhabited

namespace Entry

def name (e : Entry) : String := e.view.name

def isResolved (e : Entry) : Bool := e.surface.isSome

def parent (e : Entry) : Option ClassId := e.surface.bind (·.parent)

def interfaces (e : Entry) : List ClassId := (e.surface.map (·.interfaces)).getD []

def dynamicMethods (e : Entry) : Std.TreeMap String String :=
  (e.surface.map (·.dynamicMethods)).getD ∅

def methods (e : Entry) : Std.TreeMap String Signature := (e.surface.map (·.methods)).getD ∅

def method? (e : Entry) (name : String) : Option Signature := e.methods[name]?

/-- The methods that the class declares itself, by name. -/
def ownMethods (e : Entry) : List Signature := e.methods.values.filter (·.declaringClass = e.name)

/-- The first line of a class: `Name[ extends Parent][ implements A, B]`. -/
def header (e : Entry) : String :=
  e.view.name ++
    (match e.view.parent with
      | none => ""
      | some parent => " extends " ++ parent) ++
    (if e.view.interfaces = [] then "" else " implements " ++ ", ".intercalate e.view.interfaces)

/-- The lines of a class: its header, its documented methods, its own methods. -/
def lines (e : Entry) : List String :=
  e.header :: e.dynamicMethods.values ++ e.ownMethods.map (Signature.text e.view.isInterface)

/-- A class in full, each line closed by a line feed. -/
def text (e : Entry) : String := String.join (e.lines.map (· ++ "\n"))

end Entry

structure Registry where
  /-- Whether requests for one name share one entry. -/
  shared : Bool := true
  entries : Array Entry := #[]
  /-- The entries being resolved, the innermost first. -/
  stack : List ClassId := []
  /-- The classes written into documents, in order. -/
  rendered : Array ClassId := #[]
  /-- How often the source was asked. -/
  queries : Nat := 0
  log : Array Event := #[]

namespace Registry

def size (r : Registry) : Nat := r.entries.size

/-- The number of the first entry requested under `name`. -/
def idOf? (r : Registry) (name : String) : Option ClassId := r.entries.findIdx? (·.requested = name)

/-- The first entry requested under `name`, with its number. -/
def find? (r : Registry) (name : String) : Option (ClassId × Entry) :=
  (r.idOf? name).bind fun id => r.entries[id]?.map (id, ·)

def contains (r : Registry) (name : String) : Bool := (r.idOf? name).isSome

/-- The entry registered for `name`, which need not be resolved. -/
def get (r : Registry) (name : String) : Except ResolveError (ClassId × Entry) :=
  match r.find? name with
  | none => .error (.notRegistered name)
  | some found => .ok found

def stateOf (r : Registry) (id : ClassId) (e : Entry) : State :=
  if e.isResolved then .resolved else if id ∈ r.stack then .inProgress else .pending

/-- The method called `name` of the entry number `id`. -/
def method? (r : Registry) (id : ClassId) (name : String) : Option Signature :=
  r.entries[id]?.bind (·.method? name)

/-- The entries written into documents, in order. -/
def renderedEntries (r : Registry) : List (ClassId × Entry) :=
  r.rendered.toList.filterMap fun id => r.entries[id]?.map (id, ·)

end Registry

end ClassSurface
