import ClassSurface.Codebase.Decode
import Std.Data.TreeMap

/-! # Project.ClassFiles — which file defines which class

An index from fully qualified class names to the files that define them, as a class loader keeps it.
It lists its classes by name.
-/

namespace ClassSurface

structure ClassFiles where
  paths : Std.TreeMap String String := ∅

namespace ClassFiles

def empty : ClassFiles := {}

def insert (f : ClassFiles) (name path : String) : ClassFiles := ⟨f.paths.insert name path⟩

/-- Reads an object of paths; of several paths for one class the last one counts. -/
def ofJson (text : String) : Except SourceError ClassFiles :=
  (decodeText (Json.decodeMap Json.decodeString) text).map fun paths => ⟨.ofList paths⟩

def ofFile : File → Except SourceError ClassFiles := SourceError.onFile ofJson

def path? (f : ClassFiles) (name : String) : Option String := f.paths[name]?

def names (f : ClassFiles) : List String := f.paths.keys

def size (f : ClassFiles) : Nat := f.paths.size

end ClassFiles

end ClassSurface
