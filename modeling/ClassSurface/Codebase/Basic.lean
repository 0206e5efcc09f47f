import ClassSurface.Codebase.Declaration
import ClassSurface.Codebase.Error

/-! # Codebase.Basic — an ordered table of declarations

A codebase holds at most one declaration for a name, in the order in which the names were first
declared.

* `insert` replaces a declaration of the same name and keeps its place.
* `find?` is the declaration of a name.
-/

namespace ClassSurface

structure Codebase where
  declarations : List ClassDecl := []
  deriving Inhabited

namespace Codebase

def empty : Codebase := {}

/-- Puts `d` in the place of the declaration with its name, or behind all others. -/
def place (d : ClassDecl) : List ClassDecl → List ClassDecl
  | [] => [d]
  | e :: es => if e.name = d.name then d :: es else e :: place d es

def insert (c : Codebase) (d : ClassDecl) : Codebase := ⟨place d c.declarations⟩

def ofList (ds : List ClassDecl) : Codebase := ds.foldl insert empty

def names (c : Codebase) : List String := c.declarations.map (·.name)

def size (c : Codebase) : Nat := c.declarations.length

def find? (c : Codebase) (name : String) : Option ClassDecl := c.declarations.find? (·.name = name)

def contains (c : Codebase) (name : String) : Bool := (c.find? name).isSome

/-- The names that the declaration of `name` refers to. -/
def ancestorsOf (c : Codebase) (name : String) : List String :=
  match c.find? name with
  | none => []
  | some d => d.ancestors

/-! ### What inserting does to the names and to look-ups -/

theorem find?_place (d : ClassDecl) (ds : List ClassDecl) (name : String) :
    (place d ds).find? (·.name = name) =
      if name = d.name then some d else ds.find? (·.name = name) := by
  induction ds with
  | nil => by_cases h : name = d.name <;> simp [place, h, Ne.symm]
  | cons e es ih =>
    by_cases he : e.name = d.name
    · by_cases h : name = d.name
      · simp [place, he, h]
      · simp [place, he, h, Ne.symm h]
    · by_cases h : name = d.name
      · subst h
        simp [place, he, ih]
      · by_cases hn : e.name = name <;> simp [place, he, h, hn, ih]

@[simp] theorem find?_insert (c : Codebase) (d : ClassDecl) (name : String) :
    (c.insert d).find? name = if name = d.name then some d else c.find? name :=
  find?_place d c.declarations name

theorem names_place (d : ClassDecl) (ds : List ClassDecl) :
    (place d ds).map (·.name) =
      if d.name ∈ ds.map (·.name) then ds.map (·.name) else ds.map (·.name) ++ [d.name] := by
  induction ds with
  | nil => simp [place]
  | cons e es ih =>
    by_cases h : e.name = d.name
    · simp [place, h]
    · simp only [place, h, if_false, List.map_cons, ih, List.mem_cons, Ne.symm h, false_or]
      split <;> simp

/-- A new name goes behind all others, a known one stays where it is. -/
theorem names_insert (c : Codebase) (d : ClassDecl) :
    (c.insert d).names = if d.name ∈ c.names then c.names else c.names ++ [d.name] :=
  names_place d c.declarations

theorem contains_iff_mem_names {c : Codebase} {name : String} :
    c.contains name ↔ name ∈ c.names := by
  simp [contains, find?, names]

theorem ofList_concat (ds : List ClassDecl) (d : ClassDecl) :
    ofList (ds ++ [d]) = (ofList ds).insert d := by
  simp [ofList]

end Codebase

end ClassSurface
