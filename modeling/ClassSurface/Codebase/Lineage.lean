import ClassSurface.Codebase.Basic

/-! # Codebase.Lineage — a class with everything it inherits

The lineage of a class is the class itself, then the lineage of its parent, then those of its
interfaces in the order in which they are named; a class that was met before is not visited again,
and an undeclared one not at all. A method visible on a class is the first one of its name along the
lineage.
-/

namespace ClassSurface.Codebase

/-- The walk over `pending` and all that follows from it, among the names not yet visited. A visit
takes a name out of `unvisited`, so there are no more visits than names, on cyclic declarations too.
-/
def walk (c : Codebase) : Nat → List String → List String → List String
  | 0, _, _ => []
  | visits + 1, unvisited, pending =>
    match pending.dropWhile (! unvisited.contains ·) with
    | [] => []
    | name :: pending =>
      name :: walk c visits (unvisited.erase name) (c.ancestorsOf name ++ pending)

/-- The declared classes that `name` draws methods from, in the order in which they are asked. -/
def lineage (c : Codebase) (name : String) : List String := walk c c.size c.names [name]

/-- The methods that `name` declares itself, marked as declared there. -/
def ownMethods (c : Codebase) (name : String) : List MethodDecl :=
  match c.find? name with
  | none => []
  | some d => d.methods.map ({ · with declaringClass := name })

/-- Keeps the first method of each name. -/
def firstOfEachName : List MethodDecl → List MethodDecl
  | [] => []
  | m :: ms => m :: (firstOfEachName ms).filter (·.name ≠ m.name)

theorem mem_of_mem_firstOfEachName {m : MethodDecl} {ms : List MethodDecl}
    (h : m ∈ firstOfEachName ms) : m ∈ ms := by
  induction ms with
  | nil => simp [firstOfEachName] at h
  | cons a ms ih =>
    simp only [firstOfEachName, List.mem_cons, List.mem_filter] at h
    rcases h with rfl | ⟨h, _⟩
    · simp
    · exact List.mem_cons_of_mem _ (ih h)

/-- No name is kept twice. -/
theorem pairwise_firstOfEachName (ms : List MethodDecl) :
    (firstOfEachName ms).Pairwise (fun a b => a.name ≠ b.name) := by
  induction ms with
  | nil => simp [firstOfEachName]
  | cons a ms ih =>
    refine List.pairwise_cons.mpr ⟨fun b hb => ?_, ih.sublist List.filter_sublist⟩
    have hne : b.name ≠ a.name := by simpa using (List.mem_filter.mp hb).2
    exact hne.symm

/-- The method kept for a name is the first one of that name. -/
theorem find?_firstOfEachName (ms : List MethodDecl) (name : String) :
    (firstOfEachName ms).find? (·.name = name) = ms.find? (·.name = name) := by
  induction ms with
  | nil => rfl
  | cons a ms ih =>
    by_cases h : a.name = name
    · simp [firstOfEachName, h]
    · rw [firstOfEachName, List.find?_cons_of_neg (by simpa using h),
        List.find?_cons_of_neg (by simpa using h), List.find?_filter, ← ih]
      congr 1
      funext m
      by_cases hm : m.name = name <;> simp [hm, Ne.symm h]

/-- Every method visible on `name`, its own ones first. -/
def visibleMethods (c : Codebase) (name : String) : List MethodDecl :=
  firstOfEachName ((c.lineage name).flatMap c.ownMethods)

/-- The class called `name` as a client sees it. -/
def view (c : Codebase) (name : String) : Except SourceError ClassView :=
  match c.find? name with
  | none => .error (.unknownClass name)
  | some d => .ok
    { name := d.name, kind := d.kind, parent := d.parent, interfaces := d.interfaces
      docComment := d.docComment, methods := c.visibleMethods name }

end ClassSurface.Codebase
