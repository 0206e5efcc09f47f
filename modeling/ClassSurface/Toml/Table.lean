import ClassSurface.Toml.Basic

/-! # Toml.Table — making entries

Entries are made under a path of keys. A step of a dotted key may pass through tables that came
about on the way to something else, never through one with a header of its own; a step of a header
may pass through any table that is not complete, and through the last of several tables in double
brackets. Steps that lead nowhere make a table.

A name is given a value once. A table that was only implied may be given its header later.
-/

namespace ClassSurface.Toml

/-- What a path is a part of. -/
inductive Path where
  | key
  | header
  deriving DecidableEq, Repr

/-- The value of a name. -/
def Entries.get? (t : Entries) (name : String) : Option Value := List.lookup name t

/-- Gives a name its value, in its old place if it has one. -/
def Entries.set : Entries → String → Value → Entries
  | [], name, value => [(name, value)]
  | (n, v) :: t, name, value =>
    if n = name then (n, value) :: t else (n, v) :: Entries.set t name value

theorem Entries.get?_set (t : Entries) (name other : String) (value : Value) :
    (t.set name value).get? other = if other = name then some value else t.get? other := by
  induction t with
  | nil =>
    by_cases h : other = name
    · simp [Entries.set, Entries.get?, h]
    · simp [Entries.set, Entries.get?, List.lookup_cons, h, beq_false_of_ne h]
  | cons e t ih =>
    obtain ⟨n, v⟩ := e
    simp only [Entries.get?] at ih
    by_cases hn : n = name
    · by_cases h : other = name
      · simp [Entries.set, Entries.get?, hn, h]
      · simp [Entries.set, Entries.get?, List.lookup_cons, hn, h, beq_false_of_ne h]
    · by_cases h : other = n
      · subst h
        simp [Entries.set, Entries.get?, hn]
      · simp [Entries.set, Entries.get?, List.lookup_cons, hn, beq_false_of_ne h, ih]

/-- Changes the last of several tables. -/
def changeLast (f : Entries → Option Entries) : List Entries → Option (List Entries)
  | [] => none
  | [t] => (f t).map ([·])
  | t :: ts => (changeLast f ts).map (t :: ·)

/-- A table that a step makes. -/
def Path.origin : Path → Origin
  | key => .dotted
  | header => .implied

def Path.mayPass : Path → Origin → Bool
  | key, origin => origin == .implied || origin == .dotted
  | header, origin => origin != .inline

/-- Changes the table at the end of a path; `f` is told how that table came about. -/
def descend (path : Path) (f : Origin → Entries → Option Entries) :
    List String → Origin → Entries → Option Entries
  | [], origin, t => f origin t
  | name :: names, _, t =>
    match t.get? name with
    | none =>
      (descend path f names path.origin []).map fun sub => t.set name (.table path.origin sub)
    | some (.table origin sub) =>
      if path.mayPass origin then
        (descend path f names origin sub).map fun sub => t.set name (.table origin sub)
      else none
    | some (.tables subs) =>
      (changeLast (descend path f names .header) subs).map fun subs => t.set name (.tables subs)
    | some _ => none

/-- Gives a new name its value. -/
def Entries.insert? (t : Entries) (name : String) (value : Value) : Option Entries :=
  if (t.get? name).isSome then none else some (t.set name value)

/-- Makes an entry under a dotted key. Its table, unless it is the one at hand, must be made of
dotted keys. -/
def insertAt (t : Entries) (path : List String) (name : String) (value : Value) : Option Entries :=
  descend .key
    (fun origin sub => if path ≠ [] ∧ origin ≠ .dotted then none else sub.insert? name value)
    path .header t

/-- A new table under a header. -/
def openTable (root : Entries) (path : List String) (name : String)
    (body : Entries → Option Entries) : Option Entries :=
  descend .header
    (fun _ t =>
      match t.get? name with
      | none => (body []).map fun sub => t.set name (.table .header sub)
      | some (.table .implied sub) => (body sub).map fun sub => t.set name (.table .header sub)
      | some _ => none)
    path .header root

/-- One more table under a header in double brackets. -/
def appendTable (root : Entries) (path : List String) (name : String)
    (body : Entries → Option Entries) : Option Entries :=
  descend .header
    (fun _ t =>
      match t.get? name with
      | none => (body []).map fun sub => t.set name (.tables [sub])
      | some (.tables subs) => (body []).map fun sub => t.set name (.tables (subs ++ [sub]))
      | some _ => none)
    path .header root

end ClassSurface.Toml
