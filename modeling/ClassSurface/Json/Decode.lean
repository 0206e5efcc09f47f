import ClassSurface.Json.Basic

/-! # Json.Decode — reading values out of trees

A `Decoder` reads a value out of a tree, given how many levels of arrays and objects may still be
entered. Every array or object that is looked into costs one level; one that is passed over costs
none.

A record is written as an object or, in the order of its fields, as an array. In an object a known
field must not be repeated, other members are passed over; an array must not be longer than the list
of fields. `fields` brings both forms to one list with a value, or none, for each field.
-/

namespace ClassSurface.Json

/-- How many arrays and objects may be nested in a decoded text. -/
def maxNesting : Nat := 127

abbrev Decoder (α : Type) := Nat → Json → Option α

def decodeString : Decoder String
  | _, .string s => s
  | _, _ => none

def decodeBool : Decoder Bool
  | _, .bool b => some b
  | _, _ => none

/-- A value, or nothing where the text says `null`. -/
def decodeOptional {α : Type} (item : Decoder α) : Decoder (Option α)
  | _, .null => some none
  | room, json => (item room json).map some

def decodeList {α : Type} (item : Decoder α) : Decoder (List α)
  | room + 1, .array items => items.mapM (item room)
  | _, _ => none

/-- The members of an object, in the order in which they are written. -/
def decodeMap {α : Type} (item : Decoder α) : Decoder (List (String × α))
  | room + 1, .object members => members.mapM fun (name, json) => do
    let name ← name
    let value ← item room json
    some (name, value)
  | _, _ => none

/-- A word out of a list, written as a string or as the one name of an object that says `null` for
it. -/
def decodeWord {α : Type} (choices : List (String × α)) : Decoder α
  | _, .string s => s.bind fun s => List.lookup s choices
  | _ + 1, .object [(name, .null)] => name.bind fun s => List.lookup s choices
  | _, _ => none

/-! ### Records -/

/-- The value of the only member called `name`; the outer option is empty if the name is repeated.
-/
def soleMember (members : List (String × Json)) (name : String) : Option (Option Json) :=
  match members.filter (·.1 = name) with
  | [] => some none
  | [(_, json)] => some (some json)
  | _ => none

/-- What a record gives for each of its fields; an array gives at least the first `least`. -/
def fields (names : List String) (least : Nat) : Json → Option (List (Option Json))
  | .object members => do
    let members ← members.mapM fun (name, json) => name.map (·, json)
    names.mapM (soleMember members)
  | .array items =>
    if least ≤ items.length ∧ items.length ≤ names.length then
      some (items.map some ++ List.replicate (names.length - items.length) none)
    else none
  | _ => none

/-- Reads a record; `build` puts it together from its fields, one level further in. -/
def decodeRecord {α : Type} (names : List String) (least : Nat)
    (build : Nat → List (Option Json) → Option α) : Decoder α
  | room + 1, json => (fields names least json).bind (build room)
  | 0, _ => none

/-- A field that must be there. -/
def required {α : Type} (item : Decoder α) (room : Nat) (field : Option Json) : Option α :=
  field.bind (item room)

/-- A field that may be left out. -/
def orElse {α : Type} (item : Decoder α) (fallback : α) (room : Nat) (field : Option Json) :
    Option α :=
  match field with
  | none => some fallback
  | some json => item room json

end ClassSurface.Json
