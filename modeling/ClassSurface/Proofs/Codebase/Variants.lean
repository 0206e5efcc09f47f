import ClassSurface.Codebase.Decode
import Mathlib.Data.List.Forall2

/-! # Proofs.Codebase.Variants — the variant of a default value is told by its shape

The variants of a default value are tried in order, and a tree may pass several trials: an integer
is a floating-point number as well, and an array of one text is a record of one field. What the
trials come to can be read off the shape of the tree (`decodeByShape`): an integer out of range is
all that is left to a later trial.

* `firstVariant_number`, `firstVariant_array`, `firstVariant_object`: the trials on one shape.
* `decodeDefault_eq_decodeByShape`: trying the variants is a match on the shape.
-/

namespace ClassSurface

namespace Json

/-- Items that are decoded one by one make a list. -/
theorem mapM_of_forall₂ {α β : Type} {f : α → Option β} {xs : List β} {items : List α}
    (h : List.Forall₂ (fun x item => f item = some x) xs items) : items.mapM f = some xs := by
  induction h with
  | nil => rfl
  | cons hx _ ih => rw [List.mapM_cons, hx, ih]; rfl

/-- The object with these members. -/
def record (members : List (String × Json)) : Json :=
  .object (members.map fun member => (some member.1, member.2))

theorem fields_record (names : List String) (least : Nat) (members : List (String × Json)) :
    fields names least (record members) = names.mapM (soleMember members) := by
  rw [record, fields, @mapM_of_forall₂ _ _ _ members _ ?_]
  · rfl
  · rw [List.forall₂_map_right_iff, List.forall₂_same]
    exact fun _ _ => rfl

end Json

open Json

namespace DefaultValue

/-- An integer that does not fit a signed 64-bit word is kept as a floating-point number. -/
def ofNumber : Json.Number → DefaultValue
  | .integer n => if n < (1 <<< 63 : Nat) then .int (Int64.ofInt n) else .float (.ofInt n)
  | .real x => .float (.finite x)

@[simp] theorem firstVariant_null : firstVariant .null = some .null := rfl

@[simp] theorem firstVariant_bool (b : Bool) : firstVariant (.bool b) = some (.bool b) := rfl

@[simp] theorem firstVariant_string (s : Option String) :
    firstVariant (.string s) = s.map .string := by
  cases s <;> rfl

/-! ### Numbers -/

/-- No numeral denotes an integer below the least signed 64-bit word. -/
theorem neg_le_of_number?_eq_integer {n : Numeral} {i : Int} (h : n.number? = some (.integer i)) :
    -(1 <<< 63 : Nat) ≤ i := by
  rw [Numeral.number?] at h
  split at h
  · obtain rfl := Json.Number.integer.inj (Option.some.inj h)
    omega
  · split at h
    · rename_i hrange
      simp only [Bool.and_eq_true, decide_eq_true_eq] at hrange
      obtain rfl := Json.Number.integer.inj (Option.some.inj h)
      omega
    · obtain ⟨x, -, hx⟩ := Option.map_eq_some_iff.mp h
      cases hx

/-- An integer out of range is left to the next trial, which takes any number. -/
theorem asInt_orElse_asFloat (n : Numeral) :
    (asInt (.number n) <|> asFloat (.number n)) = n.number?.map ofNumber := by
  rw [asInt, asFloat]
  cases hn : n.number? with
  | none => rfl
  | some number =>
    cases number with
    | real x => rfl
    | integer i =>
      have hlow := neg_le_of_number?_eq_integer hn
      by_cases hhigh : i < (1 <<< 63 : Nat)
      · simp only [if_pos (And.intro hlow hhigh), Option.map_some, ofNumber, if_pos hhigh]
        rfl
      · simp only [if_neg (fun h : _ ∧ i < (1 <<< 63 : Nat) => hhigh h.2), Option.map_some,
          ofNumber, if_neg hhigh]
        rfl

theorem firstVariant_number (n : Numeral) : firstVariant (.number n) = n.number?.map ofNumber := by
  rw [← asInt_orElse_asFloat]
  simp [firstVariant, asNull, asBool, asString, asObject, fields]

/-! ### Arrays and objects -/

theorem firstVariants_eq_mapM (items : List Json) :
    firstVariants items = items.mapM firstVariant := by
  induction items with
  | nil => rfl
  | cons item items ih => rw [firstVariants, List.mapM_cons, ih]; rfl

/-- An array is a record of one field if it holds one text and nothing else. -/
theorem eq_of_asObject_array {items : List Json} {value : DefaultValue}
    (h : asObject (.array items) = some value) :
    ∃ className, items = [.string (some className)] := by
  rw [asObject] at h
  split at h
  · rename_i className hfields
    rw [fields, Option.ite_none_right_eq_some] at hfields
    obtain ⟨hlen, hfields⟩ := hfields
    obtain ⟨item, rfl⟩ := List.length_eq_one_iff.mp (Nat.le_antisymm hlen.2 hlen.1)
    obtain rfl : item = .string (some className) := by simpa using hfields
    exact ⟨className, rfl⟩
  · cases h

/-- The trial as a record comes to nothing: an array of one text has passed as an array before. -/
theorem firstVariant_array (items : List Json) :
    firstVariant (.array items) = (items.mapM firstVariant).map .array := by
  have htrials : firstVariant (.array items) =
      ((items.mapM firstVariant).map .array <|> asObject (.array items)) := by
    rw [← firstVariants_eq_mapM]
    simp [firstVariant, asNull, asBool, asInt, asFloat, asString]
  rw [htrials]
  cases hrecord : asObject (.array items) with
  | none => cases (items.mapM firstVariant).map DefaultValue.array <;> rfl
  | some value =>
    obtain ⟨className, rfl⟩ := eq_of_asObject_array hrecord
    rfl

theorem firstVariant_object (members : List (Option String × Json)) :
    firstVariant (.object members) = asObject (.object members) := by
  simp [firstVariant, asNull, asBool, asInt, asFloat, asString]

/-- Members whose names are all texts. -/
theorem exists_named {members : List (Option String × Json)}
    (h : ∀ member ∈ members, member.1.isSome = true) :
    ∃ named : List (String × Json),
      members = named.map fun member => (some member.1, member.2) := by
  induction members with
  | nil => exact ⟨[], rfl⟩
  | cons member members ih =>
    obtain ⟨hname, hmembers⟩ := List.forall_mem_cons.mp h
    obtain ⟨named, rfl⟩ := ih hmembers
    obtain ⟨name, json⟩ := member
    obtain ⟨name, rfl⟩ := Option.isSome_iff_exists.mp hname
    exact ⟨(name, json) :: named, rfl⟩

theorem fields_class_name (named : List (String × Json)) :
    fields ["class_name"] 1 (record named) = (soleMember named "class_name").map ([·]) := by
  rw [fields_record, List.mapM_cons, List.mapM_nil]
  cases soleMember named "class_name" <;> rfl

/-- Where all names are texts, an object names its class in the one member of that name. -/
theorem asObject_object {members : List (Option String × Json)}
    (h : ∀ member ∈ members, member.1.isSome = true) :
    asObject (.object members) =
      match members.filter (·.1 = some "class_name") with
      | [(_, .string (some className))] => some (.object className)
      | _ => none := by
  obtain ⟨named, rfl⟩ := exists_named h
  have hfilter : (named.map fun member => (some member.1, member.2)).filter
      (·.1 = some "class_name") =
        (named.filter (·.1 = "class_name")).map fun member => (some member.1, member.2) := by
    rw [List.filter_map]
    simp [Function.comp_def]
  rw [asObject, ← record, fields_class_name, hfilter, soleMember]
  generalize List.filter _ named = found
  match found with
  | [] => rfl
  | [(_, json)] =>
    cases json with
    | string s => cases s <;> rfl
    | _ => rfl
  | _ :: _ :: _ => simp

end DefaultValue

/-! ### Decoding by shape -/

open DefaultValue

variable {room : Nat}

/-- Items are read under a condition if they are read and it holds of all of them. -/
theorem mapM_guarded {α β : Type} (p : α → Bool) (f : α → Option β) (l : List α) :
    l.mapM (fun a => if p a then f a else none) = if l.all p then l.mapM f else none := by
  induction l with
  | nil => rfl
  | cons a l ih =>
    rw [List.mapM_cons, List.mapM_cons, ih, List.all_cons]
    cases p a <;> cases l.all p <;> cases f a <;> rfl

@[simp] theorem decodeDefault_null : decodeDefault room .null = some .null := by
  cases room <;> rfl

@[simp] theorem decodeDefault_bool (b : Bool) : decodeDefault room (.bool b) = some (.bool b) := by
  cases room <;> rfl

theorem decodeDefault_number (n : Numeral) :
    decodeDefault room (.number n) = n.number?.map ofNumber := by
  rw [decodeDefault, firstVariant_number, isSound]
  cases n.number? <;> rfl

@[simp] theorem decodeDefault_string (s : Option String) :
    decodeDefault room (.string s) = s.map .string := by
  rw [decodeDefault, firstVariant_string, isSound]
  cases s <;> rfl

theorem decodeDefault_array (items : List Json) :
    decodeDefault (room + 1) (.array items) = (items.mapM (decodeDefault room)).map .array := by
  have hitems : items.mapM (decodeDefault room) =
      if items.all (isSound room) then items.mapM firstVariant else none :=
    mapM_guarded (isSound room) firstVariant items
  rw [decodeDefault, firstVariant_array, isSound, hitems]
  split <;> rfl

theorem decodeDefault_object (members : List (Option String × Json)) :
    decodeDefault (room + 1) (.object members) =
      if isSound (room + 1) (.object members) then
        match members.filter (·.1 = some "class_name") with
        | [(_, .string (some className))] => some (.object className)
        | _ => none
      else none := by
  rw [decodeDefault, firstVariant_object]
  split
  · rename_i hsound
    refine asObject_object fun member hmember => ?_
    rw [isSound, List.all_eq_true] at hsound
    exact (Bool.and_eq_true_iff.mp (hsound member hmember)).1
  · rfl

/-- Reads a default value by the shape of its tree. -/
def decodeByShape : Decoder DefaultValue
  | _, .null => some .null
  | _, .bool b => some (.bool b)
  | _, .number n => n.number?.map ofNumber
  | _, .string s => s.map .string
  | room + 1, .array items => (items.mapM (decodeByShape room)).map .array
  | room + 1, .object members =>
    if isSound (room + 1) (.object members) then
      match members.filter (·.1 = some "class_name") with
      | [(_, .string (some className))] => some (.object className)
      | _ => none
    else none
  | 0, .array _ => none
  | 0, .object _ => none

/-- **The variant is told by the shape**: to try the variants of a default value one after the other
is to match on the shape of its tree, at every depth. -/
theorem decodeDefault_eq_decodeByShape (room : Nat) (json : Json) :
    decodeDefault room json = decodeByShape room json := by
  induction room generalizing json with
  | zero =>
    cases json with
    | null => rw [decodeDefault_null, decodeByShape]
    | bool b => rw [decodeDefault_bool, decodeByShape]
    | number n => rw [decodeDefault_number, decodeByShape]
    | string s => rw [decodeDefault_string, decodeByShape]
    | array items => rfl
    | object members => rfl
  | succ room ih =>
    cases json with
    | null => rw [decodeDefault_null, decodeByShape]
    | bool b => rw [decodeDefault_bool, decodeByShape]
    | number n => rw [decodeDefault_number, decodeByShape]
    | string s => rw [decodeDefault_string, decodeByShape]
    | array items => rw [decodeDefault_array, decodeByShape, funext ih]
    | object members => rw [decodeDefault_object, decodeByShape]

end ClassSurface
