import ClassSurface.Proofs.Codebase.Variants
import ClassSurface.Proofs.Json.Reading
import Mathlib.Data.List.Nodup
import Mathlib.Data.List.Perm.Basic

/-! # Proofs.Codebase.Written — declarations in their JSON form

`Shows` relates declarations to the trees of their natural shape: every field is present, an absent
text is `null`, and an object default names its class. Members may come in any order; a
floating-point default has no such shape.

* `IsRecord.decodeRecord_eq`: what a record gives for its fields does not depend on their order.
* `DefaultValue.Shows.finds` and its like for parameters, methods and classes: a tree that shows a
  declaration is decoded as this declaration.
* `declarations_survive_json`: so is every text of such a tree.
-/

namespace ClassSurface

namespace Json

/-! ### Nesting -/

mutual

/-- How deep arrays and objects are nested. -/
def nesting : Json → Nat
  | .array items => nestingOfItems items + 1
  | .object members => nestingOfMembers members + 1
  | _ => 0

def nestingOfItems : List Json → Nat
  | [] => 0
  | item :: more => max item.nesting (nestingOfItems more)

def nestingOfMembers : List (Option String × Json) → Nat
  | [] => 0
  | (_, item) :: more => max item.nesting (nestingOfMembers more)

end

variable {room : Nat} {j : Json}

theorem nestingOfItems_le {items : List Json} :
    nestingOfItems items ≤ room ↔ ∀ item ∈ items, item.nesting ≤ room := by
  induction items with
  | nil => simp [nestingOfItems]
  | cons item items ih => rw [nestingOfItems, Nat.max_le, ih, List.forall_mem_cons]

theorem nestingOfMembers_le {members : List (Option String × Json)} :
    nestingOfMembers members ≤ room ↔ ∀ member ∈ members, member.2.nesting ≤ room := by
  induction members with
  | nil => simp [nestingOfMembers]
  | cons member members ih => rw [nestingOfMembers, Nat.max_le, ih, List.forall_mem_cons]

/-- The items of an array fit in where one level less is left. -/
theorem nesting_array_le {items : List Json} (h : (Json.array items).nesting ≤ room) :
    ∃ inner, room = inner + 1 ∧ ∀ item ∈ items, item.nesting ≤ inner := by
  rw [nesting] at h
  refine ⟨room - 1, by omega, nestingOfItems_le.mp (by omega)⟩

/-! ### Records -/

/-- An object with these members, in any order. -/
def IsRecord (fields : List (String × Json)) (j : Json) : Prop :=
  ∃ members : List (String × Json), members.Perm fields ∧ j = record members

/-- Where no name is repeated, a name leads to one member. -/
theorem filter_name_eq {fs : List (String × Json)} (hnd : (fs.map (·.1)).Nodup)
    {field : String × Json} (h : field ∈ fs) : fs.filter (·.1 = field.1) = [field] := by
  induction fs with
  | nil => exact absurd h List.not_mem_nil
  | cons first fs ih =>
    rw [List.map_cons, List.nodup_cons] at hnd
    rcases List.mem_cons.mp h with rfl | h
    · have hnone : fs.filter (·.1 = field.1) = [] := by
        rw [List.filter_eq_nil_iff]
        intro other hother heq
        exact hnd.1 (List.mem_map.mpr ⟨other, hother, by simpa using heq⟩)
      rw [List.filter_cons_of_pos (by simp), hnone]
    · have hne : first.1 ≠ field.1 := fun heq => hnd.1 (List.mem_map.mpr ⟨field, h, heq.symm⟩)
      rw [List.filter_cons_of_neg (by simpa using hne), ih hnd.2 h]

theorem IsRecord.fields_eq {fs : List (String × Json)} (h : IsRecord fs j)
    (hnd : (fs.map (·.1)).Nodup) (least : Nat) :
    fields (fs.map (·.1)) least j = some (fs.map fun field => some field.2) := by
  obtain ⟨members, hperm, rfl⟩ := h
  have hsole : (fs.map (·.1)).mapM (soleMember members) =
      some (fs.map fun field => some field.2) := by
    apply mapM_of_forall₂
    rw [List.forall₂_map_right_iff, List.forall₂_map_left_iff, List.forall₂_same]
    intro field hfield
    have hfilter : members.filter (·.1 = field.1) = [field] := by
      rw [← List.perm_singleton, ← filter_name_eq hnd hfield]
      exact hperm.filter _
    rw [soleMember, hfilter]
  rw [fields_record, hsole]

/-- A record is built from its fields, whatever their order, and these fit in one level deeper. -/
theorem IsRecord.decodeRecord_eq {fs : List (String × Json)} (h : IsRecord fs j)
    (names : List String) (hnames : fs.map (·.1) = names) (hnd : names.Nodup)
    (hroom : j.nesting ≤ room) :
    ∃ inner, (∀ field ∈ fs, field.2.nesting ≤ inner) ∧
      ∀ {α : Type} (least : Nat) (build : Nat → List (Option Json) → Option α),
        decodeRecord names least build room j =
          build inner (fs.map fun field => some field.2) := by
  subst hnames
  have hfields := h.fields_eq hnd
  obtain ⟨members, hperm, rfl⟩ := h
  rw [record, nesting] at hroom
  obtain ⟨inner, rfl⟩ : ∃ inner, room = inner + 1 := ⟨room - 1, by omega⟩
  refine ⟨inner, fun field hfield => ?_, fun least build => ?_⟩
  · have hle := nestingOfMembers_le.mp (Nat.le_of_succ_le_succ hroom)
    exact hle (some field.1, field.2)
      (List.mem_map.mpr ⟨field, hperm.mem_iff.mpr hfield, rfl⟩)
  · rw [decodeRecord, hfields least]
    rfl

/-! ### What decoders find -/

/-- The decoder finds `x` in a tree, wherever there is room for the tree. -/
def Finds {α : Type} (item : Decoder α) (x : α) (j : Json) : Prop :=
  ∀ room, j.nesting ≤ room → item room j = some x

/-- The tree of a text that may be absent. -/
def textOrNull : Option String → Json
  | none => .null
  | some s => .string (some s)

@[simp] theorem decodeString_string (room : Nat) (s : String) :
    decodeString room (.string (some s)) = some s := rfl

@[simp] theorem decodeBool_bool (room : Nat) (b : Bool) : decodeBool room (.bool b) = some b := rfl

@[simp] theorem decodeOptional_textOrNull (room : Nat) (s : Option String) :
    decodeOptional decodeString room (textOrNull s) = some s := by
  cases s <;> rfl

theorem Finds.list {α : Type} {item : Decoder α} {xs : List α} {items : List Json}
    (h : List.Forall₂ (Finds item) xs items) : Finds (decodeList item) xs (.array items) := by
  intro room hroom
  obtain ⟨inner, rfl, hitems⟩ := nesting_array_le hroom
  clear hroom
  rw [decodeList]
  apply mapM_of_forall₂
  induction h with
  | nil => exact .nil
  | cons hx _ ih =>
    obtain ⟨hfirst, hmore⟩ := List.forall_mem_cons.mp hitems
    exact .cons (hx inner hfirst) (ih hmore)

theorem finds_strings (ss : List String) :
    Finds (decodeList decodeString) ss (.array (ss.map fun s => .string (some s))) := by
  apply Finds.list
  rw [List.forall₂_map_right_iff, List.forall₂_same]
  exact fun s _ room _ => decodeString_string room s

/-- The numeral of an integer. -/
def Numeral.ofInt (n : Int) : Numeral := { negative := n < 0, whole := Nat.toDigits 10 n.natAbs }

theorem digitsValue_toDigits (n : Nat) : Text.digitsValue (Nat.toDigits 10 n) = n := by
  have hvalue : Nat.ofDigitChars 10 (Nat.toDigits 10 n) 0 = n := Nat.ofDigitChars_ten_toDigits
  rw [Nat.ofDigitChars_eq_foldl] at hvalue
  simpa [Text.digitsValue, Text.digitValue, Nat.mul_comm] using hvalue

/-- The numeral of a signed word is read as this word. -/
theorem number?_ofInt (word : Int64) :
    (Numeral.ofInt word.toInt).number? = some (.integer word.toInt) := by
  have hlow : -2 ^ 63 ≤ word.toInt := word.le_toInt
  have hhigh : word.toInt < 2 ^ 63 := word.toInt_lt
  generalize word.toInt = n at hlow hhigh ⊢
  have hword : wordLimit = 2 ^ 64 := by decide
  have hwhole : (Numeral.ofInt n).isWhole = true := rfl
  have hmagnitude : Text.digitsValue (Numeral.ofInt n).whole = n.natAbs := digitsValue_toDigits _
  unfold Numeral.number?
  simp only [hwhole, hmagnitude, Bool.true_and]
  by_cases hneg : n < 0
  · have hsign : (Numeral.ofInt n).negative = true := decide_eq_true hneg
    have hbound : 0 < n.natAbs ∧ n.natAbs ≤ 1 <<< 63 := by
      rw [Nat.one_shiftLeft]
      omega
    rw [hsign, if_neg (by simp), decide_eq_true hbound.1, decide_eq_true hbound.2,
      if_pos (by decide)]
    congr 2
    omega
  · have hsign : (Numeral.ofInt n).negative = false := decide_eq_false hneg
    have hbound : n.natAbs < wordLimit := by
      rw [hword]
      omega
    rw [hsign, decide_eq_true hbound, if_pos (by decide)]
    congr 2
    omega

end Json

/-! ### Default values -/

namespace DefaultValue

/-- The value is a floating-point number, or holds one at any depth. -/
inductive HasFloat : DefaultValue → Prop where
  | here (x : Float64) : HasFloat (.float x)
  | inside {items : List DefaultValue} {item : DefaultValue} (mem : item ∈ items)
      (float : HasFloat item) : HasFloat (.array items)

/-- The natural shape of a value. -/
inductive Shows : DefaultValue → Json → Prop where
  | null : Shows .null .null
  | bool (b : Bool) : Shows (.bool b) (.bool b)
  | int (n : Int64) : Shows (.int n) (.number (.ofInt n.toInt))
  | string (s : String) : Shows (.string s) (.string (some s))
  | nil : Shows (.array []) (.array [])
  | cons {item : DefaultValue} {items : List DefaultValue} {j : Json} {js : List Json}
      (first : Shows item j) (others : Shows (.array items) (.array js)) :
      Shows (.array (item :: items)) (.array (j :: js))
  | object (className : String) :
      Shows (.object className) (.object [(some "class_name", .string (some className))])

open Json

theorem finds_int (n : Int64) : Finds decodeDefault (.int n) (.number (.ofInt n.toInt)) := by
  intro room _
  have hhigh : n.toInt < 2 ^ 63 := n.toInt_lt
  rw [decodeDefault_number, number?_ofInt, Option.map_some, ofNumber, if_pos (by simpa using hhigh),
    Int64.ofInt_toInt]

/-- A value is found in its natural shape. -/
theorem Shows.finds {value : DefaultValue} {j : Json} (h : value.Shows j) :
    Finds decodeDefault value j := by
  induction h with
  | null =>
    intro room _
    exact decodeDefault_null
  | bool b =>
    intro room _
    exact decodeDefault_bool b
  | int n => exact finds_int n
  | string s =>
    intro room _
    rw [decodeDefault_string, Option.map_some]
  | nil =>
    intro room hroom
    obtain ⟨inner, rfl, -⟩ := nesting_array_le hroom
    rfl
  | @cons item items j js _ _ ihfirst ihothers =>
    intro room hroom
    obtain ⟨inner, rfl, hitems⟩ := nesting_array_le hroom
    obtain ⟨hfirst, hmore⟩ := List.forall_mem_cons.mp hitems
    have hothers := ihothers (inner + 1)
      (by rw [nesting]; exact Nat.succ_le_succ (nestingOfItems_le.mpr hmore))
    rw [decodeDefault_array, Option.map_eq_some_iff] at hothers
    obtain ⟨values, hvalues, heq⟩ := hothers
    cases heq
    rw [decodeDefault_array, List.mapM_cons, ihfirst inner hfirst, hvalues]
    rfl
  | object className =>
    intro room hroom
    rw [nesting] at hroom
    obtain ⟨inner, rfl⟩ : ∃ inner, room = inner + 1 := ⟨room - 1, by omega⟩
    simp [decodeDefault_object, isSound]

end DefaultValue

/-! ### Parameters, methods and classes -/

open Json

/-- The word for a kind of class. -/
def Kind.word : Kind → String
  | plain => "class"
  | abstractClass => "abstract"
  | interface => "interface"
  | trait => "trait"

@[simp] theorem decodeKind_word (room : Nat) (kind : Kind) :
    decodeKind room (.string (some kind.word)) = some kind := by
  cases kind <;> rfl

@[simp] theorem decodeVisibility_text (room : Nat) (visibility : Visibility) :
    decodeVisibility room (.string (some visibility.text)) = some visibility := by
  cases visibility <;> rfl

/-- The members of the object for a parameter, given the tree of its default value. -/
def ParameterDecl.members (p : ParameterDecl) (default : Json) : List (String × Json) :=
  [("name", .string (some p.name)), ("type_hint", textOrNull p.typeHint),
    ("is_optional", .bool p.isOptional), ("is_variadic", .bool p.isVariadic),
    ("by_reference", .bool p.byReference), ("default", default)]

def ParameterDecl.Shows (p : ParameterDecl) (j : Json) : Prop :=
  ∃ default, p.default.Shows default ∧ IsRecord (p.members default) j

/-- The members of the object for a method, given the trees of its parameters. -/
def MethodDecl.members (m : MethodDecl) (parameters : List Json) : List (String × Json) :=
  [("name", .string (some m.name)), ("declaring_class", .string (some m.declaringClass)),
    ("visibility", .string (some m.visibility.text)), ("is_static", .bool m.isStatic),
    ("is_abstract", .bool m.isAbstract), ("return_type", textOrNull m.returnType),
    ("doc_comment", textOrNull m.docComment), ("parameters", .array parameters)]

def MethodDecl.Shows (m : MethodDecl) (j : Json) : Prop :=
  ∃ parameters, List.Forall₂ ParameterDecl.Shows m.parameters parameters ∧
    IsRecord (m.members parameters) j

/-- The members of the object for a class, given the trees of its methods. -/
def ClassDecl.members (d : ClassDecl) (methods : List Json) : List (String × Json) :=
  [("name", .string (some d.name)), ("kind", .string (some d.kind.word)),
    ("parent", textOrNull d.parent),
    ("interfaces", .array (d.interfaces.map fun name => .string (some name))),
    ("doc_comment", textOrNull d.docComment), ("methods", .array methods)]

def ClassDecl.Shows (d : ClassDecl) (j : Json) : Prop :=
  ∃ methods, List.Forall₂ MethodDecl.Shows d.methods methods ∧ IsRecord (d.members methods) j

/-- The tree lists declarations one after the other. -/
def ShowsClasses (ds : List ClassDecl) (j : Json) : Prop :=
  ∃ classes, List.Forall₂ ClassDecl.Shows ds classes ∧ IsRecord [("classes", .array classes)] j

theorem ParameterDecl.Shows.finds {p : ParameterDecl} {j : Json} (h : p.Shows j) :
    Finds decodeParameter p j := by
  obtain ⟨default, hdefault, hrecord⟩ := h
  intro room hroom
  obtain ⟨inner, hfields, hdecode⟩ := hrecord.decodeRecord_eq parameterFields rfl (by decide)
    hroom
  have hfound := hdefault.finds inner (hfields ("default", default) (by simp [members]))
  rw [decodeParameter, hdecode]
  simp [members, required, orElse, hfound]

theorem MethodDecl.Shows.finds {m : MethodDecl} {j : Json} (h : m.Shows j) :
    Finds decodeMethod m j := by
  obtain ⟨parameters, hparameters, hrecord⟩ := h
  intro room hroom
  obtain ⟨inner, hfields, hdecode⟩ := hrecord.decodeRecord_eq methodFields rfl (by decide)
    hroom
  have hfound := Finds.list (hparameters.imp fun _ _ hp => hp.finds) inner
    (hfields ("parameters", .array parameters) (by simp [members]))
  rw [decodeMethod, hdecode]
  simp [members, required, orElse, hfound]

theorem ClassDecl.Shows.finds {d : ClassDecl} {j : Json} (h : d.Shows j) :
    Finds decodeDeclaration d j := by
  obtain ⟨methods, hmethods, hrecord⟩ := h
  intro room hroom
  obtain ⟨inner, hfields, hdecode⟩ := hrecord.decodeRecord_eq classFields rfl (by decide)
    hroom
  have hfound := Finds.list (hmethods.imp fun _ _ hm => hm.finds) inner
    (hfields ("methods", .array methods) (by simp [members]))
  have hinterfaces := finds_strings d.interfaces inner
    (hfields ("interfaces", .array (d.interfaces.map fun name => .string (some name)))
      (by simp [members]))
  rw [decodeDeclaration, hdecode]
  simp [members, required, orElse, hfound, hinterfaces]

theorem ShowsClasses.finds {ds : List ClassDecl} {j : Json} (h : ShowsClasses ds j) :
    Finds decodeDeclarations ds j := by
  obtain ⟨classes, hclasses, hrecord⟩ := h
  intro room hroom
  obtain ⟨inner, hfields, hdecode⟩ := hrecord.decodeRecord_eq ["classes"] rfl (by decide)
    hroom
  have hfound := Finds.list (hclasses.imp fun _ _ hd => hd.finds) inner
    (hfields ("classes", .array classes) (by simp))
  rw [decodeDeclarations, hdecode]
  exact hfound

/-! ### Every declaration has a text -/

/-- The digits of a number from one on do not start with a zero. -/
theorem exists_toDigits {n : Nat} (h : 0 < n) :
    ∃ d more, Nat.toDigits 10 n = d :: more ∧ d ≠ '0' := by
  induction n using Nat.strongRecOn with
  | _ n ih =>
    by_cases hlt : n < 10
    · refine ⟨n.digitChar, [], Nat.toDigits_of_lt_base hlt, ?_⟩
      rw [Ne, Nat.digitChar_eq_zero]
      omega
    · obtain ⟨d, more, heq, hd⟩ := ih (n / 10) (by omega) (by omega)
      refine ⟨d, more ++ [(n % 10).digitChar], ?_, hd⟩
      rw [Nat.toDigits_of_base_le (by decide) (by omega), heq, List.cons_append]

theorem isWhole_toDigits (n : Nat) : IsWhole (Nat.toDigits 10 n) := by
  rcases Nat.eq_zero_or_pos n with rfl | hpos
  · exact .inl (Nat.toDigits_zero 10)
  · obtain ⟨d, more, heq, hd⟩ := exists_toDigits hpos
    refine .inr ⟨by simp [heq], by simpa [heq] using hd, List.all_eq_true.mpr fun c hc => ?_⟩
    exact Nat.isDigit_of_mem_toDigits (by decide) (by decide) hc

theorem writable_scalar {j : Json} {token : Token} (h : tokenList j = [token])
    (htoken : token.Writable) : j.Writable := by
  rw [Writable, h, List.forall_mem_singleton]
  exact htoken

theorem writable_string (s : String) : (Json.string (some s)).Writable := writable_scalar rfl rfl

theorem writable_bool (b : Bool) : (Json.bool b).Writable := writable_scalar rfl trivial

theorem writable_textOrNull (s : Option String) : (textOrNull s).Writable := by
  cases s with
  | none => exact writable_scalar rfl trivial
  | some s => exact writable_string s

theorem writable_int (n : Int) : (Json.number (.ofInt n)).Writable :=
  writable_scalar rfl ⟨isWhole_toDigits _, rfl, rfl⟩

/-- A record can be written if its fields can. -/
theorem exists_isRecord {fs : List (String × Json)} (h : ∀ field ∈ fs, field.2.Writable) :
    ∃ j, IsRecord fs j ∧ j.Writable := by
  refine ⟨record fs, ⟨fs, .refl fs, rfl⟩, ?_⟩
  apply writable_object
  intro member hmember
  obtain ⟨field, hfield, rfl⟩ := List.mem_map.mp hmember
  exact ⟨rfl, h field hfield⟩

/-- What can be written one by one can be written in a row. -/
theorem exists_forall₂ {α : Type} {shows : α → Json → Prop} {xs : List α}
    (h : ∀ x ∈ xs, ∃ j, shows x j ∧ j.Writable) :
    ∃ js, List.Forall₂ shows xs js ∧ ∀ j ∈ js, j.Writable := by
  induction xs with
  | nil => exact ⟨[], .nil, by simp⟩
  | cons x xs ih =>
    obtain ⟨hx, hxs⟩ := List.forall_mem_cons.mp h
    obtain ⟨j, hshows, hj⟩ := hx
    obtain ⟨js, hothers, hjs⟩ := ih hxs
    exact ⟨j :: js, .cons hshows hothers, List.forall_mem_cons.mpr ⟨hj, hjs⟩⟩

mutual

theorem DefaultValue.exists_shows : ∀ value : DefaultValue, ¬ value.HasFloat →
    ∃ j, value.Shows j ∧ j.Writable
  | .null, _ => ⟨_, .null, writable_scalar rfl trivial⟩
  | .bool b, _ => ⟨_, .bool b, writable_bool b⟩
  | .int n, _ => ⟨_, .int n, writable_int _⟩
  | .float x, h => absurd (.here x) h
  | .string s, _ => ⟨_, .string s, writable_string s⟩
  | .array items, h => by
    obtain ⟨js, hshows, hjs⟩ := DefaultValue.exists_showsAll items
      fun item hitem hfloat => h (.inside hitem hfloat)
    exact ⟨.array js, hshows, writable_array hjs⟩
  | .object className, _ => by
    refine ⟨_, .object className, writable_object ?_⟩
    rw [List.forall_mem_singleton]
    exact ⟨rfl, writable_string className⟩

theorem DefaultValue.exists_showsAll : ∀ items : List DefaultValue,
    (∀ item ∈ items, ¬ item.HasFloat) →
      ∃ js : List Json, DefaultValue.Shows (.array items) (.array js) ∧ ∀ j ∈ js, j.Writable
  | [], _ => ⟨[], .nil, by simp⟩
  | item :: items, h => by
    obtain ⟨hitem, hitems⟩ := List.forall_mem_cons.mp h
    obtain ⟨j, hshows, hj⟩ := DefaultValue.exists_shows item hitem
    obtain ⟨js, hothers, hjs⟩ := DefaultValue.exists_showsAll items hitems
    exact ⟨j :: js, .cons hshows hothers, List.forall_mem_cons.mpr ⟨hj, hjs⟩⟩

end

theorem ParameterDecl.exists_shows {p : ParameterDecl} (h : ¬ p.default.HasFloat) :
    ∃ j, p.Shows j ∧ j.Writable := by
  obtain ⟨default, hdefault, hwritable⟩ := p.default.exists_shows h
  have hmembers : ∀ field ∈ p.members default, field.2.Writable := by
    simp [members, writable_string, writable_bool, writable_textOrNull, hwritable]
  obtain ⟨j, hrecord, hj⟩ := exists_isRecord hmembers
  exact ⟨j, ⟨default, hdefault, hrecord⟩, hj⟩

theorem MethodDecl.exists_shows {m : MethodDecl} (h : ∀ p ∈ m.parameters, ¬ p.default.HasFloat) :
    ∃ j, m.Shows j ∧ j.Writable := by
  obtain ⟨parameters, hparameters, hwritable⟩ :=
    exists_forall₂ fun p hp => ParameterDecl.exists_shows (h p hp)
  have hmembers : ∀ field ∈ m.members parameters, field.2.Writable := by
    simp [members, writable_string, writable_bool, writable_textOrNull, writable_array hwritable]
  obtain ⟨j, hrecord, hj⟩ := exists_isRecord hmembers
  exact ⟨j, ⟨parameters, hparameters, hrecord⟩, hj⟩

/-- No parameter of the class has a floating-point number for a default value, or within it. -/
def ClassDecl.Floatless (d : ClassDecl) : Prop :=
  ∀ m ∈ d.methods, ∀ p ∈ m.parameters, ¬ p.default.HasFloat

theorem ClassDecl.exists_shows {d : ClassDecl} (h : d.Floatless) : ∃ j, d.Shows j ∧ j.Writable := by
  obtain ⟨methods, hmethods, hwritable⟩ :=
    exists_forall₂ fun m hm => MethodDecl.exists_shows (h m hm)
  have hinterfaces : ∀ j ∈ d.interfaces.map fun name => Json.string (some name), j.Writable := by
    intro j hj
    obtain ⟨name, -, rfl⟩ := List.mem_map.mp hj
    exact writable_string name
  have hmembers : ∀ field ∈ d.members methods, field.2.Writable := by
    simp [members, writable_string, writable_textOrNull, writable_array hinterfaces,
      writable_array hwritable]
  obtain ⟨j, hrecord, hj⟩ := exists_isRecord hmembers
  exact ⟨j, ⟨methods, hmethods, hrecord⟩, hj⟩

theorem exists_showsClasses {ds : List ClassDecl} (h : ∀ d ∈ ds, d.Floatless) :
    ∃ j, ShowsClasses ds j ∧ j.Writable := by
  obtain ⟨classes, hclasses, hwritable⟩ :=
    exists_forall₂ fun d hd => ClassDecl.exists_shows (h d hd)
  have hmembers : ∀ field ∈ [("classes", Json.array classes)], field.2.Writable := by
    simp [writable_array hwritable]
  obtain ⟨j, hrecord, hj⟩ := exists_isRecord hmembers
  exact ⟨j, ⟨classes, hclasses, hrecord⟩, hj⟩

/-- **Declarations survive their JSON form**: declarations without floating-point defaults have a
text in natural shape. Every text of that shape that nests at most 127 deep, however its members are
ordered and its strings and spaces are written, is read as these declarations, and gives the
codebase that they make when they are inserted one by one. -/
theorem declarations_survive_json (ds : List ClassDecl) :
    ((∀ d ∈ ds, d.Floatless) → ∃ j text, ShowsClasses ds j ∧ j.Written text) ∧
      ∀ j text, ShowsClasses ds j → j.nesting ≤ 127 → j.Written text →
        decodeText decodeDeclarations text = .ok ds ∧
          Codebase.ofJson text = .ok (ds.foldl Codebase.insert Codebase.empty) := by
  constructor
  · intro h
    obtain ⟨j, hshows, hwritable⟩ := exists_showsClasses h
    exact ⟨j, j.render, hshows, written_render hwritable⟩
  · intro j text hshows hnesting hwritten
    have hdecode : decodeText decodeDeclarations text = .ok ds := by
      rw [decodeText, read?_of_written hwritten, Option.bind_some, hshows.finds maxNesting hnesting]
    refine ⟨hdecode, ?_⟩
    rw [Codebase.ofJson, hdecode]
    rfl

/-- Two declarations of one name; a default value has items of all other shapes. -/
def cabinet : List ClassDecl :=
  [{ name := "Box"
     parent := some "Tray"
     methods :=
      [{ name := "fill"
         visibility := .privateAccess
         parameters :=
          [{ name := "$what"
             default := .array [.null, .bool true, .int Int64.minValue, .string "\"\\\n€",
              .array [], .object "Lid"] }] }] },
    { name := "Tray", kind := .abstractClass, interfaces := ["Flat", "Open"] },
    { name := "Box", kind := .trait, docComment := some "" }]

/-- The tree of the cabinet; some of its records are written from the last field to the first. -/
def cabinetTree : Json :=
  let items : List Json := [.null, .bool true, .number (.ofInt (-9223372036854775808)),
    .string (some "\"\\\n€"), .array [], record [("class_name", .string (some "Lid"))]]
  let what : ParameterDecl := { name := "$what" }
  let fill : MethodDecl := { name := "fill", visibility := .privateAccess }
  let box : ClassDecl := { name := "Box", parent := some "Tray" }
  let tray : ClassDecl := { name := "Tray", kind := .abstractClass, interfaces := ["Flat", "Open"] }
  let again : ClassDecl := { name := "Box", kind := .trait, docComment := some "" }
  record [("classes", .array
    [record (box.members [record (fill.members [record (what.members (.array items)).reverse])]),
      record (tray.members []).reverse, record (again.members [])])]

/-- The cabinet is read back, the second declaration of its box in the place of the first. -/
theorem declarations_survive_json_cabinet : ∃ c, ShowsClasses cabinet cabinetTree ∧
    cabinetTree.nesting = 9 ∧ cabinetTree.Written cabinetTree.render ∧
    decodeText decodeDeclarations cabinetTree.render = .ok cabinet ∧
    Codebase.ofJson cabinetTree.render = .ok c ∧ c.names = ["Box", "Tray"] ∧
    (c.find? "Box").map (·.kind) = some .trait := by
  have hitems : DefaultValue.Shows _ _ :=
    .cons .null (.cons (.bool true) (.cons (.int Int64.minValue) (.cons (.string "\"\\\n€")
      (.cons .nil (.cons (.object "Lid") .nil)))))
  have hshows : ShowsClasses cabinet cabinetTree :=
    ⟨_, .cons ⟨_, .cons ⟨_, .cons ⟨_, hitems, _, List.reverse_perm _, rfl⟩ .nil, _, .refl _, rfl⟩
      .nil, _, .refl _, rfl⟩ (.cons ⟨_, .nil, _, List.reverse_perm _, rfl⟩
      (.cons ⟨_, .nil, _, .refl _, rfl⟩ .nil)), _, .refl _, rfl⟩
  have hnesting : cabinetTree.nesting = 9 := by decide +kernel
  have hwritten : cabinetTree.Written cabinetTree.render := written_render (by decide +kernel)
  obtain ⟨hdecode, hread⟩ := (declarations_survive_json cabinet).2 cabinetTree cabinetTree.render
    hshows (by omega) hwritten
  exact ⟨_, hshows, hnesting, hwritten, hdecode, hread, by decide +kernel, by decide +kernel⟩

end ClassSurface
