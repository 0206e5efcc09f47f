import ClassSurface.Codebase.Source
import ClassSurface.Json.Decode
import ClassSurface.Json.Number
import ClassSurface.Json.Reader

/-! # Codebase.Decode — declarations in JSON

The JSON forms of declarations, views and default values. A default value is written in its natural
shape; an object stands for an instance of the class it names. No word says which variant of a
default value is meant: they are tried one after the other.
-/

namespace ClassSurface

open Json

/-- Refuses numbers out of range, strings that denote no text, and more levels than there is room
for. -/
def Json.isSound : Nat → Json → Bool
  | _, .number n => n.number?.isSome
  | _, .string s => s.isSome
  | room + 1, .array items => items.all (isSound room)
  | room + 1, .object members => members.all fun (name, json) => name.isSome && isSound room json
  | 0, .array _ => false
  | 0, .object _ => false
  | _, _ => true

/-! ### Default values

A default value is first read as any tree, and then taken for the first of its variants that the
tree can stand for, in the order of their declaration. -/

namespace DefaultValue

def asNull : Json → Option DefaultValue
  | .null => some .null
  | _ => none

def asBool : Json → Option DefaultValue
  | .bool b => some (.bool b)
  | _ => none

/-- An integer that fits a signed 64-bit word. -/
def asInt : Json → Option DefaultValue
  | .number n =>
    match n.number? with
    | some (.integer i) =>
      if -(1 <<< 63 : Nat) ≤ i ∧ i < (1 <<< 63 : Nat) then some (.int (Int64.ofInt i)) else none
    | _ => none
  | _ => none

/-- A number of any kind, integers included. -/
def asFloat : Json → Option DefaultValue
  | .number n =>
    match n.number? with
    | some (.integer i) => some (.float (.ofInt i))
    | some (.real x) => some (.float (.finite x))
    | none => none
  | _ => none

def asString : Json → Option DefaultValue
  | .string s => s.map .string
  | _ => none

/-- A record of one field. -/
def asObject (json : Json) : Option DefaultValue :=
  match fields ["class_name"] 1 json with
  | some [some (.string (some className))] => some (.object className)
  | _ => none

mutual

/-- The first variant that a tree can stand for. -/
def firstVariant (json : Json) : Option DefaultValue :=
  asNull json <|> asBool json <|> asInt json <|> asFloat json <|> asString json <|>
    (match json with
      | .array items => (firstVariants items).map .array
      | _ => none) <|>
    asObject json

def firstVariants : List Json → Option (List DefaultValue)
  | [] => some []
  | item :: items => do
    let value ← firstVariant item
    let values ← firstVariants items
    some (value :: values)

end

end DefaultValue

def decodeDefault : Decoder DefaultValue := fun room json =>
  if json.isSound room then DefaultValue.firstVariant json else none

/-! ### Declarations -/

def decodeKind : Decoder Kind :=
  decodeWord
    [("class", .plain), ("abstract", .abstractClass), ("interface", .interface), ("trait", .trait)]

def decodeVisibility : Decoder Visibility :=
  decodeWord
    [("public", .publicAccess), ("protected", .protectedAccess), ("private", .privateAccess)]

def parameterFields : List String :=
  ["name", "type_hint", "is_optional", "is_variadic", "by_reference", "default"]

def decodeParameter : Decoder ParameterDecl :=
  decodeRecord parameterFields 1 fun room fields =>
    match fields with
    | [name, typeHint, isOptional, isVariadic, byReference, default] => do
      some
        { name := ← required decodeString room name
          typeHint := ← orElse (decodeOptional decodeString) none room typeHint
          isOptional := ← orElse decodeBool false room isOptional
          isVariadic := ← orElse decodeBool false room isVariadic
          byReference := ← orElse decodeBool false room byReference
          default := ← orElse decodeDefault .null room default }
    | _ => none

def methodFields : List String :=
  ["name", "declaring_class", "visibility", "is_static", "is_abstract", "return_type",
    "doc_comment", "parameters"]

def decodeMethod : Decoder MethodDecl :=
  decodeRecord methodFields 1 fun room fields =>
    match fields with
    | [name, declaringClass, visibility, isStatic, isAbstract, returnType, docComment,
        parameters] => do
      some
        { name := ← required decodeString room name
          declaringClass := ← orElse decodeString "" room declaringClass
          visibility := ← orElse decodeVisibility .publicAccess room visibility
          isStatic := ← orElse decodeBool false room isStatic
          isAbstract := ← orElse decodeBool false room isAbstract
          returnType := ← orElse (decodeOptional decodeString) none room returnType
          docComment := ← orElse (decodeOptional decodeString) none room docComment
          parameters := ← orElse (decodeList decodeParameter) [] room parameters }
    | _ => none

/-- The fields of a declaration and of a view. -/
def classFields : List String := ["name", "kind", "parent", "interfaces", "doc_comment", "methods"]

def decodeDeclaration : Decoder ClassDecl :=
  decodeRecord classFields 1 fun room fields =>
    match fields with
    | [name, kind, parent, interfaces, docComment, methods] => do
      some
        { name := ← required decodeString room name
          kind := ← orElse decodeKind .plain room kind
          parent := ← orElse (decodeOptional decodeString) none room parent
          interfaces := ← orElse (decodeList decodeString) [] room interfaces
          docComment := ← orElse (decodeOptional decodeString) none room docComment
          methods := ← orElse (decodeList decodeMethod) [] room methods }
    | _ => none

/-- A view leaves nothing to a default, but the parent and the documentation of a class may be
absent from an object. -/
def decodeView : Decoder ClassView :=
  decodeRecord classFields 6 fun room fields =>
    match fields with
    | [name, kind, parent, interfaces, docComment, methods] => do
      some
        { name := ← required decodeString room name
          kind := ← required decodeKind room kind
          parent := ← orElse (decodeOptional decodeString) none room parent
          interfaces := ← required (decodeList decodeString) room interfaces
          docComment := ← orElse (decodeOptional decodeString) none room docComment
          methods := ← required (decodeList decodeMethod) room methods }
    | _ => none

def decodeDeclarations : Decoder (List ClassDecl) :=
  decodeRecord ["classes"] 1 fun room fields =>
    match fields with
    | [classes] => required (decodeList decodeDeclaration) room classes
    | _ => none

/-- Reads a JSON text with a decoder. -/
def decodeText {α : Type} (decoder : Decoder α) (text : String) : Except SourceError α :=
  match (Json.read? text).bind (decoder maxNesting) with
  | some value => .ok value
  | none => .error .undecodable

/-- The codebase that a text of the form `"classes": […]` lists, declared one after the other. -/
def Codebase.ofJson (text : String) : Except SourceError Codebase :=
  (decodeText decodeDeclarations text).map Codebase.ofList

/-- Reads an overlay; of several views for one name the last one counts. -/
def Overlay.ofJson (text : String) : Except SourceError Overlay :=
  (decodeText (decodeMap decodeView) text).map fun views => .ofList views

def Codebase.ofFile : File → Except SourceError Codebase := SourceError.onFile Codebase.ofJson

end ClassSurface
