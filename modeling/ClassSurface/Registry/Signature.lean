import ClassSurface.Codebase.Declaration

/-! # Registry.Signature — methods with documentation merged in

A signature is what a class offers under a method name once documentation and inheritance had their
say. Its text is

    <return type> <visibility> [static ][abstract ]<name>(<parameters>)

where each optional parameter opens a bracket, and all brackets are closed after the last parameter.
-/

namespace ClassSurface

/-- The position of a class in a registry. -/
abbrev ClassId := Nat

structure Parameter where
  /-- Empty when nothing types the parameter. -/
  typeHint : String
  name : String
  isOptional : Bool
  /-- The value of an optional parameter that is not variadic. -/
  default : Option DefaultValue
  byReference : Bool
  isVariadic : Bool
  deriving Inhabited

namespace Parameter

def ofDecl (p : ParameterDecl) : Parameter where
  typeHint := p.typeHint.getD ""
  name := p.name
  isOptional := p.isOptional
  default := if p.isOptional && !p.isVariadic then some p.default else none
  byReference := p.byReference
  isVariadic := p.isVariadic

/-- Documentation may retype and rename a parameter, and leaves alone what it does not mention. -/
def annotate (p : Parameter) (typeHint name : String) : Parameter :=
  { p with
    typeHint := if typeHint = "" then p.typeHint else typeHint
    name := if name = "" then p.name else name }

def text (p : Parameter) : String :=
  p.typeHint ++ " " ++ (if p.isVariadic then "..." else "") ++
    (if p.byReference then "&" else "") ++ "$" ++ p.name ++
    match p.default with
    | none => ""
    | some value => "=" ++ value.text

end Parameter

structure Signature where
  /-- The class that the signature was worked out for. -/
  owner : ClassId
  name : String
  /-- The class that declares the method. -/
  declaringClass : String
  visibility : Visibility
  isStatic : Bool
  isAbstract : Bool
  parameters : List Parameter
  returnType : String
  deriving Inhabited

namespace Signature

/-- The return type of a method that nothing gives one. -/
def unresolvedType : String := "???"

/-- The return type of constructors, and of methods documented to return the object itself. -/
def selfType : String := "self"

def openedText (p : Parameter) : String := (if p.isOptional then "[" else "") ++ p.text

def parameterList (ps : List Parameter) : String :=
  ", ".intercalate (ps.map openedText) ++
    String.ofList (List.replicate (ps.countP (·.isOptional)) ']')

/-- The signature as a line. The methods of an interface are abstract without saying so. -/
def text (inInterface : Bool) (s : Signature) : String :=
  s.returnType ++ " " ++ s.visibility.text ++ " " ++ (if s.isStatic then "static " else "") ++
    (if s.isAbstract && !inInterface then "abstract " else "") ++
    s.name ++ "(" ++ parameterList s.parameters ++ ")"

end Signature

end ClassSurface
