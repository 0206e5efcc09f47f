import ClassSurface.Decimal.Layout

/-! # Codebase.Declaration — classes as they are declared

The records here are plain structural facts, taken as given: nothing in them is worked out from
documentation.

* `ClassDecl` is a class-like declaration with only the methods it declares itself.
* `ClassView` is a class as a client sees it: with every method visible on it, own and inherited,
  each method naming the class that declares it.
-/

namespace ClassSurface

inductive Kind where
  | plain
  | abstractClass
  | interface
  | trait
  deriving DecidableEq, Repr, Inhabited

inductive Visibility where
  | publicAccess
  | protectedAccess
  | privateAccess
  deriving DecidableEq, Repr, Inhabited

def Visibility.text : Visibility → String
  | publicAccess => "public"
  | protectedAccess => "protected"
  | privateAccess => "private"

/-- The value that a parameter takes when a call leaves it out. -/
inductive DefaultValue where
  | null
  | bool (value : Bool)
  | int (value : Int64)
  | float (value : Float64)
  | string (value : String)
  | array (items : List DefaultValue)
  /-- An object, known by its class alone. -/
  | object (className : String)
  deriving Inhabited

/-- Of an array only its emptiness is shown. -/
def DefaultValue.text : DefaultValue → String
  | null => "null"
  | bool true => "true"
  | bool false => "false"
  | int n => toString n.toInt
  | float x => x.text .plain
  | string s => "\"" ++ s ++ "\""
  | array [] => "array()"
  | array (_ :: _) => "array(???)"
  | object className => className

structure ParameterDecl where
  name : String
  typeHint : Option String := none
  isOptional : Bool := false
  isVariadic : Bool := false
  byReference : Bool := false
  default : DefaultValue := .null
  deriving Inhabited

structure MethodDecl where
  name : String
  /-- The class that declares the method; empty as long as nobody has said. -/
  declaringClass : String := ""
  visibility : Visibility := .publicAccess
  isStatic : Bool := false
  isAbstract : Bool := false
  returnType : Option String := none
  docComment : Option String := none
  parameters : List ParameterDecl := []
  deriving Inhabited

/-- The method that makes instances of a class. -/
def MethodDecl.isConstructor (m : MethodDecl) : Bool := m.name == "__construct"

structure ClassDecl where
  name : String
  kind : Kind := .plain
  parent : Option String := none
  /-- The interfaces implemented or extended directly, in the order in which they are named. -/
  interfaces : List String := []
  docComment : Option String := none
  methods : List MethodDecl := []
  deriving Inhabited

structure ClassView where
  name : String
  kind : Kind
  parent : Option String
  interfaces : List String
  docComment : Option String
  methods : List MethodDecl
  deriving Inhabited

/-- The classes that a declaration refers to: its parent, then its interfaces. -/
def ClassDecl.ancestors (d : ClassDecl) : List String := d.parent.toList ++ d.interfaces

/-- The classes that a view refers to: its parent, then its interfaces. -/
def ClassView.ancestors (v : ClassView) : List String := v.parent.toList ++ v.interfaces

def ClassView.isInterface (v : ClassView) : Bool := v.kind == .interface

/-! ### Building declarations step by step -/

namespace ParameterDecl

def typed (p : ParameterDecl) (typeHint : String) : ParameterDecl :=
  { p with typeHint := some typeHint }

def optional (p : ParameterDecl) (value : DefaultValue) : ParameterDecl :=
  { p with isOptional := true, default := value }

/-- A variadic parameter may always be left out. -/
def variadic (p : ParameterDecl) : ParameterDecl :=
  { p with isOptional := true, isVariadic := true }

def referenced (p : ParameterDecl) : ParameterDecl := { p with byReference := true }

end ParameterDecl

namespace MethodDecl

def returning (m : MethodDecl) (typeHint : String) : MethodDecl :=
  { m with returnType := some typeHint }

def documented (m : MethodDecl) (doc : String) : MethodDecl := { m with docComment := some doc }

def taking (m : MethodDecl) (p : ParameterDecl) : MethodDecl :=
  { m with parameters := m.parameters ++ [p] }

end MethodDecl

namespace ClassDecl

def extending (d : ClassDecl) (name : String) : ClassDecl := { d with parent := some name }

def implementing (d : ClassDecl) (name : String) : ClassDecl :=
  { d with interfaces := d.interfaces ++ [name] }

def documented (d : ClassDecl) (doc : String) : ClassDecl := { d with docComment := some doc }

def declaring (d : ClassDecl) (m : MethodDecl) : ClassDecl := { d with methods := d.methods ++ [m] }

end ClassDecl

end ClassSurface
