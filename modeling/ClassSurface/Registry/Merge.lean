import ClassSurface.Registry.Event
import ClassSurface.Registry.Signature

/-! # Registry.Merge — declarations and documentation brought together

The annotations of a method are merged into its declaration: the first `@param` into the first
parameter, the second into the second, and so on (`mergeParams`); names are not compared. The return
type is the last one that an `@return` gives, else `self` for a constructor, else the declared one,
else the inherited one, else unresolved (`mergeReturn`).
-/

namespace ClassSurface

/-- The annotations that a block contributes. No block and an unusable block contribute none. -/
def usableAnnotations (docs : DocReader) (doc : Option String) : List Annotation :=
  match doc.map docs with
  | some (.ok notes) => notes
  | _ => []

/-! ### Methods -/

/-- The annotated type of the object itself. -/
def thisType : String := "$this"

/-- The return type that an annotation gives. -/
def Annotation.returnType? : Annotation → Option String
  | .result typeHint =>
    if typeHint = "" then none
    else if typeHint = thisType then some Signature.selfType
    else some typeHint
  | _ => none

/-- The last return type given wins. -/
def annotatedReturn (notes : List Annotation) : Option String :=
  (notes.filterMap Annotation.returnType?).getLast?

def mergeReturn (notes : List Annotation) (m : MethodDecl) (inherited : Option String) : String :=
  match annotatedReturn notes with
  | some typeHint => typeHint
  | none =>
    if m.isConstructor then Signature.selfType
    else
      let declared := m.returnType.getD ""
      if declared = "" then inherited.getD Signature.unresolvedType else declared

/-- Pairs parameter annotations with parameters by position; one without partner changes nothing. -/
def mergeParams : List Annotation → List Parameter → List Parameter
  | _, [] => []
  | [], ps => ps
  | .param typeHint name :: notes, p :: ps => p.annotate typeHint name :: mergeParams notes ps
  | _ :: notes, p :: ps => mergeParams notes (p :: ps)

/-- Documentation neither adds nor removes a parameter. -/
@[simp] theorem length_mergeParams (notes : List Annotation) (ps : List Parameter) :
    (mergeParams notes ps).length = ps.length := by
  fun_induction mergeParams notes ps <;> simp_all

/-- The signature of `m` for `owner`, given the return type that the same method has further up. -/
def mergeMethod (docs : DocReader) (owner : ClassId) (m : MethodDecl) (inherited : Option String) :
    Signature :=
  let notes := usableAnnotations docs m.docComment
  { owner
    name := m.name
    declaringClass := m.declaringClass
    visibility := m.visibility
    isStatic := m.isStatic
    isAbstract := m.isAbstract
    parameters := mergeParams notes (m.parameters.map Parameter.ofDecl)
    returnType := mergeReturn notes m inherited }

/-- What there is to report about the annotations of a method with `count` parameters left to
annotate. -/
def noteEvents (className method : String) : Nat → List Annotation → List Event
  | _, [] => []
  | 0, .param _ name :: notes =>
    .surplusParam className method name :: noteEvents className method 0 notes
  | count + 1, .param _ _ :: notes => noteEvents className method count notes
  | count, .invalid error :: notes =>
    .malformedTag className (some method) error :: noteEvents className method count notes
  | count, _ :: notes => noteEvents className method count notes

/-- What there is to report about merging `m` for the class `className`, the outcome last. -/
def methodEvents (docs : DocReader) (className : String) (m : MethodDecl) (returnType : String) :
    List Event :=
  (match m.docComment.map docs with
    | none => []
    | some (.error error) => [.unusableDoc className (some m.name) error]
    | some (.ok notes) => noteEvents className m.name m.parameters.length notes) ++
  [.resolvedMethod className m.name returnType]

/-! ### Classes -/

/-- The methods that a class has by documentation alone, with their signatures. -/
def Annotation.method? : Annotation → Option (String × String)
  | .method name rendered => some (name, rendered)
  | _ => none

def Annotation.error? : Annotation → Option DocError
  | .invalid error => some error
  | _ => none

def classDocEvents (docs : DocReader) (className : String) (doc : Option String) : List Event :=
  match doc.map docs with
  | none => []
  | some (.error error) => [.unusableDoc className none error]
  | some (.ok notes) => (notes.filterMap Annotation.error?).map (.malformedTag className none)

end ClassSurface
