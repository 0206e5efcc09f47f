import ClassSurface.DocBlock.Annotation
import ClassSurface.DocBlock.Tag
import ClassSurface.Text.Letter

/-! # DocBlock.Reader — the annotations of a documentation block

Three tags are understood, every other one is passed over:

* `@param [type] [$name] …` — the name may carry marks, as in `...$x` or `&$x`
* `@return [type] …`
* `@method [static] [type] name(…) …` — the type is `void` unless the tag gives one

Bodies are read word by word, so their layout is of no consequence.
-/

namespace ClassSurface.DocBlock

open Text

/-- Marks of a by-reference or variadic parameter, which may stand before the `$` of its name. -/
def isMark (c : Char) : Bool := c == '&' || c == '.'

def isVariable (word : List Char) : Bool := (word.dropWhile isMark).head? == some '$'

/-- The name in a variable: marks and dollar signs dropped. -/
def variableName (word : List Char) : List Char := (word.dropWhile isMark).dropWhile (· == '$')

/-- A variable alone names a parameter without typing it; otherwise the first word is the type, and
the second the name if it is a variable. -/
def readParam (body : List Char) : Annotation :=
  match words body with
  | [] => .param "" ""
  | first :: rest =>
    if isVariable first then .param "" (String.ofList (variableName first))
    else match rest with
      | [] => .param (String.ofList first) ""
      | second :: _ =>
        .param (String.ofList first)
          (if isVariable second then String.ofList (variableName second) else "")

def readReturn (body : List Char) : Annotation :=
  .result (String.ofList ((words body).headD []))

def isIdentifier : List Char → Bool
  | [] => false
  | c :: s => (isLetter c || c == '_') && s.all fun d => isLetter d || isNumeral d || d == '_'

/-- A method tag needs an opening parenthesis and an identifier as the last word before it. The
normal form has single spaces, and `void` where no type is given. -/
def readMethod (body : List Char) : Annotation :=
  let text := unwords (words body)
  let malformed := Annotation.invalid (.malformed "method" (String.ofList text))
  match text.dropWhile (· != '(') with
  | [] => malformed
  | signature =>
    let leading := words (text.takeWhile (· != '('))
    match leading.getLast? with
    | none => malformed
    | some name =>
      if isIdentifier name then
        let modifiers := leading.dropLast
        let modifiers :=
          if modifiers = [] ∨ modifiers = ["static".toList] then modifiers ++ ["void".toList]
          else modifiers
        .method (String.ofList name)
          (String.ofList (unwords modifiers ++ ' ' :: name ++ signature))
      else malformed

def Tag.annotation? (t : Tag) : Option Annotation :=
  if t.name = "param".toList then some (readParam t.body)
  else if t.name = "return".toList then some (readReturn t.body)
  else if t.name = "method".toList then some (readMethod t.body)
  else none

/-- The annotations of a block, in block order. -/
def annotations (doc : String) : List Annotation := (tags doc.toList).filterMap Tag.annotation?

/-- Every text is a usable block; a tag that cannot be read is lost alone. -/
def reader : DocReader := fun doc => .ok (annotations doc)

end ClassSurface.DocBlock
