import ClassSurface.Text.Blank

/-! # DocBlock.Tag — the tags of a documentation block

A block is read line by line. Each line loses its decoration (`undecorate`) and is then either a tag
line, blank, or plain text (`Line.ofText`). A tag owns its own line and the plain-text lines right
after it (`tagsOf`): the first blank line or the next tag ends it, and text that follows no tag
belongs to none.
-/

namespace ClassSurface.DocBlock

open Text

/-- Removes what frames the text of a line: blanks, an opening `/**`, a closing `*/`, and one
leading star. -/
def undecorate (l : List Char) : List Char :=
  let l := trim l
  let l := (stripPrefix? ['/', '*', '*'] l).getD l
  let l := (stripSuffix? ['*', '/'] l).getD l
  let l := trimStart l
  let l := (stripPrefix? ['*'] l).getD l
  trim l

/-- A line of a block once its decoration is gone. -/
inductive Line where
  | tag (name body : List Char)
  | blank
  | text (content : List Char)
  deriving DecidableEq, Repr

/-- The word right after `@` names the tag, also when it is empty; the rest of the line opens its
body. -/
def Line.ofText : List Char → Line
  | [] => .blank
  | '@' :: s => .tag (s.takeWhile (! isBlank ·)) (trim (s.dropWhile (! isBlank ·)))
  | s => .text s

/-- The plain-text lines at the start of `ls`. -/
def leadingText : List Line → List (List Char)
  | .text s :: ls => s :: leadingText ls
  | _ => []

/-- A tag with its whole body, continuation lines joined by single spaces. -/
structure Tag where
  name : List Char
  body : List Char
  deriving DecidableEq, Repr

def tagsOf : List Line → List Tag
  | [] => []
  | .tag name body :: ls => ⟨name, body ++ (leadingText ls).flatMap (' ' :: ·)⟩ :: tagsOf ls
  | _ :: ls => tagsOf ls

/-- The tags of a documentation block, in block order. -/
def tags (doc : List Char) : List Tag := tagsOf ((lines doc).map (Line.ofText ∘ undecorate))

end ClassSurface.DocBlock
