import ClassSurface.Text.Affix

/-! # Text.Blank — blanks, words and lines

A blank is a character with the Unicode property `White_Space`.

* `trimStart`, `trimEnd`, `trim` remove blanks at the ends of a text.
* `words` are the maximal runs without blanks.
* `lines` end at a line feed, a carriage return right before it belonging to the line end; a
  carriage return anywhere else is an ordinary (blank) character of its line.
-/

namespace ClassSurface.Text

/-- The 25 code points with the Unicode property `White_Space`. -/
def isBlank (c : Char) : Bool :=
  let n := c.toNat
  (0x09 ≤ n && n ≤ 0x0D) || n == 0x20 || n == 0x85 || n == 0xA0 || n == 0x1680 ||
    (0x2000 ≤ n && n ≤ 0x200A) || n == 0x2028 || n == 0x2029 || n == 0x202F || n == 0x205F ||
    n == 0x3000

/-- Every character that core counts as whitespace is a blank. -/
theorem isBlank_of_isWhitespace {c : Char} (h : c.isWhitespace = true) : isBlank c = true := by
  simp only [Char.isWhitespace, Bool.or_eq_true, decide_eq_true_eq] at h
  rcases h with ((rfl | rfl) | rfl) | rfl <;> decide

def trimStart (s : List Char) : List Char := s.dropWhile isBlank

def trimEnd (s : List Char) : List Char := (s.reverse.dropWhile isBlank).reverse

def trim (s : List Char) : List Char := trimEnd (trimStart s)

/-- The maximal runs of characters that are not blank, in order. -/
def words (s : List Char) : List (List Char) := (s.splitOnP isBlank).filter (! ·.isEmpty)

theorem ne_nil_of_mem_words {w s : List Char} (h : w ∈ words s) : w ≠ [] := by
  have := (List.mem_filter.mp h).2
  simpa using this

/-- Words joined by single spaces. -/
def unwords (ws : List (List Char)) : List Char := [' '].intercalate ws

/-- A carriage return that ends a line is part of the line end. -/
def dropReturn (l : List Char) : List Char := (stripSuffix? ['\r'] l).getD l

/-- Closes every line but the last, which counts only if there is something in it. -/
def closeLines : List (List Char) → List (List Char)
  | [] => []
  | [l] => if l.isEmpty then [] else [l]
  | l :: ls => dropReturn l :: closeLines ls

/-- The lines of a text, without their line ends. -/
def lines (s : List Char) : List (List Char) := closeLines (s.splitOn '\n')

end ClassSurface.Text
