/-!
# Lines

A line ends at a line feed, and one carriage return right before the line feed belongs to the line
ending. A carriage return anywhere else is an ordinary character of its line. The text after the
last line feed is a line only if it is not empty.
-/

namespace JsonShape.Text

/-- A line without the carriage return that belongs to its line feed. -/
def dropReturn : List Char → List Char
  | [] => []
  | ['\r'] => []
  | c :: rest => c :: dropReturn rest

/-- The lines of a text whose current line began with `opened`, in reverse. -/
def linesFrom (opened : List Char) : List Char → List (List Char)
  | [] => if opened.isEmpty then [] else [opened.reverse]
  | '\n' :: rest => dropReturn opened.reverse :: linesFrom [] rest
  | c :: rest => linesFrom (c :: opened) rest

/-- The lines of a text, in order, without their line endings. -/
def lines (text : List Char) : List (List Char) := linesFrom [] text

end JsonShape.Text
