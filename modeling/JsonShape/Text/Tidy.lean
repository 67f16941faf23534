import JsonShape.Text.Blank
import JsonShape.Text.Lines

/-!
# Tidy text

Tidying changes only white space at the ends of lines and blank lines: no line ends in white space,
between two lines stands at most one blank line, there is none at the beginning or at the end, and
every line ends in a line feed.
-/

namespace JsonShape.Text

/-- The tidy text of lines. `started` says whether a line has been written, and `pending` whether a
blank line is due before the next. -/
def tidyLines (started pending : Bool) : List (List Char) → List Char
  | [] => []
  | line :: rest =>
    match trimEnd line with
    | [] => tidyLines started started rest
    | kept => (if pending then ['\n'] else []) ++ kept ++ '\n' :: tidyLines true false rest

/-- The tidy form of a text. -/
def tidy (text : List Char) : List Char := tidyLines false false (lines text)

end JsonShape.Text
