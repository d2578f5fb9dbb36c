/-!
# Lines of a text

A line ends at a line feed. One carriage return right before the line feed belongs to the
line end, and a text that ends in a line feed has no further, empty line.
-/

namespace ScriptSharp.Text

/-- The lines of a text, without their ends. -/
def lines : List Char → List (List Char)
  | [] => []
  | '\n' :: rest => [] :: lines rest
  | '\r' :: '\n' :: rest => [] :: lines rest
  | character :: rest =>
    match lines rest with
    | [] => [[character]]
    | first :: others => (character :: first) :: others

@[simp] theorem lines_nil : lines [] = [] := rfl

@[simp] theorem lines_lineFeed (rest : List Char) : lines ('\n' :: rest) = [] :: lines rest := by
  simp [lines]

@[simp] theorem lines_carriageReturn (rest : List Char) :
    lines ('\r' :: '\n' :: rest) = [] :: lines rest := by
  simp [lines]

end ScriptSharp.Text
