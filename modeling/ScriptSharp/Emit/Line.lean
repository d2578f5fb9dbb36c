/-!
# Emitted lines

Statements and declarations are emitted as lines, each with the number of levels that it is
indented by.
-/

namespace ScriptSharp.Emit

/-- A line of emitted text. -/
structure Line where
  depth : Nat
  text : String
  deriving DecidableEq, Repr

namespace Line

/-- A line with nothing on it. -/
def blank : Line := ⟨0, ""⟩

/-- The spaces in front of a line, with `width` spaces for each level. -/
def indentation (width depth : Nat) : String :=
  String.ofList (List.replicate (width * depth) ' ')

/-- The text of a line with its indentation. -/
def render (width : Nat) (line : Line) : String :=
  indentation width line.depth ++ line.text

end Line

/-- Lines between two braces, which stand one level further out. -/
def braced (depth : Nat) (lines : List Line) : List Line :=
  ⟨depth, "\x7b"⟩ :: lines ++ [⟨depth, "\x7d"⟩]

end ScriptSharp.Emit
