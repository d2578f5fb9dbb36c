import ScriptSharp.Directive.Scan

/-!
# Symbol references

The conditions that the files of a batch test, in the order of files and lines. A condition that is
tested twice is recorded twice.
-/

namespace ScriptSharp

/-- A condition tested by a file. -/
structure SymbolReference where
  fileName : String
  line : Nat
  expression : String
  deriving DecidableEq, Repr

namespace SymbolReference

/-- The conditions tested in a text. -/
def collect (fileName text : String) : List SymbolReference :=
  ((Directive.scan text).filter (·.kind.carriesExpression)).map fun directive =>
    ⟨fileName, directive.line, directive.argument⟩

/-- Adds the conditions of one more file, and says how many there are. -/
def collectInto (references : List SymbolReference) (fileName text : String) :
    Nat × List SymbolReference :=
  let found := collect fileName text
  (found.length, references ++ found)

end SymbolReference

end ScriptSharp
