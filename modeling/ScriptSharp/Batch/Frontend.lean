import ScriptSharp.Json.Tree
import ScriptSharp.Source.Fault
import ScriptSharp.Source.File

/-!
# Front ends

A front end delivers the annotated tree of a file, and the table of the types that all trees refer
to. In the two front ends at hand, trees are either serialized in the files themselves or prepared
beforehand.
-/

namespace ScriptSharp.Batch

/-- Where the trees come from. -/
structure Frontend where
  /-- The name of the language that the files are written in. -/
  language : String
  /-- The extensions of the files. -/
  extensions : List String
  /-- The types that all trees refer to. -/
  types : TypeTable
  /-- The tree of a file. -/
  tree : SourceFile → Except Fault SourceUnit

namespace Frontend

/-- Each file holds its tree as JSON. A tree without a file name takes the name of its file. -/
def annotatedJson (types : TypeTable) : Frontend where
  language := "unityscript-annotated-json"
  extensions := ["json"]
  types
  tree file :=
    match Json.decode Json.sourceUnit file.contents with
    | .ok unit => .ok (if unit.fileName.isEmpty then { unit with fileName := file.name } else unit)
    | .error line => .error (.unreadableTree file.name line)

/-- The trees are at hand; of two trees for one file the later one counts. -/
def prepared (types : TypeTable) (units : List SourceUnit) : Frontend where
  language := "unityscript"
  extensions := ["js"]
  types
  tree file :=
    match units.reverse.find? (·.fileName == file.name) with
    | some unit => .ok unit
    | none => .error (.missingTree file.name)

end Frontend

end ScriptSharp.Batch
