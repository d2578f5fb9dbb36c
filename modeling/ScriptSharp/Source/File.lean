/-!
# Source files and their names

A file name is a path whose parts are divided by slashes or backslashes. The emitted file keeps
directory and stem and takes a new extension.
-/

namespace ScriptSharp

/-- A file of a batch: its name and its text. -/
structure SourceFile where
  name : String
  contents : String
  deriving DecidableEq, Repr

namespace FileName

/-- The characters that divide the parts of a path. -/
def isSeparator (character : Char) : Bool :=
  character == '/' || character == '\\'

/-- What stands before and after the last character that satisfies `wanted`. -/
def splitLast (wanted : Char → Bool) : List Char → Option (List Char × List Char)
  | [] => none
  | character :: rest =>
    match splitLast wanted rest with
    | some (before, after) => some (character :: before, after)
    | none => if wanted character then some ([], rest) else none

/-- The last part of a path. -/
def base (name : List Char) : List Char :=
  match splitLast isSeparator name with
  | some (_, after) => after
  | none => name

/-- The last part of a path without its extension. A dot in front does not begin an extension. -/
def stem (name : List Char) : List Char :=
  match splitLast (· == '.') (base name) with
  | some ([], _) => base name
  | some (before, _) => before
  | none => base name

/-- A path without the extension of its last part. A dot in front of the whole path does not
begin an extension. -/
def withoutExtension (name : List Char) : List Char :=
  match splitLast (· == '.') name with
  | some ([], _) => name
  | some (before, after) => if after.any isSeparator then name else before
  | none => name

/-- The name of the emitted file. -/
def output (extension name : List Char) : List Char :=
  withoutExtension name ++ '.' :: extension

end FileName

namespace SourceFile

/-- The stem of a file name. -/
def stem (name : String) : String :=
  String.ofList (FileName.stem name.toList)

/-- The name of the file emitted for `name`. -/
def outputName (extension name : String) : String :=
  String.ofList (FileName.output extension.toList name.toList)

end SourceFile

end ScriptSharp
