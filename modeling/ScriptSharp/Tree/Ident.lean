/-!
# Names

A name of the source program keeps its spelling. When it is a reserved word of the emitted
language it is marked, and the mark is what puts an `@` in front of it.
-/

namespace ScriptSharp

/-- The words that are no plain names in the emitted language. Words that are reserved only in some
contexts are among them. -/
def reservedWords : List String :=
  ["abstract", "alias", "as", "async", "await", "base", "bool", "break", "byte", "case", "catch",
   "char", "checked", "class", "const", "continue", "decimal", "default", "delegate", "do",
   "double", "dynamic", "else", "enum", "event", "explicit", "extern", "false", "finally",
   "fixed", "float", "for", "foreach", "goto", "if", "implicit", "in", "int", "interface",
   "internal", "is", "lock", "long", "nameof", "namespace", "new", "null", "object", "operator",
   "out", "override", "params", "private", "protected", "public", "readonly", "ref", "remove",
   "return", "sbyte", "sealed", "short", "sizeof", "stackalloc", "static", "string", "struct",
   "switch", "this", "throw", "true", "try", "typeof", "uint", "ulong", "unchecked", "unsafe",
   "ushort", "using", "virtual", "void", "volatile", "while"]

/-- The word cannot be used as a plain name. -/
def isReservedWord (word : String) : Bool :=
  reservedWords.contains word

/-- The spelling of a name that is given as plain text. -/
def escapeWord (word : String) : String :=
  if isReservedWord word then "@" ++ word else word

/-- A declared or referenced name. -/
structure Ident where
  name : String
  /-- The name is written with an `@` in front. -/
  escaped : Bool
  deriving DecidableEq, Repr, Inhabited

namespace Ident

/-- A name without a mark. -/
def plain (name : String) : Ident := ⟨name, false⟩

/-- The spelling of a name. -/
def render (ident : Ident) : String :=
  if ident.escaped then "@" ++ ident.name else ident.name

/-- Marks the name exactly when it is a reserved word. -/
def escape (ident : Ident) : Ident :=
  { ident with escaped := isReservedWord ident.name }

end Ident

end ScriptSharp
