/-!
# Source positions

Lines and columns count from one. Line zero stands for an unknown position.
-/

namespace ScriptSharp

/-- The position of a piece of source. -/
structure Span where
  line : Nat
  column : Nat
  deriving DecidableEq, Repr, Inhabited

namespace Span

/-- The position of everything that has no source of its own. -/
def unknown : Span := ⟨0, 0⟩

/-- A position is unknown as soon as its line is. -/
def isUnknown (span : Span) : Bool :=
  span.line == 0

/-- The position itself when it is known, otherwise `fallback`. -/
def or (span fallback : Span) : Span :=
  if span.isUnknown then fallback else span

/-- Line and column with a colon between them. -/
def render (span : Span) : String :=
  toString span.line ++ ":" ++ toString span.column

end Span

end ScriptSharp
