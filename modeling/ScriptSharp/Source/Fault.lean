import ScriptSharp.Source.Span

/-!
# Faults

A fault stops the conversion of one unit. This module holds the classes of faults, their
stable codes, and the wording of every fault that the lowering and the emission raise.
-/

namespace ScriptSharp

/-- Why the conversion of a unit stopped. -/
inductive Fault where
  /-- The tree lacks a binding or a type that it was promised to carry. -/
  | unresolved (message : String) (span : Span)
  /-- The construct is known and has no counterpart in the emitted language. -/
  | unsupported (message : String) (span : Span)
  /-- The arguments of an attribute cannot be written as attribute arguments. -/
  | malformedAttribute (message : String) (span : Span)
  /-- The front end could not deliver a tree for the file. -/
  | frontend (file : String) (line : Nat) (message : String)
  /-- Anything else, described by its text alone. -/
  | generic (message : String)
  deriving DecidableEq, Repr

namespace Fault

/-- The code under which a fault is reported. -/
def code : Fault → String
  | .unresolved .. => "unresolved-binding"
  | .unsupported .. => "unsupported-construct"
  | .malformedAttribute .. => "malformed-attribute-arguments"
  | .frontend .. => "frontend"
  | .generic .. => "generic"

/-- The line a fault points at, zero when it points at none. -/
def line : Fault → Nat
  | .unresolved _ span => span.line
  | .unsupported _ span => span.line
  | .malformedAttribute _ span => span.line
  | .frontend _ line _ => line
  | .generic _ => 0

/-- The text shown for a fault. -/
def render : Fault → String
  | .unresolved message _ => "unresolved binding: " ++ message
  | .unsupported message _ => "unsupported construct: " ++ message
  | .malformedAttribute message _ => "malformed attribute arguments: " ++ message
  | .frontend file line message => file ++ ":" ++ toString line ++ ": " ++ message
  | .generic message => "Generic error: " ++ message

/-! ## Faults of reading a tree -/

/-- The text of a file is not the serialized form of a tree. -/
def unreadableTree (file : String) (line : Nat) : Fault :=
  .frontend file line "JSON error"

/-- No tree was prepared for a file. -/
def missingTree (file : String) : Fault :=
  .frontend file 0 "no annotated tree available"

/-! ## Faults of lowering -/

/-- A name was left without a declaration. -/
def unboundIdentifier (name : String) (span : Span) : Fault :=
  .unresolved s!"identifier `{name}` has no binding" span

/-- `super(...)` stands somewhere else than in front of a constructor body. -/
def misplacedBaseCall (span : Span) : Fault :=
  .unsupported "base constructor call outside a constructor prologue" span

/-- A type that has no constructors is called like one that has. -/
def notConstructible (spelling : String) (span : Span) : Fault :=
  .unsupported s!"construction call on `{spelling}`" span

/-- A value type has no constructor for the arguments given. -/
def valueTypeArguments (spelling : String) (count : Nat) (span : Span) : Fault :=
  .unsupported s!"no constructor of `{spelling}` accepts {count} argument(s)" span

/-- A reference type has no constructor for the arguments given. -/
def noMatchingConstructor (spelling : String) (span : Span) : Fault :=
  .unresolved s!"no constructor of `{spelling}` matches the call" span

/-- A named attribute argument occurs a second time. -/
def repeatedNamedArgument (name : String) (span : Span) : Fault :=
  .malformedAttribute s!"named argument `{name}` given twice" span

/-- A positional attribute argument stands behind a named one. -/
def positionalAfterNamed (name : String) (span : Span) : Fault :=
  .malformedAttribute s!"positional argument follows named argument `{name}`" span

/-- An attribute argument is not made of constants. -/
def nonConstantArgument (span : Span) : Fault :=
  .malformedAttribute "attribute argument is not a constant expression" span

/-- Top level statements have no script class to go into. -/
def noScriptClass (file : String) : Fault :=
  .unsupported s!"top level statements in `{file}` without a script class" .unknown

/-- A narrowing compound assignment would evaluate effects of its target twice. -/
def effectfulTarget (span : Span) : Fault :=
  .unsupported "narrowing compound assignment to a target with side effects" span

/-- The copy at the root of a property chain has no place to be stored into. -/
def temporaryRoot (span : Span) : Fault :=
  .unsupported "value-type property chain rooted in a temporary value cannot be written back" span

/-- An assignment through a property chain is used for its value. -/
def chainUsedAsValue (span : Span) : Fault :=
  .unsupported "assignment through a value-type property chain used as a value" span

/-- A struct initializes its instance fields. -/
def structInitializers (name : String) (span : Span) : Fault :=
  .unsupported s!"instance field initializers in struct `{name}`" span

/-! ## Faults of emission -/

/-- A type handle points past the end of the table. -/
def unknownHandle (id : Nat) : Fault :=
  .unresolved s!"type handle {id} is not in the type table" .unknown

/-- Top level statements were never moved into a class. -/
def remainingStatements (file : String) : Fault :=
  .unsupported s!"top level statements left in `{file}`" .unknown

/-- A statement other than a declaration or an expression initializes a `for` loop. -/
def loopInitializer (form : String) : Fault :=
  .unsupported s!"statement {form} in a for-loop initializer" .unknown

end Fault

end ScriptSharp
