import ScriptSharp.Source.Fault

/-!
# Diagnostics

The records that a batch reports about its files, and the one line of text shown for each.
-/

namespace ScriptSharp

/-- How serious a diagnostic is. -/
inductive Severity where
  | info
  | warning
  | error
  deriving DecidableEq, Repr

namespace Severity

/-- The word shown in front of a diagnostic. -/
def label : Severity → String
  | .info => "INFO"
  | .warning => "WARNING"
  | .error => "ERROR"

end Severity

/-- One record of the report of a batch. -/
structure Diagnostic where
  severity : Severity
  message : String
  file : Option String
  span : Option Span
  suggestions : List String
  code : Option String
  deriving DecidableEq, Repr

namespace Diagnostic

/-- A diagnostic that says no more than its message. -/
def bare (severity : Severity) (message : String) : Diagnostic :=
  ⟨severity, message, none, none, [], none⟩

/-- The diagnostic for a unit of `file` that stopped with `fault`. It has a position only when
the fault points at a line. -/
def ofFault (file : String) (fault : Fault) : Diagnostic :=
  { bare .error fault.render with
    file := some file
    code := some fault.code
    span := if fault.line = 0 then none else some ⟨fault.line, 0⟩ }

/-- The line of a diagnostic, zero when it has no position. -/
def line (diagnostic : Diagnostic) : Nat :=
  match diagnostic.span with
  | some span => span.line
  | none => 0

/-- Errors count as failures; warnings and infos do not. -/
def isError (diagnostic : Diagnostic) : Bool :=
  diagnostic.severity == .error

/-- Where a diagnostic points to, as it stands before the message. -/
def place (diagnostic : Diagnostic) : String :=
  match diagnostic.file with
  | none => ""
  | some file =>
    if diagnostic.line = 0 then file ++ ": "
    else file ++ ":" ++ toString diagnostic.line ++ ": "

/-- The text of a diagnostic: severity, place, message, code, hints. -/
def render (diagnostic : Diagnostic) : String :=
  let code := match diagnostic.code with
    | some code => " [" ++ code ++ "]"
    | none => ""
  let hints := match diagnostic.suggestions with
    | [] => ""
    | suggestions => " (hints: " ++ "; ".intercalate suggestions ++ ")"
  "[" ++ diagnostic.severity.label ++ "] " ++ diagnostic.place ++ diagnostic.message ++ code ++
    hints

end Diagnostic

end ScriptSharp
