import ScriptSharp.Lowering.Constructors
import ScriptSharp.Lowering.Escaping
import ScriptSharp.Lowering.KnownCalls
import ScriptSharp.Lowering.LambdaShape
import ScriptSharp.Lowering.StaticAccess
import ScriptSharp.Lowering.Sugar
import ScriptSharp.Lowering.ValueChain

/-!
# The sequence of lowering steps

The steps by name, their standard order, and how a unit runs through a sequence of them. A batch can
be converted with other steps than these; a `Rewrite` is a step of any kind.
-/

namespace ScriptSharp.Lowering

/-- A step of the lowering. -/
inductive Pass where
  | sugar
  | staticAccess
  | coercion
  | valueChain
  | knownCalls
  | lambdaShape
  | constructors
  | escaping
  deriving DecidableEq, Repr

namespace Pass

/-- The name of a step. -/
def name : Pass → String
  | .sugar => "sugar-desugaring"
  | .staticAccess => "static-through-instance"
  | .coercion => "type-coercion"
  | .valueChain => "value-type-property-chain"
  | .knownCalls => "known-api"
  | .lambdaShape => "lambda-target-inference"
  | .constructors => "constructor-synthesis"
  | .escaping => "identifier-escaping"

/-- The steps in their standard order. Each relies on what the ones before it have settled. -/
def standard : List Pass :=
  [.sugar, .staticAccess, .coercion, .valueChain, .knownCalls, .lambdaShape, .constructors,
   .escaping]

/-- The step with a name. -/
def ofName? (name : String) : Option Pass :=
  standard.find? (·.name == name)

/-- Runs a step on a unit. -/
def run (context : Context) : Pass → SourceUnit → Except Fault SourceUnit
  | .sugar, unit => Sugar.unit context unit
  | .staticAccess, unit => .ok (StaticAccess.unit context.types unit)
  | .coercion, unit => Coercion.unit context.types unit
  | .valueChain, unit => ValueChain.unit context.types unit
  | .knownCalls, unit => .ok (KnownCalls.unit context unit)
  | .lambdaShape, unit => LambdaShape.unit context.types unit
  | .constructors, unit => Constructors.unit unit
  | .escaping, unit => .ok (Escaping.unit unit)

/-- Runs steps in order, up to the first one that fails. -/
def runAll (context : Context) : List Pass → SourceUnit → Except Fault SourceUnit
  | [], unit => .ok unit
  | pass :: rest, unit => do
    let unit ← pass.run context unit
    runAll context rest unit

end Pass

/-- Any step from tree to tree, with the name under which its failures are reported. -/
structure Rewrite where
  name : String
  run : Context → SourceUnit → Except Fault SourceUnit

/-- A step of the lowering as one of many possible ones. -/
def Pass.rewrite (pass : Pass) : Rewrite := ⟨pass.name, fun context => pass.run context⟩

/-- Steps of the lowering stand wherever steps of any kind may stand. -/
instance : Coe (List Pass) (List Rewrite) := ⟨List.map Pass.rewrite⟩

/-- What one step of a sequence did. -/
inductive StepResult where
  | unchanged
  | changed (unit : SourceUnit)
  | failed (fault : Fault)

/-- Runs steps in order and keeps what each of them did. The last unit is missing when a step
fails. -/
def trace (context : Context) : List Pass → SourceUnit →
    List (Pass × StepResult) × Option SourceUnit
  | [], unit => ([], some unit)
  | pass :: rest, unit =>
    match pass.run context unit with
    | .error fault => ([(pass, .failed fault)], none)
    | .ok next =>
      let (results, last) := trace context rest next
      ((pass, if next = unit then .unchanged else .changed next) :: results, last)

end ScriptSharp.Lowering
