import ScriptSharp.Batch.Convert
import ScriptSharp.Batch.Frontend
import ScriptSharp.Batch.Options
import ScriptSharp.Batch.Pipeline
import ScriptSharp.Decimal.Binary64
import ScriptSharp.Decimal.Layout
import ScriptSharp.Decimal.Scaling
import ScriptSharp.Decimal.Shortest
import ScriptSharp.Directive.Scan
import ScriptSharp.Directive.Symbols
import ScriptSharp.Emit.Body
import ScriptSharp.Emit.Line
import ScriptSharp.Emit.Literal
import ScriptSharp.Emit.Precedence
import ScriptSharp.Emit.Token
import ScriptSharp.Emit.TypeName
import ScriptSharp.Emit.Unit
import ScriptSharp.Json.Cursor
import ScriptSharp.Json.Decoder
import ScriptSharp.Json.Number
import ScriptSharp.Json.Quoted
import ScriptSharp.Json.Scalar
import ScriptSharp.Json.Tree
import ScriptSharp.Json.Types
import ScriptSharp.Lowering.Coercion
import ScriptSharp.Lowering.Constructors
import ScriptSharp.Lowering.Context
import ScriptSharp.Lowering.Escaping
import ScriptSharp.Lowering.KnownApi
import ScriptSharp.Lowering.KnownCalls
import ScriptSharp.Lowering.LambdaShape
import ScriptSharp.Lowering.Sequence
import ScriptSharp.Lowering.StaticAccess
import ScriptSharp.Lowering.Sugar
import ScriptSharp.Lowering.ValueChain
import ScriptSharp.Proofs.Batch.Accounting
import ScriptSharp.Proofs.Batch.Composition
import ScriptSharp.Proofs.Coercion.Deeds
import ScriptSharp.Proofs.Coercion.Overloads
import ScriptSharp.Proofs.Coercion.Erasure
import ScriptSharp.Proofs.Coercion.Settled
import ScriptSharp.Proofs.Constructors.Construction
import ScriptSharp.Proofs.Constructors.Placement
import ScriptSharp.Proofs.Directive.Bytes
import ScriptSharp.Proofs.Directive.Lexing
import ScriptSharp.Proofs.KnownCalls.Again
import ScriptSharp.Proofs.KnownCalls.Dropped
import ScriptSharp.Proofs.KnownCalls.Places
import ScriptSharp.Proofs.KnownCalls.Requirements
import ScriptSharp.Proofs.LambdaShape.Imports
import ScriptSharp.Proofs.LambdaShape.Inference
import ScriptSharp.Proofs.LambdaShape.Literals
import ScriptSharp.Proofs.LambdaShape.References
import ScriptSharp.Proofs.LambdaShape.Reinference
import ScriptSharp.Proofs.LambdaShape.Resting
import ScriptSharp.Proofs.LambdaShape.Shaping
import ScriptSharp.Proofs.LambdaShape.Trace
import ScriptSharp.Proofs.NormalForm.Desugared
import ScriptSharp.Proofs.NormalForm.Finished
import ScriptSharp.Proofs.NormalForm.Forms
import ScriptSharp.Proofs.NormalForm.Kept
import ScriptSharp.Proofs.NormalForm.Sequence
import ScriptSharp.Proofs.NormalForm.Shapes
import ScriptSharp.Proofs.Outline.Extension
import ScriptSharp.Proofs.Outline.Sequence
import ScriptSharp.Proofs.Reading.Expressions
import ScriptSharp.Proofs.Sugar.Alignment
import ScriptSharp.Proofs.Sugar.Chains
import ScriptSharp.Proofs.Sugar.Packing
import ScriptSharp.Proofs.Sugar.TypeValues
import ScriptSharp.Proofs.Tree.Effects
import ScriptSharp.Proofs.Tree.Faults
import ScriptSharp.Proofs.ValueChain.Blocks
import ScriptSharp.Proofs.ValueChain.Effects
import ScriptSharp.Proofs.ValueChain.Freshness
import ScriptSharp.Proofs.ValueChain.Machine
import ScriptSharp.Proofs.ValueChain.Memory
import ScriptSharp.Proofs.ValueChain.Survivors
import ScriptSharp.Proofs.ValueChain.WriteBack
import ScriptSharp.Source.Diagnostic
import ScriptSharp.Source.Fault
import ScriptSharp.Source.File
import ScriptSharp.Source.Span
import ScriptSharp.Text.Blank
import ScriptSharp.Text.Lines
import ScriptSharp.Tree.Decl
import ScriptSharp.Tree.Equality
import ScriptSharp.Tree.Expr
import ScriptSharp.Tree.Ident
import ScriptSharp.Tree.Literal
import ScriptSharp.Tree.Search
import ScriptSharp.Tree.Subexpressions
import ScriptSharp.Tree.Traversal
import ScriptSharp.Types.Basic
import ScriptSharp.Types.Conversion
import ScriptSharp.Types.Display
import ScriptSharp.Types.Signature
import ScriptSharp.Types.Subtype
import ScriptSharp.Types.Table
import ScriptSharp.Proofs.Types.Choice
import ScriptSharp.Proofs.Types.History
import ScriptSharp.Proofs.Types.Reachability
import ScriptSharp.Proofs.Emission.Forgetting
import ScriptSharp.Proofs.Reading.Lines
import ScriptSharp.Proofs.ValueChain.Temporaries
import ScriptSharp.Proofs.Reading.Spellings
import ScriptSharp.Proofs.Reading.Phrases
import ScriptSharp.Proofs.Reading.Statements
import ScriptSharp.Proofs.Directive.Concatenation
import ScriptSharp.Proofs.Reading.Literals
import ScriptSharp.Proofs.Emission.LineEnds
import ScriptSharp.Proofs.Emission.StatementEnds
import ScriptSharp.Proofs.Emission.UnitEnds
import ScriptSharp.Proofs.Emission.TypeSpelling
import ScriptSharp.Proofs.Source.OutputNames
import ScriptSharp.Proofs.StaticAccess.Receivers
import ScriptSharp.Proofs.Escaping.Marking
import ScriptSharp.Proofs.Tree.Renaming
import ScriptSharp.Proofs.Tree.Gathering
import ScriptSharp.Proofs.Reading.Commas
import ScriptSharp.Proofs.Reading.Operands
import ScriptSharp.Proofs.Emission.LoopHeads
import ScriptSharp.Proofs.Tree.Occurrences
import ScriptSharp.Proofs.Tree.Searching
import ScriptSharp.Proofs.Tree.Visiting
import ScriptSharp.Proofs.Tree.Coverage
