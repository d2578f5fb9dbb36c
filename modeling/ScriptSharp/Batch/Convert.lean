import ScriptSharp.Batch.Frontend
import ScriptSharp.Batch.Options
import ScriptSharp.Batch.Pipeline
import ScriptSharp.Directive.Symbols
import ScriptSharp.Lowering.Sequence

/-!
# Converting a batch

Each file goes through four stages: its tree is read, its conditions are collected, the tree is
lowered, and the result is emitted. All files of a batch add to one report, and a batch can be told
to stop at the first file that fails.
-/

namespace ScriptSharp.Batch

/-- What a batch gives. -/
structure Report where
  /-- One file for each file that was converted. -/
  outputs : List SourceFile
  diagnostics : List Diagnostic
  /-- The conditions of all files whose tree could be read. -/
  symbols : List SymbolReference
  deriving DecidableEq, Repr

namespace Report

/-- The report of a batch without files. -/
def empty : Report := ⟨[], [], []⟩

/-- Some file failed. -/
def hasErrors (report : Report) : Bool :=
  report.diagnostics.any Diagnostic.isError

/-- The number of errors. -/
def errorCount (report : Report) : Nat :=
  report.diagnostics.countP Diagnostic.isError

/-- The emitted file with a name. -/
def output? (report : Report) (name : String) : Option SourceFile :=
  report.outputs.find? (·.name == name)

/-- The diagnostics about a file. -/
def diagnosticsFor (report : Report) (name : String) : List Diagnostic :=
  report.diagnostics.filter (·.file == some name)

end Report

/-- A file with its tree and its conditions. -/
structure ParsedUnit where
  file : SourceFile
  unit : SourceUnit
  symbols : List SymbolReference

/-- Gives the value, or reports a fault of a file and fails. -/
def orAbort {α : Type} (stage file : String) (context : Fault → String) :
    Except Fault α → Run α
  | .ok value => pure value
  | .error fault => do
    Run.report (.ofFault file fault)
    throw ⟨stage, context fault⟩

/-- The stage that gets the tree of a file. -/
def frontendStage (frontend : Frontend) : Stage SourceFile ParsedUnit where
  name := "frontend"
  run file := do
    let unit ← orAbort "frontend" file.name Fault.render (frontend.tree file)
    return ⟨file, unit, []⟩

/-- The report that conditions were found. -/
def symbolsFound (file : String) (count : Nat) : Diagnostic :=
  { Diagnostic.bare .info (toString count ++ " conditional compilation directive(s) collected") with
    file := some file
    code := some "preprocessor-symbols" }

/-- The stage that collects the conditions of a file, from the text of the script if the tree has
it, and from the file itself otherwise. -/
def symbolStage : Stage ParsedUnit ParsedUnit where
  name := "preprocessor-symbols"
  run parsed := do
    let text := parsed.unit.sourceText.getD parsed.file.contents
    let symbols := SymbolReference.collect parsed.file.name text
    if !symbols.isEmpty then
      Run.report (symbolsFound parsed.file.name symbols.length)
    return { parsed with symbols }

/-- Lowers a tree step by step, up to the first step that fails. -/
def lower (context : Lowering.Context) (file : String) :
    List Lowering.Rewrite → SourceUnit → Run SourceUnit
  | [], unit => return unit
  | pass :: rest, unit => do
    let unit ← orAbort "rewrite-passes" file (fun fault => pass.name ++ ": " ++ fault.render)
      (pass.run context unit)
    lower context file rest unit

/-- The stage that lowers the tree of a file. -/
def loweringStage (context : Lowering.Context) (passes : List Lowering.Rewrite) :
    Stage ParsedUnit ParsedUnit where
  name := "rewrite-passes"
  run parsed := do
    let unit ← lower context parsed.file.name passes parsed.unit
    return { parsed with unit }

/-- The stage that emits a tree. -/
def emitStage (style : Emit.Style) (types : TypeTable) : Stage ParsedUnit SourceFile where
  name := "emit"
  run parsed := do
    let contents ←
      orAbort "emit" parsed.file.name Fault.render (Emit.unitText style types parsed.unit)
    return ⟨style.outputName parsed.file.name, contents⟩

/-- What a batch is converted with. -/
structure Converter where
  frontend : Frontend
  options : Options
  passes : List Lowering.Rewrite

namespace Converter

/-- The stages that read a file. -/
def front (converter : Converter) : Pipeline SourceFile ParsedUnit :=
  Pipeline.empty.add (frontendStage converter.frontend) |>.add symbolStage

/-- The stages that lower and emit a tree. -/
def back (converter : Converter) : Pipeline ParsedUnit SourceFile :=
  let types := converter.frontend.types
  Pipeline.empty.add (loweringStage (converter.options.context types) converter.passes)
    |>.add (emitStage converter.options.style types)

/-- The names of the stages that a file goes through. -/
def stages (converter : Converter) : List String :=
  converter.front.stages ++ converter.back.stages

/-- Adds to a report what one more file gives, and says whether the file was converted. The
conditions of a file are kept when a stage behind the front end fails. -/
def convertFile (converter : Converter) (report : Report) (file : SourceFile) : Bool × Report :=
  match (converter.front.run file).outcome report.diagnostics with
  | (.error _, diagnostics) => (false, { report with diagnostics })
  | (.ok parsed, diagnostics) =>
    let symbols := report.symbols ++ parsed.symbols
    match (converter.back.run parsed).outcome diagnostics with
    | (.error _, diagnostics) => (false, { report with diagnostics, symbols })
    | (.ok output, diagnostics) => (true, ⟨report.outputs ++ [output], diagnostics, symbols⟩)

/-- The warning about a file that is left out behind a failing one. -/
def skipped (file : SourceFile) : Diagnostic :=
  { Diagnostic.bare .warning "not converted: an earlier unit failed" with
    file := some file.name
    suggestions := ["enable error_tolerance.continue_on_error"] }

/-- Goes on with the files of a batch, where `report` is what the files before them gave. -/
def resume (converter : Converter) (report : Report) : List SourceFile → Report
  | [] => report
  | file :: rest =>
    let (converted, report) := converter.convertFile report file
    if converted || converter.options.continueOnError then converter.resume report rest
    else { report with diagnostics := report.diagnostics ++ rest.map skipped }

/-- Converts the files of a batch in order. -/
def convert (converter : Converter) (files : List SourceFile) : Report :=
  converter.resume .empty files

end Converter

end ScriptSharp.Batch
