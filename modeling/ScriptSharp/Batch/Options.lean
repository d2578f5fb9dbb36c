import ScriptSharp.Emit.Unit
import ScriptSharp.Json.Types
import ScriptSharp.Lowering.Context

/-!
# Settings of a conversion

The settings and their serialized form. A setting that is not given keeps its standard value.
-/

namespace ScriptSharp.Batch

/-- The settings of a conversion. -/
structure Options where
  style : Emit.Style
  serializableClasses : Bool
  knownApis : List KnownApi
  /-- Log what is reported for information only. -/
  verbose : Bool
  /-- Log the tree after every step of the lowering. -/
  printPasses : Bool
  /-- Go on with the other files when one fails. -/
  continueOnError : Bool
  deriving DecidableEq, Repr

namespace Options

/-- The settings of a conversion that nobody has changed. -/
def standard : Options where
  style := .standard
  serializableClasses := true
  knownApis := KnownApi.defaults
  verbose := false
  printPasses := false
  continueOnError := true

/-- What lowering depends on, under these settings. -/
def context (options : Options) (types : TypeTable) : Lowering.Context :=
  ⟨types, options.knownApis, options.serializableClasses⟩

/-- The message for settings that cannot be read. -/
def invalidMessage : String := "invalid converter options"

end Options

end ScriptSharp.Batch

namespace ScriptSharp.Json

open Record Decoder

/-- A known method. -/
def knownApi : Decoder KnownApi :=
  decoder ((const KnownApi.mk).and (required "declaring_type" string)
    |>.and (required "method" string)
    |>.and (defaulted "type_argument" 0 nat64))

/-- The settings of the log: `verbose` and `print_passes`. -/
def logOptions : Decoder (Bool × Bool) :=
  decoder ((const Prod.mk).and (defaulted "verbose" Batch.Options.standard.verbose bool)
    |>.and (defaulted "print_passes" Batch.Options.standard.printPasses bool))

/-- The setting that says whether a batch goes on behind a failing file. -/
def toleranceOptions : Decoder Bool :=
  decoder ((const id).and
    (defaulted "continue_on_error" Batch.Options.standard.continueOnError bool))

/-- The settings of a conversion. -/
def options : Decoder Batch.Options :=
  let standard := Batch.Options.standard
  let build (imports : List String) (extension : String) (width : Nat) (serializable : Bool)
      (knownApis : List KnownApi) (log : Bool × Bool) (tolerance : Bool) : Batch.Options :=
    ⟨⟨width, imports, extension⟩, serializable, knownApis, log.1, log.2, tolerance⟩
  decoder ((const build)
    |>.and (defaulted "baseline_imports" standard.style.baselineImports (list string))
    |>.and (defaulted "extension" standard.style.extension string)
    |>.and (defaulted "indent_width" standard.style.indentWidth nat64)
    |>.and (defaulted "serializable_classes" standard.serializableClasses bool)
    |>.and (defaulted "known_apis" standard.knownApis (list knownApi))
    |>.and (defaulted "debug" (standard.verbose, standard.printPasses) logOptions)
    |>.and (defaulted "error_tolerance" standard.continueOnError toleranceOptions))

/-- The settings of the emission alone. -/
def style : Decoder Emit.Style :=
  let standard := Emit.Style.standard
  decoder ((const Emit.Style.mk)
    |>.and (defaulted "indent_width" standard.indentWidth nat64)
    |>.and (defaulted "baseline_imports" standard.baselineImports (list string))
    |>.and (defaulted "extension" standard.extension string))

end ScriptSharp.Json

namespace ScriptSharp.Batch.Options

/-- The settings in a text, unless it holds something else. -/
def ofJson? (text : String) : Option Options :=
  (Json.decode (fun _ => Json.options) text).toOption

end ScriptSharp.Batch.Options
