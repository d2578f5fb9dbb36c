import ScriptSharp.Batch.Convert
import ScriptSharp.Proofs.Tree.Walk

/-!
# Batches are made of their files

All files of a batch add to one list of diagnostics. A stage never looks at what was reported
before, though: `Run.Adds` says that a computation gives the same result and reports the same
diagnostics whatever the list holds already. So a file adds to a report what it would give alone,
which is `Converter.fileReport`, and the report of a batch is put together from those of its files.
-/

namespace ScriptSharp.Batch

/-! ## Computations that add diagnostics -/

namespace Run

variable {α β : Type} {run : Run α} {next : α → Run β} {file : String}

/-- The computation ends with `result` and reports `added`, whatever was reported before. -/
def Adds (run : Run α) (result : Except StageFailure α) (added : List Diagnostic) : Prop :=
  ∀ earlier, run.outcome earlier = (result, earlier ++ added)

/-- What ends at once reports nothing. -/
theorem adds_pure (value : α) : Adds (pure value) (.ok value) [] := by
  intro earlier
  rw [List.append_nil]
  rfl

/-- A report of one diagnostic adds it. -/
theorem adds_report (diagnostic : Diagnostic) : Adds (report diagnostic) (.ok ()) [diagnostic] :=
  fun _ => rfl

/-- A computation goes on with what the first one has reported, unless that has failed. -/
theorem outcome_bind (earlier : List Diagnostic) :
    (run >>= next).outcome earlier =
      match run.outcome earlier with
      | (.ok value, reported) => (next value).outcome reported
      | (.error failure, reported) => (.error failure, reported) := by
  simp only [outcome, ExceptT.run_bind, StateT.run_bind]
  rcases StateT.run (ExceptT.run run) earlier with ⟨_ | _, reported⟩ <;> rfl

/-- A failure is claimed by the stage that it happens in. -/
theorem outcome_claimedBy (stage : String) (earlier : List Diagnostic) :
    (run.claimedBy stage).outcome earlier =
      match run.outcome earlier with
      | (.ok value, reported) => (.ok value, reported)
      | (.error failure, reported) => (.error { failure with stage }, reported) := by
  unfold claimedBy outcome StateT.run ExceptT.run
  simp only [tryCatch, tryCatchThe, MonadExceptOf.tryCatch, ExceptT.tryCatch, ExceptT.mk, bind,
    StateT.bind]
  rcases run earlier with ⟨_ | _, reported⟩ <;> rfl

/-- A computation that goes on adds its reports behind the first ones. -/
theorem Adds.bind {value : α} {result : Except StageFailure β} {added more : List Diagnostic}
    (first : Adds run (.ok value) added) (second : Adds (next value) result more) :
    Adds (run >>= next) result (added ++ more) := by
  intro earlier
  rw [outcome_bind, first earlier, ← List.append_assoc]
  exact second _

/-- Behind a failure nothing is reported. -/
theorem Adds.bind_error {failure : StageFailure} {added : List Diagnostic}
    (first : Adds run (.error failure) added) : Adds (run >>= next) (.error failure) added := by
  intro earlier
  rw [outcome_bind, first earlier]

/-- A result is claimed by no stage. -/
theorem Adds.claimedBy {value : α} {added : List Diagnostic} (adds : Adds run (.ok value) added)
    (stage : String) : Adds (run.claimedBy stage) (.ok value) added := by
  intro earlier
  rw [outcome_claimedBy, adds earlier]

/-- A stage claims a failure, and reports nothing more. -/
theorem Adds.claimedBy_error {failure : StageFailure} {added : List Diagnostic}
    (adds : Adds run (.error failure) added) (stage : String) :
    Adds (run.claimedBy stage) (.error { failure with stage }) added := by
  intro earlier
  rw [outcome_claimedBy, adds earlier]

/-- The computation gives what a fallible function gives. It reports nothing but the fault, once
and against the file. -/
def Mirrors (run : Run α) (file : String) : Except Fault α → Prop
  | .ok value => Adds run (.ok value) []
  | .error fault => ∃ failure, Adds run (.error failure) [.ofFault file fault]

/-- What mirrors a result reports nothing. -/
theorem Mirrors.adds {given : Except Fault α} (mirrors : Mirrors run file given) {value : α}
    (ends : given = .ok value) : Adds run (.ok value) [] := by
  rwa [ends] at mirrors

/-- What mirrors a fault reports it once. -/
theorem Mirrors.adds_error {given : Except Fault α} (mirrors : Mirrors run file given)
    {fault : Fault} (ends : given = .error fault) :
    ∃ failure, Adds run (.error failure) [.ofFault file fault] := by
  rwa [ends] at mirrors

/-- A result mirrors itself. -/
theorem mirrors_pure (value : α) : Mirrors (pure value) file (pure value) :=
  adds_pure value

/-- A stage that aborts mirrors what it aborts on. -/
theorem mirrors_orAbort (stage : String) (context : Fault → String) (given : Except Fault α) :
    Mirrors (orAbort stage file context given) file given := by
  cases given with
  | ok value => exact adds_pure value
  | error fault => exact ⟨⟨stage, context fault⟩, fun _ => rfl⟩

/-- Computations in a row mirror what they are given in a row. -/
theorem Mirrors.bind {given : Except Fault α} {continued : α → Except Fault β}
    (first : Mirrors run file given)
    (second : ∀ value, given = .ok value → Mirrors (next value) file (continued value)) :
    Mirrors (run >>= next) file (given >>= continued) := by
  cases given with
  | error fault =>
    obtain ⟨failure, adds⟩ := first
    exact ⟨failure, adds.bind_error⟩
  | ok value =>
    have rest := second value rfl
    change Mirrors _ file (continued value)
    cases ends : continued value with
    | ok result =>
      rw [ends] at rest
      exact Adds.bind first rest
    | error fault =>
      rw [ends] at rest
      obtain ⟨failure, adds⟩ := rest
      exact ⟨failure, Adds.bind first adds⟩

/-- What a stage claims mirrors the same. -/
theorem Mirrors.claimedBy {given : Except Fault α} (mirrors : Mirrors run file given)
    (stage : String) : Mirrors (run.claimedBy stage) file given := by
  cases given with
  | ok value => exact Adds.claimedBy mirrors stage
  | error fault =>
    obtain ⟨failure, adds⟩ := mirrors
    exact ⟨_, adds.claimedBy_error stage⟩

end Run

/-! ## What a file gives -/

namespace Converter

/-- The tree that a tree becomes when it goes through all steps in order. -/
def lowered (converter : Converter) (unit : SourceUnit) : Except Fault SourceUnit :=
  converter.passes.foldlM
    (fun unit pass => pass.run (converter.options.context converter.frontend.types) unit) unit

/-- The emitted text of a lowered tree. -/
def emitted (converter : Converter) (unit : SourceUnit) : Except Fault String :=
  Emit.unitText converter.options.style converter.frontend.types unit

/-- The name of the file that a file becomes. -/
def outputName (converter : Converter) (file : SourceFile) : String :=
  converter.options.style.outputName file.name

/-- The file that a file becomes, or the fault that stops it. -/
def converted (converter : Converter) (file : SourceFile) : Except Fault SourceFile := do
  let unit ← converter.frontend.tree file
  let lowered ← converter.lowered unit
  let contents ← converter.emitted lowered
  return ⟨converter.outputName file, contents⟩

/-- The file can be converted. -/
def converts (converter : Converter) (file : SourceFile) : Bool :=
  (converter.converted file).isOk

/-- The conditions of a file whose tree can be read, from the text of the script if the tree has
it, and from the file itself otherwise. -/
def conditions (converter : Converter) (file : SourceFile) : List SymbolReference :=
  match converter.frontend.tree file with
  | .ok unit => SymbolReference.collect file.name (unit.sourceText.getD file.contents)
  | .error _ => []

/-- What is said about the conditions of a file. -/
def conditionsFound (converter : Converter) (file : SourceFile) : List Diagnostic :=
  if (converter.conditions file).isEmpty then []
  else [symbolsFound file.name (converter.conditions file).length]

/-- The report of one file. Its conditions are kept even when it cannot be converted. -/
def fileReport (converter : Converter) (file : SourceFile) : Report :=
  match converter.converted file with
  | .ok output => ⟨[output], converter.conditionsFound file, converter.conditions file⟩
  | .error fault =>
    ⟨[], converter.conditionsFound file ++ [.ofFault file.name fault], converter.conditions file⟩

end Converter

/-! ## Stages -/

open Run Outcome

/-- The first stage mirrors the reading of a file. -/
theorem mirrors_frontendStage (frontend : Frontend) (file : SourceFile) :
    Mirrors ((frontendStage frontend).run file) file.name (do
      let unit ← frontend.tree file
      return ParsedUnit.mk file unit []) :=
  (mirrors_orAbort _ _ _).bind fun unit _ => mirrors_pure (ParsedUnit.mk file unit [])

/-- The stage of the steps mirrors the steps in order. -/
theorem mirrors_lower (context : Lowering.Context) (file : String)
    (passes : List Lowering.Rewrite) (unit : SourceUnit) :
    Mirrors (lower context file passes unit) file
      (passes.foldlM (fun unit pass => pass.run context unit) unit) := by
  induction passes generalizing unit with
  | nil => exact mirrors_pure unit
  | cons pass rest inductionHypothesis =>
    rw [List.foldlM_cons]
    exact (mirrors_orAbort _ _ _).bind fun next _ => inductionHypothesis next

namespace Converter

variable (converter : Converter)

/-- The stages that lower and emit a tree mirror the functions that do the work. -/
theorem mirrors_back (parsed : ParsedUnit) :
    Mirrors (converter.back.run parsed) parsed.file.name (do
      let lowered ← converter.lowered parsed.unit
      let contents ← converter.emitted lowered
      return ⟨converter.outputName parsed.file, contents⟩) := by
  have lowering : Mirrors _ parsed.file.name (do
      let unit ← converter.lowered parsed.unit
      return { parsed with unit }) :=
    ((mirrors_lower _ _ converter.passes parsed.unit).bind fun unit _ =>
      mirrors_pure { parsed with unit }).claimedBy "rewrite-passes"
  have emission (unit : SourceUnit) : Mirrors _ parsed.file.name (do
      let contents ← converter.emitted unit
      return SourceFile.mk (converter.outputName parsed.file) contents) :=
    ((mirrors_orAbort "emit" Fault.render _).bind fun contents _ =>
      mirrors_pure (SourceFile.mk (converter.outputName parsed.file) contents)).claimedBy "emit"
  have whole : Mirrors (converter.back.run parsed) parsed.file.name ((do
        let unit ← converter.lowered parsed.unit
        return { parsed with unit }) >>= fun finished => do
      let contents ← converter.emitted (ParsedUnit.unit finished)
      return SourceFile.mk (converter.outputName parsed.file) contents) := by
    refine Mirrors.bind lowering fun finished ends => ?_
    obtain ⟨unit, -, made⟩ := (gives_bind (m := Except Fault)).1 ends
    obtain rfl := gives_pure.1 made
    exact emission unit
  simpa only [bind_assoc, pure_bind] using whole

/-- A file whose tree cannot be read is reported. -/
theorem adds_front_error {file : SourceFile} {fault : Fault}
    (unread : converter.frontend.tree file = .error fault) :
    ∃ failure, Adds (converter.front.run file) (.error failure) [.ofFault file.name fault] := by
  have reading := (mirrors_frontendStage converter.frontend file).claimedBy "frontend"
  obtain ⟨failure, adds⟩ := reading.adds_error (by rw [unread]; rfl)
  exact ⟨failure, Adds.bind_error adds⟩

/-- The stage of the conditions keeps the tree, and reports what is said about them. -/
theorem adds_symbolStage {file : SourceFile} {unit : SourceUnit}
    (read : converter.frontend.tree file = .ok unit) :
    Adds (symbolStage.run ⟨file, unit, []⟩) (.ok ⟨file, unit, converter.conditions file⟩)
      (converter.conditionsFound file) := by
  have collected : SymbolReference.collect file.name (unit.sourceText.getD file.contents) =
      converter.conditions file := by rw [conditions, read]
  simp only [symbolStage, collected, conditionsFound]
  cases converter.conditions file with
  | nil => exact adds_pure _
  | cons first rest => exact Adds.bind (adds_report _) (adds_pure _)

/-- A file whose tree can be read goes on with its conditions. -/
theorem adds_front {file : SourceFile} {unit : SourceUnit}
    (read : converter.frontend.tree file = .ok unit) :
    Adds (converter.front.run file) (.ok ⟨file, unit, converter.conditions file⟩)
      (converter.conditionsFound file) := by
  have reading := (mirrors_frontendStage converter.frontend file).claimedBy "frontend"
  have collecting := (converter.adds_symbolStage read).claimedBy "preprocessor-symbols"
  exact Adds.bind (reading.adds (by rw [read]; rfl)) collecting

end Converter

/-! ## Reports -/

namespace Report

/-- A report with another one behind it. -/
def append (first second : Report) : Report :=
  ⟨first.outputs ++ second.outputs, first.diagnostics ++ second.diagnostics,
    first.symbols ++ second.symbols⟩

/-- Reports in a row can be put together in any order. -/
theorem append_assoc (first second third : Report) :
    (first.append second).append third = first.append (second.append third) := by
  simp [append]

/-- The empty report adds nothing in front. -/
theorem empty_append (report : Report) : empty.append report = report := rfl

/-- The empty report adds nothing behind. -/
theorem append_empty (report : Report) : report.append empty = report := by
  simp [append, empty]

/-- The report of a batch whose files were all left out. -/
def skippedAll (files : List SourceFile) : Report :=
  ⟨[], files.map Converter.skipped, []⟩

end Report

namespace Converter

variable (converter : Converter)

/-- A file adds to a report what it gives alone. -/
theorem convertFile_eq (report : Report) (file : SourceFile) :
    converter.convertFile report file =
      (converter.converts file, report.append (converter.fileReport file)) := by
  unfold convertFile
  cases read : converter.frontend.tree file with
  | error fault =>
    obtain ⟨failure, adds⟩ := converter.adds_front_error read
    have stopped : converter.converted file = .error fault := by rw [converted, read]; rfl
    simp [adds report.diagnostics, converts, fileReport, stopped, conditionsFound, conditions, read,
      Report.append, Except.isOk, Except.toBool]
  | ok unit =>
    have whole : Mirrors (converter.back.run ⟨file, unit, converter.conditions file⟩) file.name
        (converter.converted file) := by
      rw [converted, read]
      exact converter.mirrors_back ⟨file, unit, converter.conditions file⟩
    simp only [converter.adds_front read report.diagnostics]
    cases ends : converter.converted file with
    | ok output =>
      simp [whole.adds ends _, converts, fileReport, ends, Report.append, Except.isOk,
        Except.toBool]
    | error fault =>
      obtain ⟨failure, adds⟩ := whole.adds_error ends
      simp [adds _, converts, fileReport, ends, Report.append, Except.isOk, Except.toBool]

/-- A batch goes on behind a file unless the file fails and the converter is strict. -/
theorem resume_cons (report : Report) (file : SourceFile) (rest : List SourceFile) :
    converter.resume report (file :: rest) =
      if converter.converts file || converter.options.continueOnError then
        converter.resume (report.append (converter.fileReport file)) rest
      else (report.append (converter.fileReport file)).append (.skippedAll rest) := by
  simp only [resume, converter.convertFile_eq]
  split_ifs
  · rfl
  · simp [Report.append, Report.skippedAll]

/-- A batch goes on as if nothing had been reported before. -/
theorem resume_eq (report : Report) (files : List SourceFile) :
    converter.resume report files = report.append (converter.convert files) := by
  induction files generalizing report with
  | nil => exact (report.append_empty).symm
  | cons file rest inductionHypothesis =>
    simp only [convert, resume_cons, Report.empty_append]
    split_ifs
    · rw [inductionHypothesis, inductionHypothesis, Report.append_assoc]
    · rw [Report.append_assoc]

/-- The first file of a batch decides about the others only by failing. -/
theorem convert_cons (file : SourceFile) (rest : List SourceFile) :
    converter.convert (file :: rest) = (converter.fileReport file).append
      (if converter.converts file || converter.options.continueOnError then converter.convert rest
      else .skippedAll rest) := by
  rw [convert, resume_cons, Report.empty_append]
  split_ifs
  · rw [resume_eq]
  · rfl

end Converter

end ScriptSharp.Batch
