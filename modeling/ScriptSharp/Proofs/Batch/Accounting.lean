import ScriptSharp.Proofs.Batch.Composition

/-!
# Every file is accounted for

A file of a batch is converted, stopped by a fault, or left out behind another one that failed. Each
of these fates shows in the report in its own way, so the report accounts for every file once:
`Converter.convert_accounts` takes it apart into what the single files contributed, and counts
outputs, errors and warnings by the fates.
-/

namespace ScriptSharp.Batch

/-- What becomes of a file. -/
inductive Fate where
  /-- It is converted into this file. -/
  | converted (output : SourceFile)
  /-- This fault stops it. -/
  | aborted (fault : Fault)
  /-- It is left out, since another file failed before it. -/
  | skipped

namespace Fate

/-- The file that a file is converted into. -/
def output? : Fate → Option SourceFile
  | .converted output => some output
  | .aborted _ | .skipped => none

/-- A fault stopped the file. -/
def isAborted : Fate → Bool
  | .aborted _ => true
  | .converted _ | .skipped => false

/-- The file was left out. -/
def isSkipped : Fate → Bool
  | .skipped => true
  | .converted _ | .aborted _ => false

end Fate

namespace Report

/-- The errors of a report. -/
def errors (report : Report) : List Diagnostic :=
  report.diagnostics.filter Diagnostic.isError

/-- The warnings of a report. -/
def warnings (report : Report) : List Diagnostic :=
  report.diagnostics.filter (·.severity == .warning)

/-- Reports one behind the other. -/
def concat (parts : List Report) : Report := parts.foldr append empty

end Report

/-- What a file with its fate contributes to a report: one output, or one error with the name of
the file and the code of the fault, or one warning, and nothing else of these. -/
def Accounts : SourceFile × Fate → Report → Prop
  | (_, .converted output), part => part.outputs = [output] ∧ part.errors = [] ∧ part.warnings = []
  | (file, .aborted fault), part => part.outputs = [] ∧ part.warnings = [] ∧
    ∃ error, part.errors = [error] ∧ error.file = some file.name ∧ error.code = some fault.code
  | (file, .skipped), part => part.outputs = [] ∧ part.errors = [] ∧
    ∃ warning, part.warnings = [warning] ∧ warning.file = some file.name

namespace Converter

variable (converter : Converter)

/-- What becomes of a file that stands behind `earlier` ones. -/
def fate (earlier : List SourceFile) (file : SourceFile) : Fate :=
  if converter.options.continueOnError = false ∧
      ∃ other ∈ earlier, converter.converts other = false then .skipped
  else
    match converter.converted file with
    | .ok output => .converted output
    | .error fault => .aborted fault

/-- The files of a batch in order, each with what becomes of it. -/
def ledger (files : List SourceFile) : List (SourceFile × Fate) :=
  files.mapIdx fun index file => (file, converter.fate (files.take index) file)

/-! ## Fates -/

/-- A file that does not stop a batch changes nothing for the files behind it. -/
theorem fate_cons_of_goesOn {first : SourceFile}
    (goesOn : (converter.converts first || converter.options.continueOnError) = true)
    (earlier : List SourceFile) (file : SourceFile) :
    converter.fate (first :: earlier) file = converter.fate earlier file := by
  have same : (converter.options.continueOnError = false ∧
      ∃ other ∈ first :: earlier, converter.converts other = false) ↔
      converter.options.continueOnError = false ∧
        ∃ other ∈ earlier, converter.converts other = false := by
    simp only [List.exists_mem_cons_iff]
    grind
  simp only [fate, same]

/-- Behind a file that stops a batch, files are left out. -/
theorem fate_cons_of_stops {first : SourceFile}
    (stops : (converter.converts first || converter.options.continueOnError) = false)
    (earlier : List SourceFile) (file : SourceFile) :
    converter.fate (first :: earlier) file = .skipped := by
  obtain ⟨fails, strict⟩ := Bool.or_eq_false_iff.1 stops
  exact if_pos ⟨strict, first, List.mem_cons_self, fails⟩

/-- The first file has its fate. Those behind it are left out if it fails and the converter is
strict. -/
theorem ledger_cons (file : SourceFile) (rest : List SourceFile) :
    converter.ledger (file :: rest) = (file, converter.fate [] file) ::
      if converter.converts file || converter.options.continueOnError then converter.ledger rest
      else rest.map fun other => (other, .skipped) := by
  rw [ledger, List.mapIdx_cons]
  refine congrArg _ ?_
  split_ifs with goesOn
  · simp only [List.take_succ_cons, converter.fate_cons_of_goesOn goesOn]
    rfl
  · simp only [List.take_succ_cons, converter.fate_cons_of_stops (by simpa using goesOn)]
    exact List.ext_getElem (by simp) fun _ _ _ => by simp

/-! ## What the files contribute -/

/-- What is said about conditions is no error. -/
theorem conditionsFound_noErrors (file : SourceFile) :
    (converter.conditionsFound file).filter Diagnostic.isError = [] := by
  unfold conditionsFound
  split_ifs <;> rfl

/-- What is said about conditions is no warning. -/
theorem conditionsFound_noWarnings (file : SourceFile) :
    (converter.conditionsFound file).filter (·.severity == .warning) = [] := by
  unfold conditionsFound
  split_ifs <;> rfl

/-- The report of a file that is not left out shows its fate. -/
theorem accounts_fileReport (file : SourceFile) :
    Accounts (file, converter.fate [] file) (converter.fileReport file) := by
  have fate : converter.fate [] file = match converter.converted file with
      | .ok output => .converted output
      | .error fault => .aborted fault := if_neg (by simp)
  have noErrors := converter.conditionsFound_noErrors file
  have noWarnings := converter.conditionsFound_noWarnings file
  rw [fate]
  cases ends : converter.converted file with
  | ok output =>
    simp only [Accounts, fileReport, ends, Report.errors, Report.warnings]
    exact ⟨trivial, noErrors, noWarnings⟩
  | error fault =>
    simp only [Accounts, fileReport, ends, Report.errors, Report.warnings,
      List.filter_append, noErrors, noWarnings]
    exact ⟨trivial, rfl, _, rfl, rfl, rfl⟩

/-- Files that are left out show by their warnings. -/
theorem accounts_skippedAll (files : List SourceFile) :
    ∃ parts, Report.skippedAll files = .concat parts ∧
      List.Forall₂ Accounts (files.map fun file => (file, Fate.skipped)) parts := by
  refine ⟨files.map fun file => ⟨[], [skipped file], []⟩, ?_, ?_⟩
  · induction files with
    | nil => rfl
    | cons file rest inductionHypothesis =>
      rw [List.map_cons, Report.concat, List.foldr_cons, ← Report.concat, ← inductionHypothesis]
      rfl
  · rw [List.forall₂_map_left_iff, List.forall₂_map_right_iff, List.forall₂_same]
    exact fun file _ => ⟨rfl, rfl, skipped file, rfl, rfl⟩

/-- The report of a batch is put together from one part for each file, which shows the fate of the
file. -/
theorem accounts_convert (files : List SourceFile) :
    ∃ parts, converter.convert files = .concat parts ∧
      List.Forall₂ Accounts (converter.ledger files) parts := by
  induction files with
  | nil => exact ⟨[], rfl, .nil⟩
  | cons file rest inductionHypothesis =>
    have first := converter.accounts_fileReport file
    rw [convert_cons, ledger_cons]
    split_ifs with goesOn
    · obtain ⟨parts, whole, accounts⟩ := inductionHypothesis
      exact ⟨converter.fileReport file :: parts, by rw [whole]; rfl, .cons first accounts⟩
    · obtain ⟨parts, whole, accounts⟩ := accounts_skippedAll rest
      exact ⟨converter.fileReport file :: parts, by rw [whole]; rfl, .cons first accounts⟩

end Converter

/-! ## Counting -/

namespace Report

variable {entries : List (SourceFile × Fate)} {parts : List Report}

/-- The count of errors is the number of errors. -/
theorem errorCount_eq (report : Report) : report.errorCount = report.errors.length :=
  List.countP_eq_length_filter

/-- A report has errors if it counts some. -/
theorem hasErrors_iff (report : Report) : report.hasErrors = true ↔ 0 < report.errorCount := by
  rw [hasErrors, errorCount, List.any_eq_true, List.countP_pos_iff]

/-- A report in front is put in front. -/
@[simp]
theorem concat_cons (part : Report) (parts : List Report) :
    concat (part :: parts) = part.append (concat parts) := rfl

/-- Reports in a row have the errors of both. -/
@[simp]
theorem errors_append (first second : Report) :
    (first.append second).errors = first.errors ++ second.errors :=
  List.filter_append ..

/-- Reports in a row have the warnings of both. -/
@[simp]
theorem warnings_append (first second : Report) :
    (first.append second).warnings = first.warnings ++ second.warnings :=
  List.filter_append ..

/-- A batch puts out the files that its files are converted into. -/
theorem outputs_concat (accounts : List.Forall₂ Accounts entries parts) :
    (concat parts).outputs = entries.filterMap fun entry => entry.2.output? := by
  induction accounts with
  | nil => rfl
  | @cons entry part _ _ first _ inductionHypothesis =>
    have here : part.outputs = entry.2.output?.toList := by
      obtain ⟨file, _ | _ | _⟩ := entry <;> exact first.1
    rw [concat_cons, append, here, inductionHypothesis, List.filterMap_cons]
    cases entry.2.output? <;> rfl

/-- A batch has one error for each file that a fault stopped. -/
theorem errors_concat_length (accounts : List.Forall₂ Accounts entries parts) :
    (concat parts).errors.length = entries.countP fun entry => entry.2.isAborted := by
  induction accounts with
  | nil => rfl
  | @cons entry part _ _ first _ inductionHypothesis =>
    rw [concat_cons, errors_append, List.length_append, inductionHypothesis, List.countP_cons]
    obtain ⟨file, output | fault | _⟩ := entry
    · simp [first.2.1, Fate.isAborted]
    · obtain ⟨-, -, error, only, -⟩ := first
      simp [only, Fate.isAborted, Nat.add_comm]
    · simp [first.2.1, Fate.isAborted]

/-- A batch has one warning for each file that was left out. -/
theorem warnings_concat_length (accounts : List.Forall₂ Accounts entries parts) :
    (concat parts).warnings.length = entries.countP fun entry => entry.2.isSkipped := by
  induction accounts with
  | nil => rfl
  | @cons entry part _ _ first _ inductionHypothesis =>
    rw [concat_cons, warnings_append, List.length_append, inductionHypothesis, List.countP_cons]
    obtain ⟨file, output | fault | _⟩ := entry
    · simp [first.2.2, Fate.isSkipped]
    · simp [first.2.1, Fate.isSkipped]
    · obtain ⟨-, -, warning, only, -⟩ := first
      simp [only, Fate.isSkipped, Nat.add_comm]

end Report

/-- Each file has exactly one of the three fates. -/
theorem Fate.counts (entries : List (SourceFile × Fate)) :
    (entries.filterMap fun entry => entry.2.output?).length +
      entries.countP (fun entry => entry.2.isAborted) +
      entries.countP (fun entry => entry.2.isSkipped) = entries.length := by
  induction entries with
  | nil => rfl
  | cons entry rest inductionHypothesis =>
    rw [List.filterMap_cons, List.countP_cons, List.countP_cons, List.length_cons,
      ← inductionHypothesis]
    obtain ⟨file, output | fault | _⟩ := entry <;> grind [output?, isAborted, isSkipped]

namespace Converter

/-- How the report of a batch accounts for its files. -/
structure Accounted (converter : Converter) (files : List SourceFile) : Prop where
  /-- The report falls apart into one part for each file, which shows the fate of the file. -/
  parts : ∃ parts, converter.convert files = .concat parts ∧
    List.Forall₂ Accounts (converter.ledger files) parts
  /-- The outputs stand in the order of the files. -/
  outputs : (converter.convert files).outputs =
    (converter.ledger files).filterMap fun entry => entry.2.output?
  /-- There are as many errors as files that were stopped. -/
  errorCount : (converter.convert files).errorCount =
    (converter.ledger files).countP fun entry => entry.2.isAborted
  /-- Outputs, errors and warnings add up to the files. -/
  total : (converter.convert files).outputs.length + (converter.convert files).errorCount +
    (converter.convert files).warnings.length = files.length
  /-- There are errors when a file was stopped, and only then. -/
  hasErrors : (converter.convert files).hasErrors = true ↔
    ∃ entry ∈ converter.ledger files, entry.2.isAborted = true

/-- Whatever front end, settings and steps a batch is converted with, its report accounts for each
file once. -/
theorem convert_accounts (converter : Converter) (files : List SourceFile) :
    converter.Accounted files := by
  obtain ⟨parts, whole, accounts⟩ := converter.accounts_convert files
  have outputs : (converter.convert files).outputs =
      (converter.ledger files).filterMap fun entry => entry.2.output? := by
    rw [whole, Report.outputs_concat accounts]
  have errorCount : (converter.convert files).errorCount =
      (converter.ledger files).countP fun entry => entry.2.isAborted := by
    rw [Report.errorCount_eq, whole, Report.errors_concat_length accounts]
  have warnings : (converter.convert files).warnings.length =
      (converter.ledger files).countP fun entry => entry.2.isSkipped := by
    rw [whole, Report.warnings_concat_length accounts]
  exact {
    parts := ⟨parts, whole, accounts⟩
    outputs
    errorCount
    total := by
      rw [outputs, errorCount, warnings, Fate.counts, ledger, List.length_mapIdx]
    hasErrors := by
      rw [Report.hasErrors_iff, errorCount, List.countP_pos_iff] }

end Converter

end ScriptSharp.Batch
