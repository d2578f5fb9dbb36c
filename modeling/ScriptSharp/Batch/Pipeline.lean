import ScriptSharp.Source.Diagnostic

/-!
# Pipelines

A stage takes a value on to the next stage, and reports diagnostics on the way. A pipeline runs
stages one behind the other; the first one that fails ends the run and gives the failure its name.
-/

namespace ScriptSharp.Batch

/-- The failure of a stage. -/
structure StageFailure where
  stage : String
  message : String
  deriving DecidableEq, Repr

namespace StageFailure

/-- The text of a failure. -/
def render (failure : StageFailure) : String :=
  "[" ++ failure.stage ++ "] " ++ failure.message

end StageFailure

/-- A computation that reports diagnostics and can fail. What it has reported stays when it
fails. -/
abbrev Run (α : Type) := ExceptT StageFailure (StateM (List Diagnostic)) α

namespace Run

variable {α : Type}

/-- Reports a diagnostic. -/
def report (diagnostic : Diagnostic) : Run Unit :=
  modify (· ++ [diagnostic])

/-- The result of a computation that starts with the given diagnostics, and the diagnostics
behind it. -/
def outcome (run : Run α) (diagnostics : List Diagnostic) :
    Except StageFailure α × List Diagnostic :=
  StateT.run (ExceptT.run run) diagnostics

/-- Gives a failure the name of the stage that it leaves. -/
def claimedBy (stage : String) (run : Run α) : Run α :=
  tryCatch run fun failure => throw { failure with stage }

end Run

/-- A stage of a pipeline. -/
structure Stage (α β : Type) where
  name : String
  run : α → Run β

/-- Stages that run one behind the other. -/
structure Pipeline (α β : Type) where
  /-- The names of the stages. -/
  stages : List String
  run : α → Run β

namespace Pipeline

variable {α β γ : Type}

/-- The pipeline without stages. -/
def empty : Pipeline α α := ⟨[], pure⟩

/-- A pipeline with one more stage at its end. -/
def add (pipeline : Pipeline α β) (stage : Stage β γ) : Pipeline α γ where
  stages := pipeline.stages ++ [stage.name]
  run input := do
    let value ← pipeline.run input
    (stage.run value).claimedBy stage.name

end Pipeline

end ScriptSharp.Batch
