import ScriptSharp.Lowering.KnownApi

/-!
# What lowering depends on
-/

namespace ScriptSharp.Lowering

/-- What all steps of a batch share. -/
structure Context where
  types : TypeTable
  knownApis : List KnownApi
  /-- Every declared class is marked as serializable. -/
  serializableClasses : Bool

end ScriptSharp.Lowering
