import ScriptSharp.Types.Table

/-!
# Subtyping

A type is below every type that it reaches through base types and interfaces, itself included. The
links come from outside and may form cycles or leave the table, so the search keeps the handles
that it has expanded.
-/

namespace ScriptSharp.TypeTable

/-- The handles one step above a handle. A handle outside the table has none. -/
def supertypes (table : TypeTable) (id : TypeId) : List TypeId :=
  match table.get? id with
  | some info => info.supertypes
  | none => []

/-- The number of links of the table. -/
def linkCount (table : TypeTable) : Nat :=
  (table.entries.flatMap (·.info.supertypes)).length

/-- Looks for `target` among the pending handles and everything above them, where `visited` has
been expanded already. Each step takes one pending handle, so the fuel bounds their number. -/
def reaches (table : TypeTable) (target : TypeId) :
    Nat → List TypeId → List TypeId → Bool
  | 0, _, _ => false
  | _ + 1, [], _ => false
  | fuel + 1, id :: pending, visited =>
    if id = target then true
    else if id ∈ visited then table.reaches target fuel pending visited
    else table.reaches target fuel (table.supertypes id ++ pending) (id :: visited)

/-- Whether `source` is `target` or below it. Every entry is expanded at most once, so no more
handles become pending than the table has links, besides the first one. -/
def isSubtype (table : TypeTable) (source target : TypeId) : Bool :=
  table.reaches target (table.linkCount + 2) [source] []

end ScriptSharp.TypeTable
