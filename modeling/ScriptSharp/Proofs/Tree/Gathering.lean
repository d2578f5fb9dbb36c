import ScriptSharp.Proofs.Tree.Matching

/-!
# What is found in a tree

`Node.gather` lists what is found at the nodes of a tree, in the order of the source.
-/

namespace ScriptSharp

namespace Node

variable {ρ α β : Type} {below : ρ → Node → ρ} {found : ρ → Node → List α} {env : ρ}

/-- What `found` gives at the node and at everything below it, each node before its parts. What
surrounds a node is carried down from the root: below a node it is what `below` makes of it. -/
def gather (below : ρ → Node → ρ) (found : ρ → Node → List α) (env : ρ) (node : Node) : List α :=
  found env node ++
    node.children.attach.flatMap fun child => gather below found (below env node) child.1
termination_by sizeOf node
decreasing_by exact Node.sizeOf_child_lt child.2

/-- What a node gathers is found at the node and gathered from its children. -/
theorem gather_eq (env : ρ) (node : Node) : gather below found env node =
    found env node ++ node.children.flatMap (gather below found (below env node)) := by
  rw [gather, List.flatMap_subtype, List.unattach_attach]
  exact fun _ _ => rfl

/-- What is true of a node in its surroundings is true of all that is found there. -/
theorem Everywhere.forall_gather {holds : ρ → Node → Prop} {good : α → Prop} {node : Node}
    (everywhere : Everywhere below holds env node)
    (here : ∀ {env node}, holds env node → ∀ item ∈ found env node, good item) :
    ∀ item ∈ gather below found env node, good item := by
  induction everywhere with
  | node holdsHere _ inductionHypothesis =>
    intro item member
    rw [gather_eq] at member
    rcases List.mem_append.1 member with atNode | atChild
    · exact here holdsHere item atNode
    · obtain ⟨child, childOf, inChild⟩ := List.mem_flatMap.1 atChild
      exact inductionHypothesis child childOf item inChild

/-- What is found in the parts of a matching node comes from the parts, one by one. -/
theorem Matches.flatMap {source result : Node} {before : Node → List α} {after : Node → List β}
    {change : α → β}
    (matched : Matches (fun _ child replacement => after replacement = (before child).map change)
      source result) :
    result.children.flatMap after = (source.children.flatMap before).map change := by
  obtain ⟨-, parts⟩ := matched
  simp only [children, List.flatMap_map]
  generalize source.parts = sources at parts ⊢
  generalize result.parts = results at parts ⊢
  induction parts with
  | nil => rfl
  | cons first _ inductionHypothesis =>
    rw [List.flatMap_cons, List.flatMap_cons, List.map_append, inductionHypothesis, first.2]

end Node

end ScriptSharp
