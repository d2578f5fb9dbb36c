import ScriptSharp.Proofs.Tree.Effects

/-!
# Occurrences of expressions

An expression occurs in a tree at the end of a path that leads down to it. Paths are ordered like
the words of a dictionary: a path comes before the paths that go on from it, and parts further left
come first. So the order of paths is the order in which a tree is read, each node before its parts.

`Node.Lists` says of a list that it has every occurrence of an expression once, in this order. The
expressions of a tree are listed in this way, by `Node.lists_occurrences` and
`Node.map_occurrences`. No part of a node is without a path, since the node can be made again from
its shell and its parts: `Node.eq_of_shell_of_parts`.
-/

namespace ScriptSharp

/-- The way from a node down to another one: the number of the part to take at each step. -/
abbrev Path := List Nat

namespace Node

/-- The node at the end of a path. -/
def at? (node : Node) : Path → Option Node
  | [] => some node
  | index :: rest => node.children[index]?.bind fun child => child.at? rest

/-- The list has every expression at or below the node with its path, and the paths increase. So it
has each occurrence once. -/
structure Lists (node : Node) (occurrences : List (Path × Expr)) : Prop where
  ordered : occurrences.Pairwise fun first second => first.1 < second.1
  mem_iff {path : Path} {expr : Expr} :
    (path, expr) ∈ occurrences ↔ node.at? path = some (.expr expr)

/-- An occurrence below one of the parts, seen from the node. -/
def underPart (index : Nat) (occurrence : Path × Expr) : Path × Expr :=
  (index :: occurrence.1, occurrence.2)

/-- The expressions at or below a node with their paths, each node before its parts. -/
def occurrences (node : Node) : List (Path × Expr) :=
  node.expr?.toList.map (fun expr => ([], expr)) ++
    node.children.attach.zipIdx.flatMap fun part => (occurrences part.1.1).map (underPart part.2)
termination_by sizeOf node
decreasing_by exact Node.sizeOf_child_lt part.1.2

/-- The occurrences in a node are the node, when it is an expression, and those in its children. -/
theorem occurrences_eq (node : Node) : node.occurrences =
    node.expr?.toList.map (fun expr => ([], expr)) ++
      node.children.zipIdx.flatMap fun part => part.1.occurrences.map (underPart part.2) := by
  rw [occurrences]
  conv_rhs => rw [← List.attach_map_subtype_val node.children, List.zipIdx_map, List.flatMap_map]
  rfl

/-- An expression occurs on a path when it stands there. -/
theorem mem_occurrences_iff {node : Node} {path : Path} {expr : Expr} :
    (path, expr) ∈ node.occurrences ↔ node.at? path = some (.expr expr) := by
  induction path generalizing node with
  | nil =>
    -- The paths below the parts are not empty.
    rw [occurrences_eq]
    cases node <;> simp [expr?, underPart, at?, eq_comm]
  | cons index rest inductionHypothesis =>
    rw [occurrences_eq, at?, Option.bind_eq_some_iff]
    simp [underPart, inductionHypothesis, List.mem_zipIdx_iff_getElem?]

/-- The nodes of a list are numbered upwards. -/
theorem pairwise_zipIdx (nodes : List Node) :
    nodes.zipIdx.Pairwise fun first second => first.2 < second.2 := by
  rw [← List.pairwise_map (f := Prod.snd) (R := (· < ·)), List.zipIdx_map_snd]
  exact List.pairwise_lt_range'

/-- A node with its index is one of the nodes. -/
theorem mem_of_mem_zipIdx {nodes : List Node} {part : Node × Nat} (member : part ∈ nodes.zipIdx) :
    part.1 ∈ nodes :=
  List.mem_of_getElem? (List.mem_zipIdx_iff_getElem?.1 member)

/-- The paths increase: those of a part all start with its number, and the number of the part
decides between paths into different parts. -/
theorem pairwise_occurrences (node : Node) :
    node.occurrences.Pairwise fun first second => first.1 < second.1 := by
  induction node using Node.induct with
  | step node inductionHypothesis =>
    rw [occurrences_eq, List.pairwise_append, List.pairwise_flatMap]
    refine ⟨?own, ⟨?within, ?across⟩, ?down⟩
    case own => cases node <;> simp [expr?]
    case within =>
      intro part member
      rw [List.pairwise_map]
      refine (inductionHypothesis part.1 (mem_of_mem_zipIdx member)).imp fun smaller => ?_
      exact List.cons_lt_cons_iff.2 (.inr ⟨rfl, smaller⟩)
    case across =>
      refine (pairwise_zipIdx node.children).imp fun smaller first firstOf second secondOf => ?_
      obtain ⟨_, -, rfl⟩ := List.mem_map.1 firstOf
      obtain ⟨_, -, rfl⟩ := List.mem_map.1 secondOf
      exact List.cons_lt_cons_iff.2 (.inl smaller)
    case down =>
      intro own ownOf inner innerOf
      obtain ⟨_, -, rfl⟩ := List.mem_map.1 ownOf
      obtain ⟨_, -, inPart⟩ := List.mem_flatMap.1 innerOf
      obtain ⟨_, -, rfl⟩ := List.mem_map.1 inPart
      exact List.nil_lt_cons _ _

/-- Without the paths, these are the expressions of the node. -/
theorem map_occurrences (node : Node) : node.occurrences.map (·.2) = node.subexpressions := by
  induction node using Node.induct with
  | step node inductionHypothesis =>
    have parts : node.children.flatMap subexpressions =
        node.children.zipIdx.flatMap fun part => part.1.occurrences.map (·.2) := by
      conv_lhs => rw [← List.zipIdx_map_fst 0 node.children, List.flatMap_map]
      refine List.flatMap_congr fun part member => ?_
      exact (inductionHypothesis part.1 (mem_of_mem_zipIdx member)).symm
    rw [occurrences_eq, subexpressions_eq, parts, List.map_append, List.map_flatMap]
    simp [Function.comp_def, underPart]

/-- The occurrences list each expression of a node once, in order. -/
theorem lists_occurrences (node : Node) : node.Lists node.occurrences :=
  ⟨pairwise_occurrences node, mem_occurrences_iff⟩

end Node

end ScriptSharp
