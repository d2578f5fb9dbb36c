import ScriptSharp.Proofs.Tree.Node

/-!
# Trees that differ in their parts

A step that works node by node keeps the shell of a node and replaces its parts. `Node.Matches`
says so of two nodes, for a given relation of the parts. Nodes whose parts are equal are equal, so
two results are compared by comparing what was put in for each part.

`Node.Everywhere` is a property of all nodes of a tree that depends on what surrounds them.
-/

namespace ScriptSharp

namespace Node

/-! ## Properties of all nodes -/

/-- `holds` is true of the node and of everything below it. What surrounds a node is carried
down from the root: below a node it is what `below` makes of it there. -/
inductive Everywhere {ρ : Type} (below : ρ → Node → ρ) (holds : ρ → Node → Prop) :
    ρ → Node → Prop where
  | node {env : ρ} {node : Node} (here : holds env node)
      (inside : ∀ child ∈ node.children, Everywhere below holds (below env node) child) :
      Everywhere below holds env node

/-- `holds` is true of the node and of everything below it. -/
abbrev Throughout (holds : Node → Prop) : Node → Prop :=
  Everywhere (fun _ _ => ()) (fun _ => holds) ()

namespace Everywhere

variable {ρ : Type} {below : ρ → Node → ρ} {holds : ρ → Node → Prop} {env : ρ} {node child : Node}

/-- What is true everywhere is true at the root. -/
theorem here (everywhere : Everywhere below holds env node) : holds env node := by
  cases everywhere
  assumption

/-- What is true everywhere is true everywhere in a part. -/
theorem inside (everywhere : Everywhere below holds env node) (member : child ∈ node.children) :
    Everywhere below holds (below env node) child := by
  cases everywhere with
  | node _ inside => exact inside child member

/-- A property of all nodes is one of the node and of all nodes below each part. -/
theorem iff_here_inside : Everywhere below holds env node ↔
    holds env node ∧ ∀ child ∈ node.children, Everywhere below holds (below env node) child :=
  ⟨fun everywhere => ⟨everywhere.here, fun _ member => everywhere.inside member⟩,
    fun both => .node both.1 both.2⟩

/-- Decides a property of all nodes of a tree of at most `depth` levels. Deeper trees fail. -/
def check (below : ρ → Node → ρ) (holds : ρ → Node → Prop)
    [∀ env node, Decidable (holds env node)] : Nat → ρ → Node → Bool
  | 0, _, _ => false
  | depth + 1, env, node =>
    decide (holds env node) && node.children.all (check below holds depth (below env node))

/-- What a check down to some depth confirms is true everywhere. -/
theorem of_check [∀ env node, Decidable (holds env node)] (depth : Nat)
    (checked : check below holds depth env node = true) : Everywhere below holds env node := by
  induction depth generalizing env node with
  | zero => simp [check] at checked
  | succ depth inductionHypothesis =>
    obtain ⟨here, inside⟩ := Bool.and_eq_true_iff.1 checked
    refine .node (of_decide_eq_true here) fun child member => ?_
    exact inductionHypothesis (List.all_eq_true.1 inside child member)

end Everywhere

/-- What is true throughout a node is true of it and throughout its parts. -/
theorem throughout_iff {holds : Node → Prop} {node : Node} : Throughout holds node ↔
    holds node ∧ ∀ child ∈ node.children, Throughout holds child :=
  Everywhere.iff_here_inside

end Node

/-! ## Nodes with the same shell -/

/-- An item of one of two related lists is related to an item of the other one. -/
theorem exists_related {α β : Type} {related : α → β → Prop} {sources : List α} {results : List β}
    (items : List.Forall₂ related sources results) {after : β} (member : after ∈ results) :
    ∃ before ∈ sources, related before after := by
  induction items with
  | nil => simp at member
  | cons first _ inductionHypothesis =>
    rcases List.mem_cons.1 member with rfl | later
    · exact ⟨_, List.mem_cons_self, first⟩
    · obtain ⟨before, beforeOf, holds⟩ := inductionHypothesis later
      exact ⟨before, List.mem_cons_of_mem _ beforeOf, holds⟩

/-- The parts hang in the same way below their nodes, and the nodes there are related. -/
def Part.Related (related : Slot → Node → Node → Prop) (before after : Part) : Prop :=
  before.1 = after.1 ∧ related before.1 before.2 after.2

/-- Parts are related one by one when they hang in the same way below their nodes and the nodes
there are related one by one. -/
theorem Part.forall₂_related_iff {related : Node → Node → Prop} {before after : List Part} :
    List.Forall₂ (Part.Related fun _ => related) before after ↔
      before.map (·.1) = after.map (·.1) ∧
        List.Forall₂ related (before.map (·.2)) (after.map (·.2)) := by
  induction before generalizing after with
  | nil => cases after <;> simp
  | cons first rest inductionHypothesis =>
    cases after with
    | nil => simp
    | cons other others =>
      simp only [List.forall₂_cons, List.map_cons, List.cons.injEq, inductionHypothesis,
        Part.Related]
      tauto

/-! Pieces that are related part by part leave the same placeholders. -/

section Holes

variable {α β : Type} {related : Part → Part → Prop} {part : α → Part} {hole : β}

/-- Lists whose parts are related one by one have the same length. -/
theorem Part.holes_eq {items replacements : List α}
    (parts : List.Forall₂ related (items.map part) (replacements.map part)) :
    items.map (fun _ => hole) = replacements.map fun _ => hole := by
  simpa using parts.length_eq

/-- Values whose parts are related are both present or both absent. -/
theorem Part.optional_holes_eq {item replacement : Option α}
    (parts : List.Forall₂ related (item.toList.map part) (replacement.toList.map part)) :
    item.map (fun _ => hole) = replacement.map fun _ => hole := by
  cases item <;> cases replacement <;> simp_all

/-- Blocks whose parts are related one by one are alike up to their statements. -/
theorem Part.block_holes_eq {items replacements : Option (List α)}
    (samePresence : items.isSome = replacements.isSome)
    (parts : List.Forall₂ related ((items.getD []).map part) ((replacements.getD []).map part)) :
    items.map (·.map fun _ => hole) = replacements.map (·.map fun _ => hole) := by
  have sameLength := parts.length_eq
  cases items <;> cases replacements <;> simp_all

end Holes

namespace Node

/-- The nodes have the same shell, and their parts are related one by one. -/
structure Matches (related : Slot → Node → Node → Prop) (source result : Node) : Prop where
  shell : source.shell = result.shell
  parts : List.Forall₂ (Part.Related related) source.parts result.parts

namespace Matches

variable {related other : Slot → Node → Node → Prop} {source middle result : Node}

/-- Every part of the result comes from a part of the source. -/
theorem exists_source (matched : Matches related source result) {child : Node}
    (member : child ∈ result.children) :
    ∃ slot, ∃ origin ∈ source.children, related slot origin child := by
  obtain ⟨after, afterOf, rfl⟩ := List.mem_map.1 member
  obtain ⟨before, beforeOf, -, holds⟩ := exists_related matched.parts afterOf
  exact ⟨before.1, before.2, List.mem_map_of_mem beforeOf, holds⟩

/-- All parts of the result have a property when all parts of the source have the one that it
comes from. -/
theorem forall_children_iff {before after : Node → Prop}
    (matched : Matches (fun _ child replacement => before child ↔ after replacement)
      source result) :
    (∀ child ∈ source.children, before child) ↔ ∀ child ∈ result.children, after child := by
  obtain ⟨-, parts⟩ := matched
  simp only [children, List.forall_mem_map]
  generalize source.parts = sources at parts ⊢
  generalize result.parts = results at parts ⊢
  induction parts with
  | nil => simp
  | cons first _ inductionHypothesis =>
    simp only [List.forall_mem_cons, first.2, inductionHypothesis]

/-- A relation of the parts may be replaced by one that follows from it at the parts of the
source. -/
theorem imp (matched : Matches related source result)
    (follows : ∀ {slot child replacement}, (slot, child) ∈ source.parts →
      related slot child replacement → other slot child replacement) :
    Matches other source result := by
  refine ⟨matched.shell, ?_⟩
  have inside : List.Forall₂ (fun before after => before ∈ source.parts ∧
      Part.Related related before after) source.parts result.parts :=
    (List.forall₂_and_left _ _).2 ⟨fun _ member => member, matched.parts⟩
  refine inside.imp fun before after holds => ?_
  exact ⟨holds.2.1, follows holds.1 holds.2.2⟩

/-- Nodes whose parts are the same are the same. -/
theorem eq (matched : Matches (fun _ child replacement => child = replacement) source result) :
    source = result := by
  refine Node.eq_of_shell_of_parts matched.shell ?_
  have same : List.Forall₂ Eq source.parts result.parts :=
    matched.parts.imp fun before after holds => Prod.ext holds.1 holds.2
  rwa [List.forall₂_eq_eq_eq] at same

/-- A node matches itself when each part is related to itself. -/
theorem refl (related_self : ∀ slot, ∀ child ∈ source.children, related slot child child) :
    Matches related source source := by
  refine ⟨rfl, List.forall₂_same.2 fun part member => ?_⟩
  exact ⟨rfl, related_self part.1 part.2 (List.mem_map_of_mem member)⟩

/-- Matching nodes match the other way round. -/
theorem symm (matched : Matches related source result) :
    Matches (fun slot child replacement => related slot replacement child) result source := by
  refine ⟨matched.shell.symm, List.Forall₂.flip (matched.parts.imp fun before after holds => ?_)⟩
  exact ⟨holds.1.symm, holds.1 ▸ holds.2⟩

/-- Relations of lists compose. -/
theorem related_trans {sources middles results : List Part}
    (parts : List.Forall₂ (Part.Related related) sources middles)
    (others : List.Forall₂ (Part.Related other) middles results) :
    List.Forall₂ (Part.Related fun slot child replacement =>
      ∃ between, related slot child between ∧ other slot between replacement) sources results := by
  induction parts generalizing results with
  | nil => cases others; exact .nil
  | cons first _ inductionHypothesis =>
    cases others with
    | cons second rest =>
      refine .cons ⟨first.1.trans second.1, _, first.2, ?_⟩ (inductionHypothesis rest)
      rw [first.1]
      exact second.2

/-- Matching twice is matching with what lies between the parts. -/
theorem trans (matched : Matches related source middle) (next : Matches other middle result) :
    Matches (fun slot child replacement =>
      ∃ between, related slot child between ∧ other slot between replacement) source result :=
  ⟨matched.shell.trans next.shell, related_trans matched.parts next.parts⟩

end Matches

end Node

end ScriptSharp
