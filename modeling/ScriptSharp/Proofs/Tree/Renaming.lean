import ScriptSharp.Proofs.Tree.Gathering
import ScriptSharp.Proofs.Tree.Names

/-!
# Changing names and nothing else

A renaming changes the names that a node itself holds and leaves the rest of the node alone.
`Renames` says so of every node of a tree, from the root down. It determines the second tree, and
the names of that tree are the changed names of the first one, place by place.
-/

namespace ScriptSharp

section Own

variable (change : Ident → Ident)

/-- The expression with its own names changed. -/
def Expr.mapNames : Expr → Expr
  | .ident note name binding => .ident note (change name) binding
  | .member note target name binding => .member note target (change name) binding
  | .lambda note params ret body =>
    .lambda note (params.map fun param => { param with name := change param.name }) ret body
  | unnamed => unnamed

/-- The statement with its own names changed. -/
def Stmt.mapNames : Stmt → Stmt
  | .declare name declared ty init span => .declare (change name) declared ty init span
  | .forEach item itemTy source body => .forEach (change item) itemTy source body
  | unnamed => unnamed

/-- The attribute with the names of its arguments changed. -/
def Attribute.mapNames (attr : Attribute) : Attribute :=
  { attr with args := attr.args.map fun arg => { arg with name := arg.name.map change } }

/-- The parameter with its name changed. -/
def ParamDecl.mapName (param : ParamDecl) : ParamDecl :=
  { param with name := change param.name }

/-- The member with its own names changed. -/
def Member.mapNames : Member → Member
  | .field decl => .field { decl with name := change decl.name }
  | .method decl =>
    .method { decl with name := change decl.name, params := decl.params.map (·.mapName change) }
  | .ctor decl => .ctor { decl with params := decl.params.map (·.mapName change) }

/-- The declaration with its own names changed. -/
def TypeDecl.mapNames (decl : TypeDecl) : TypeDecl :=
  { decl with
    name := change decl.name
    enumMembers := decl.enumMembers.map fun item => { item with name := change item.name } }

/-- The node with its own names changed. -/
def Node.mapNames : Node → Node
  | .expr root => .expr (root.mapNames change)
  | .stmt root => .stmt (root.mapNames change)
  | .attr root => .attr (root.mapNames change)
  | .member root => .member (root.mapNames change)
  | .decl root => .decl (root.mapNames change)
  | .unit root => .unit root

end Own

namespace Node

variable {change : Ident → Ident}

/-! ## One node -/

/-- The names of a node are in its shell. -/
theorem shell_mapNames (node : Node) :
    (node.mapNames change).shell = node.shell.mapNames change := by
  cases node with
  | expr root => cases root <;> rfl
  | stmt root => cases root <;> rfl
  | attr root =>
    simp [mapNames, shell, Attribute.mapNames, Attribute.shell, Function.comp_def]
  | member root => cases root <;> rfl
  | decl root => rfl
  | unit root => rfl

/-- Changing the names of a node leaves its parts alone. -/
theorem parts_mapNames (node : Node) : (node.mapNames change).parts = node.parts := by
  cases node with
  | expr root => cases root <;> rfl
  | stmt root => cases root <;> rfl
  | attr root => simp [mapNames, parts, Attribute.mapNames]
  | member root => cases root <;> rfl
  | decl root => rfl
  | unit root => rfl

/-- Changing the names of a node leaves its children alone. -/
theorem children_mapNames (node : Node) : (node.mapNames change).children = node.children := by
  rw [children, parts_mapNames, children]

/-- The shell of a node has its names. -/
theorem idents_shell (node : Node) : node.shell.idents = node.idents := by
  cases node with
  | expr root => cases root <;> rfl
  | stmt root => cases root <;> rfl
  | attr root => simp [shell, idents, Attribute.shell, List.filterMap_map]
  | member root => cases root <;> rfl
  | decl root => rfl
  | unit root => rfl

/-- The names of a node are changed one by one. -/
theorem idents_mapNames (node : Node) :
    (node.mapNames change).idents = node.idents.map change := by
  cases node with
  | expr root =>
    cases root
    case lambda => simp [mapNames, idents, Expr.mapNames, Expr.idents]
    all_goals rfl
  | stmt root => cases root <;> rfl
  | attr root =>
    simp [mapNames, idents, Attribute.mapNames, List.filterMap_map, List.map_filterMap]
  | member root => cases root <;> simp [mapNames, idents, Member.mapNames, Member.idents,
      ParamDecl.mapName]
  | decl root => simp [mapNames, idents, TypeDecl.mapNames]
  | unit root => rfl

/-- A step that leaves every item alone leaves the list alone. -/
theorem map_of_fixed {α : Type} {step : α → α} {items : List α}
    (fixed : ∀ item ∈ items, step item = item) : items.map step = items := by
  rw [List.map_congr_left fixed, List.map_id']

/-- A change that leaves the name of a parameter alone leaves the parameter alone. -/
theorem mapName_of_fixed {param : ParamDecl} (fixed : change param.name = param.name) :
    param.mapName change = param := by
  rw [ParamDecl.mapName, fixed]

/-- A node stays as it is when its names do. -/
theorem mapNames_of_fixed {node : Node} (fixed : ∀ name ∈ node.idents, change name = name) :
    node.mapNames change = node := by
  -- A node names its own identifiers first, and those of its parameters behind them.
  cases node with
  | expr root =>
    refine congrArg Node.expr ?_
    cases root
    case ident => rw [Expr.mapNames, fixed _ List.mem_cons_self]
    case member => rw [Expr.mapNames, fixed _ List.mem_cons_self]
    case lambda note params ret body =>
      rw [Expr.mapNames, map_of_fixed fun param member => ?_]
      rw [fixed _ (List.mem_map_of_mem member)]
    all_goals rfl
  | stmt root =>
    refine congrArg Node.stmt ?_
    cases root
    case declare => rw [Stmt.mapNames, fixed _ List.mem_cons_self]
    case forEach => rw [Stmt.mapNames, fixed _ List.mem_cons_self]
    all_goals rfl
  | attr root =>
    refine congrArg Node.attr ?_
    rw [Attribute.mapNames, map_of_fixed fun arg member => ?_]
    cases named : arg.name with
    | none => rw [Option.map_none, ← named]
    | some name =>
      rw [Option.map_some, fixed name (List.mem_filterMap.2 ⟨arg, member, named⟩), ← named]
  | member root =>
    refine congrArg Node.member ?_
    cases root with
    | field decl => rw [Member.mapNames, fixed _ List.mem_cons_self]
    | method decl =>
      rw [Member.mapNames, fixed _ List.mem_cons_self, map_of_fixed fun param member =>
        mapName_of_fixed (fixed _ (List.mem_cons_of_mem _ (List.mem_map_of_mem member)))]
    | ctor decl =>
      rw [Member.mapNames, map_of_fixed fun param member =>
        mapName_of_fixed (fixed _ (List.mem_map_of_mem member))]
  | decl root =>
    refine congrArg Node.decl ?_
    rw [TypeDecl.mapNames, fixed _ List.mem_cons_self, map_of_fixed fun item member => ?_]
    rw [fixed _ (List.mem_cons_of_mem _ (List.mem_map_of_mem member))]
  | unit root => rfl

/-! ## All nodes -/

/-- The second tree is the first one with all names changed. -/
inductive Renames (change : Ident → Ident) : Node → Node → Prop where
  | node {source result : Node} (shell : (source.mapNames change).shell = result.shell)
      (slots : source.parts.map (·.1) = result.parts.map (·.1))
      (parts : List.Forall₂ (Renames change) source.children result.children) :
      Renames change source result

/-- The names at the node and everywhere below it, those of a node before those of its parts. -/
def names (node : Node) : List Ident :=
  node.gather (fun _ _ => ()) (fun _ => idents) ()

/-- The names of a tree are those of its root and those below. -/
theorem names_eq (node : Node) : node.names = node.idents ++ node.children.flatMap names :=
  gather_eq () node

/-- A node is renamed by renaming its parts and changing its own names. -/
theorem renames_of_matches {source rebuilt : Node}
    (matched : Matches (fun _ => Renames change) source rebuilt) :
    Renames change source (rebuilt.mapNames change) := by
  obtain ⟨shell, parts⟩ := matched
  obtain ⟨slots, children⟩ := Part.forall₂_related_iff.1 parts
  refine .node ?_ ?_ ?_
  · rw [shell_mapNames, shell_mapNames, shell]
  · rwa [parts_mapNames]
  · rwa [children_mapNames]

namespace Renames

variable {source result other : Node}

/-- The second tree has the parts of the first one with changed names. -/
theorem matches_mapNames (renames : Renames change source result) :
    Matches (fun _ => Renames change) (source.mapNames change) result := by
  cases renames with
  | node shell slots parts =>
    refine ⟨shell, ?_⟩
    rw [parts_mapNames]
    exact Part.forall₂_related_iff.2 ⟨slots, parts⟩

/-- No more than one tree arises by changing the names. -/
theorem unique (renames : Renames change source result) (renames' : Renames change source other) :
    result = other := by
  induction source using Node.induct generalizing result other with
  | step source inductionHypothesis =>
    have within : Matches (fun _ child replacement => child ∈ source.children ∧
        Renames change child replacement) (source.mapNames change) result :=
      renames.matches_mapNames.imp fun member holds =>
        ⟨mem_children_of_part (parts_mapNames source ▸ member), holds⟩
    refine ((within.symm.trans renames'.matches_mapNames).imp fun _ chain => ?_).eq
    obtain ⟨child, ⟨member, first⟩, second⟩ := chain
    exact inductionHypothesis child member first second

/-- The names of the second tree are those of the first one, changed place by place. -/
theorem names_eq (renames : Renames change source result) :
    result.names = source.names.map change := by
  induction source using Node.induct generalizing result with
  | step source inductionHypothesis =>
    have matched := renames.matches_mapNames
    have own : result.idents = source.idents.map change := by
      rw [← idents_mapNames, ← idents_shell, ← matched.shell, idents_shell]
    have below : result.children.flatMap names =
        ((source.mapNames change).children.flatMap names).map change := by
      refine Matches.flatMap (matched.imp fun member holds => ?_)
      exact inductionHypothesis _ (mem_children_of_part (parts_mapNames source ▸ member)) holds
    rw [Node.names_eq, Node.names_eq, own, below, children_mapNames, List.map_append]

/-- A tree stays as it is when its names do. -/
theorem self {node : Node} (fixed : ∀ name ∈ node.names, change name = name) :
    Renames change node node := by
  induction node using Node.induct with
  | step node inductionHypothesis =>
    simp only [Node.names_eq node, List.forall_mem_append, List.mem_flatMap] at fixed
    have renames : Renames change node (node.mapNames change) := by
      refine renames_of_matches (.refl fun _ child member => ?_)
      exact inductionHypothesis child member fun name inChild =>
        fixed.2 name ⟨child, member, inChild⟩
    rwa [mapNames_of_fixed fixed.1] at renames

end Renames

end Node

end ScriptSharp
