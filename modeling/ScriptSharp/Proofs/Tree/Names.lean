import ScriptSharp.Proofs.Tree.Matching

/-!
# Names in a tree

Every name that a node declares or refers to. A node holds its own names; those of its parts are
the names of the nodes below it.
-/

namespace ScriptSharp

/-- The names that an expression itself holds. -/
def Expr.idents : Expr → List Ident
  | .ident _ name _ => [name]
  | .member _ _ name _ => [name]
  | .lambda _ params _ _ => params.map (·.name)
  | _ => []

/-- The names that a statement itself holds. -/
def Stmt.idents : Stmt → List Ident
  | .declare name _ _ _ _ => [name]
  | .forEach item _ _ _ => [item]
  | _ => []

/-- The names that a member itself holds. -/
def Member.idents : Member → List Ident
  | .field decl => [decl.name]
  | .method decl => decl.name :: decl.params.map (·.name)
  | .ctor decl => decl.params.map (·.name)

namespace Node

/-- The names that a node itself holds. -/
def idents : Node → List Ident
  | .expr root => root.idents
  | .stmt root => root.idents
  | .attr root => root.args.filterMap (·.name)
  | .member root => root.idents
  | .decl root => root.name :: root.enumMembers.map (·.name)
  | .unit _ => []

/-- The name stands nowhere in the node. -/
def Avoids (name : String) : Node → Prop :=
  Throughout fun node => ∀ ident ∈ node.idents, ident.name ≠ name

/-- A node avoids a name when its own identifiers differ from it and its children avoid it. -/
theorem avoids_iff {name : String} {node : Node} : Avoids name node ↔
    (∀ ident ∈ node.idents, ident.name ≠ name) ∧ ∀ child ∈ node.children, Avoids name child :=
  throughout_iff

section Constructors

variable {name : String} {note : Note} {target value : Expr}

/-- A reference to the object itself avoids every name. -/
@[simp]
theorem avoids_selfRef : Avoids name (.expr (.selfRef note)) := by
  rw [avoids_iff]
  simp [idents, Expr.idents, children, parts, Expr.parts]

/-- A type name avoids every name. -/
@[simp]
theorem avoids_typeRef {named : Ty} : Avoids name (.expr (.typeRef note named)) := by
  rw [avoids_iff]
  simp [idents, Expr.idents, children, parts, Expr.parts]

/-- An access avoids a name when the name of the member differs and the target avoids it. -/
@[simp]
theorem avoids_member {ident : Ident} {binding : MemberBinding} :
    Avoids name (.expr (.member note target ident binding)) ↔
      ident.name ≠ name ∧ Avoids name (.expr target) := by
  rw [avoids_iff]
  simp [idents, Expr.idents, children, parts, Expr.parts, Part.value]

/-- An assignment avoids a name when its target and its value do. -/
@[simp]
theorem avoids_assign {op : Option BinaryOp} :
    Avoids name (.expr (.assign note op target value)) ↔
      Avoids name (.expr target) ∧ Avoids name (.expr value) := by
  rw [avoids_iff]
  simp [idents, Expr.idents, children, parts, Expr.parts, Part.value, Part.target]

/-- An expression statement avoids a name when its expression does. -/
@[simp]
theorem avoids_exprStmt : Avoids name (.stmt (.expr value)) ↔ Avoids name (.expr value) := by
  rw [avoids_iff]
  simp [idents, Stmt.idents, children, parts, Stmt.parts, Part.value]

end Constructors

/-- The children of a node that avoids a name avoid it. -/
theorem Avoids.child {name : String} {node child : Node} (avoids : Avoids name node)
    (member : child ∈ node.children) : Avoids name child :=
  Everywhere.inside avoids member

/-- The identifiers of a node that avoids a name differ from it. -/
theorem Avoids.ident {name : String} {node : Node} (avoids : Avoids name node) {ident : Ident}
    (member : ident ∈ node.idents) : ident.name ≠ name :=
  Everywhere.here avoids ident member

end Node

end ScriptSharp
