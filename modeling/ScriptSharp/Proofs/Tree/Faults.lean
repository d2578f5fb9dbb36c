import ScriptSharp.Proofs.Tree.Walk

/-!
# Where the faults of a walk come from

A walk does nothing of its own that can fail. So every fault of a walk is raised when some node is
entered or left, and whatever holds of those faults holds of all: `DeclTraversal.raises_node`.
-/

namespace ScriptSharp

variable {ε α β : Type} {allowed : ε → Prop}

/-- Every fault of the computation is allowed. -/
def Raises (allowed : ε → Prop) (computation : Except ε α) : Prop :=
  ∀ fault, computation = .error fault → allowed fault

/-- What is returned raises nothing. -/
@[simp]
theorem raises_pure (value : α) : Raises allowed (pure value : Except ε α) := nofun

/-- A computation in two steps raises what its steps raise. -/
@[simp]
theorem raises_bind {first : Except ε α} {next : α → Except ε β} :
    Raises allowed (first >>= next) ↔
      Raises allowed first ∧ ∀ between, first = .ok between → Raises allowed (next between) := by
  cases first with
  | error raised => simp [Raises, bind, Except.bind]
  | ok between => simp [Raises, bind, Except.bind]

/-- A step that cannot fail raises nothing more. -/
@[simp]
theorem raises_map {step : α → β} {computation : Except ε α} :
    Raises allowed (step <$> computation) ↔ Raises allowed computation := by
  cases computation <;> simp [Raises, Functor.map, Except.map]

/-- Items in a row raise what the steps raise. -/
theorem raises_mapM {step : α → Except ε β} {items : List α}
    (steps : ∀ item ∈ items, Raises allowed (step item)) : Raises allowed (items.mapM step) := by
  induction items with
  | nil => exact raises_pure []
  | cons first rest inductionHypothesis =>
    rw [List.forall_mem_cons] at steps
    simp [List.mapM_cons, steps.1, inductionHypothesis steps.2]

namespace DeclTraversal

variable {ρ : Type} {traversal : DeclTraversal (Except ε) ρ} {env : ρ} {carried : Slot → ρ}

/-- The walks of the parts raise nothing but what is allowed. -/
def PartsRaise (allowed : ε → Prop) (traversal : DeclTraversal (Except ε) ρ) (carried : Slot → ρ)
    (parts : List Part) : Prop :=
  ∀ part ∈ parts, Raises allowed (traversal.node (carried part.1) part.2)

/-- Parts raise what the first one and the others raise. -/
@[simp]
theorem partsRaise_cons {part : Part} {parts : List Part} :
    PartsRaise allowed traversal carried (part :: parts) ↔
      Raises allowed (traversal.node (carried part.1) part.2) ∧
        PartsRaise allowed traversal carried parts :=
  List.forall_mem_cons

/-- Parts in a row raise what both lists raise. -/
@[simp]
theorem partsRaise_append {first second : List Part} :
    PartsRaise allowed traversal carried (first ++ second) ↔
      PartsRaise allowed traversal carried first ∧ PartsRaise allowed traversal carried second :=
  List.forall_mem_append

/-- An expression raises what its walk raises. -/
@[simp]
theorem raises_expr {expr : Expr} :
    Raises allowed (traversal.node env (.expr expr)) ↔
      Raises allowed (traversal.expr env expr) := by
  simp [node]

/-- A statement raises what its walk raises. -/
@[simp]
theorem raises_stmt {stmt : Stmt} :
    Raises allowed (traversal.node env (.stmt stmt)) ↔
      Raises allowed (traversal.stmt env stmt) := by
  simp [node]

/-- An attribute raises what its walk raises. -/
@[simp]
theorem raises_attr {attr : Attribute} :
    Raises allowed (traversal.node env (.attr attr)) ↔
      Raises allowed (traversal.attr env attr) := by
  simp [node]

/-- A member raises what its walk raises. -/
@[simp]
theorem raises_member {member : Member} : Raises allowed (traversal.node env (.member member)) ↔
    Raises allowed (traversal.member env member) := by
  simp [node]

/-- A declaration raises what its walk raises. -/
@[simp]
theorem raises_decl {decl : TypeDecl} :
    Raises allowed (traversal.node env (.decl decl)) ↔
      Raises allowed (traversal.decl env decl) := by
  simp [node]

/-! ## The parts, list by list -/

/-- Expressions raise what they raise as parts. -/
theorem raises_exprs {exprs : List Expr}
    (parts : PartsRaise allowed traversal carried (exprs.map .value)) :
    Raises allowed (traversal.exprs (carried .value) exprs) := by
  induction exprs with
  | nil => exact raises_pure []
  | cons first rest inductionHypothesis =>
    simp only [List.map_cons, partsRaise_cons, Part.value, raises_expr] at parts
    simp [Traversal.exprs, parts.1, inductionHypothesis parts.2]

/-- Statements raise what they raise as parts. -/
theorem raises_stmts {stmts : List Stmt}
    (parts : PartsRaise allowed traversal carried (stmts.map .stmt)) :
    Raises allowed (traversal.stmts (carried .nested) stmts) := by
  induction stmts with
  | nil => exact raises_pure []
  | cons first rest inductionHypothesis =>
    simp only [List.map_cons, partsRaise_cons, Part.stmt, raises_stmt] at parts
    simp [Traversal.stmts, parts.1, inductionHypothesis parts.2]

/-- Entries raise what their keys and values raise as parts. -/
theorem raises_entries {entries : List (Expr × Expr)}
    (parts : PartsRaise allowed traversal carried (entries.flatMap Part.entry)) :
    Raises allowed (traversal.entries (carried .value) entries) := by
  induction entries with
  | nil => exact raises_pure []
  | cons first rest inductionHypothesis =>
    simp only [List.flatMap_cons, Part.entry, partsRaise_append, partsRaise_cons, Part.value,
      raises_expr] at parts
    simp [Traversal.entries, parts.1, inductionHypothesis parts.2]

/-- A value that may be absent raises what it raises as a part. -/
theorem raises_optional {present : Option Expr}
    (parts : PartsRaise allowed traversal carried (present.toList.map .value)) :
    Raises allowed (traversal.optional (carried .value) present) := by
  cases present with
  | none => exact raises_pure none
  | some value => simpa [Traversal.optional, Part.value, PartsRaise] using parts

/-- A block that may be absent raises what its statements raise as parts. -/
theorem raises_block {body : Option (List Stmt)}
    (parts : PartsRaise allowed traversal carried ((body.getD []).map .stmt)) :
    Raises allowed (traversal.block? (carried .nested) body) := by
  cases body with
  | none => exact raises_pure none
  | some body => simpa [Traversal.block?] using raises_stmts parts

/-- The body of a lambda raises what its parts raise. -/
theorem raises_body {body : LambdaBody} (parts : PartsRaise allowed traversal carried body.parts) :
    Raises allowed (traversal.withinBody carried body) := by
  cases body with
  | expr value => simpa [Traversal.withinBody, LambdaBody.parts, Part.value, PartsRaise] using parts
  | block body => simpa [Traversal.withinBody] using raises_stmts parts

/-- The walk within an expression raises what its parts raise. -/
theorem raises_within {expr : Expr} (parts : PartsRaise allowed traversal carried expr.parts) :
    Raises allowed (traversal.within carried expr) := by
  cases expr <;>
    simp_all [Expr.parts, Part.value, Part.target, Traversal.within, raises_exprs, raises_entries,
      raises_body]

/-- The walk within a statement raises what its parts raise. -/
theorem raises_withinStmt {stmt : Stmt} (parts : PartsRaise allowed traversal carried stmt.parts) :
    Raises allowed (traversal.withinStmt carried stmt) := by
  cases stmt <;>
    simp_all [Stmt.parts, Part.value, Traversal.withinStmt, raises_exprs, raises_stmts,
      raises_optional, raises_block]

/-- Attributes raise what they raise as parts. -/
theorem raises_attrs {attrs : List Attribute}
    (parts : PartsRaise allowed traversal carried (attrs.map .attr)) :
    Raises allowed (traversal.attrs (carried .nested) attrs) :=
  raises_mapM fun attr member => raises_attr.1 (parts (.attr attr) (List.mem_map_of_mem member))

/-- A constructor chain raises what its arguments raise. -/
theorem raises_chain {ctor : CtorDecl}
    (parts : PartsRaise allowed traversal carried (ctor.chainArgs.map .value)) :
    Raises allowed (traversal.chain? (carried .value) ctor.chain) := by
  rw [CtorDecl.chainArgs] at parts
  cases chained : ctor.chain with
  | none => exact raises_pure none
  | some chain =>
    rw [chained] at parts
    simpa [DeclTraversal.chain?] using raises_exprs parts

/-- The walk within a member raises what its parts raise. -/
theorem raises_memberParts {member : Member}
    (parts : PartsRaise allowed traversal (fun _ => env) member.parts) :
    Raises allowed (traversal.memberParts env member) := by
  cases member with
  | field decl =>
    obtain ⟨attrs, init⟩ := partsRaise_append.1 parts
    simpa [memberParts] using ⟨raises_attrs attrs, fun _ _ => raises_optional init⟩
  | method decl =>
    obtain ⟨attrs, body⟩ := partsRaise_append.1 parts
    simpa [memberParts] using ⟨raises_attrs attrs, fun _ _ => raises_block body⟩
  | ctor decl =>
    obtain ⟨args, body⟩ := partsRaise_append.1 parts
    simpa [memberParts] using ⟨raises_chain args, fun _ _ => raises_stmts body⟩

/-! ## The node -/

/-- A walk raises only what is raised when a node is entered or left. -/
theorem raises_node (enters : ∀ env expr, Raises allowed (traversal.enter env expr))
    (leaves : ∀ env node, Raises allowed (traversal.leaveNode env node)) (env : ρ) (node : Node) :
    Raises allowed (traversal.node env node) := by
  induction node using Node.induct generalizing env with
  | step node inductionHypothesis =>
    have parts (carried : Slot → ρ) : PartsRaise allowed traversal carried node.parts :=
      fun part member => inductionHypothesis part.2 (List.mem_map_of_mem member) (carried part.1)
    cases node with
    | expr root =>
      rw [raises_expr, Traversal.expr_eq_around, Traversal.around, raises_bind]
      refine ⟨enters env root, fun below _ => ?_⟩
      cases below with
      | none => exact raises_pure root
      | some below =>
        refine raises_bind.2 ⟨raises_within (parts _), fun rebuilt _ => ?_⟩
        simpa [leaveNode] using leaves env (.expr rebuilt)
    | stmt root =>
      rw [raises_stmt, Traversal.stmt_eq_within, raises_bind]
      refine ⟨raises_withinStmt (parts _), fun rebuilt _ => ?_⟩
      simpa [leaveNode] using leaves env (.stmt rebuilt)
    | attr root =>
      rw [raises_attr, DeclTraversal.attr, raises_bind]
      refine ⟨raises_mapM fun arg member => ?_, fun args _ => ?_⟩
      · have argument := parts (fun _ => env) (.value arg.value) (List.mem_map_of_mem member)
        simpa [Part.value] using argument
      · simpa [leaveNode] using leaves env (.attr { root with args })
    | member root =>
      rw [raises_member, DeclTraversal.member, raises_bind]
      refine ⟨raises_memberParts (parts _), fun rebuilt _ => ?_⟩
      simpa [leaveNode] using leaves env (.member rebuilt)
    | decl root =>
      obtain ⟨attrs, members⟩ := partsRaise_append.1 (parts fun _ => traversal.enterDecl env root)
      rw [raises_decl, DeclTraversal.decl, raises_bind]
      refine ⟨raises_attrs attrs, fun _ _ => raises_bind.2 ⟨?_, fun _ _ => ?_⟩⟩
      · exact raises_mapM fun member inside =>
          raises_member.1 (members (.member member) (List.mem_map_of_mem inside))
      · simpa [leaveNode] using leaves env (.decl _)
    | unit root =>
      obtain ⟨decls, globals⟩ := partsRaise_append.1 (parts fun _ => env)
      simp only [DeclTraversal.node, DeclTraversal.unit, DeclTraversal.decls, raises_bind,
        raises_pure, implies_true, and_true]
      refine ⟨raises_mapM fun decl inside => ?_, fun _ _ => raises_stmts globals⟩
      exact raises_decl.1 (decls (.decl decl) (List.mem_map_of_mem inside))

end DeclTraversal

end ScriptSharp
