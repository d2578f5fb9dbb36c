import ScriptSharp.Lowering.StaticAccess
import ScriptSharp.Proofs.NormalForm.Forms
import ScriptSharp.Proofs.Sugar.Packing

/-!
# After the removal of sugar

The first two steps bring about what all later ones have to keep: the removal of sugar leaves no
open name, no call of a type and no statement at top level, and then every static member gets a type
as its receiver.
-/

namespace ScriptSharp.Lowering.Sugar

open Outcome Node

variable {types : TypeTable} {context : Context}

/-! ## Values and arguments -/

/-- The expression is free of sugar, and packing the arguments that it has for its signature once
more changes nothing. -/
def Desugared (types : TypeTable) : Expr → Prop
  | .ident _ _ binding => binding.Settled
  | .invoke _ callee _ args signature =>
    callee.head = .other ∧ expandParams types signature args = args
  | .construct _ _ args signature => expandParams types signature args = args
  | _ => True

/-- An expression that needs no further step is free of sugar. -/
theorem Desugared.sugarFree (expr : Expr) (desugared : Desugared types expr) : expr.SugarFree := by
  cases expr
  case ident => exact desugared
  case invoke => exact desugared.1
  all_goals trivial

/-- Every expression at or below this one is free of sugar. -/
abbrev Done (types : TypeTable) (expr : Expr) : Prop := AllExprs (Desugared types) (.expr expr)

/-- A type name that is turned into a value has no sugar in it. -/
theorem done_valueize {expr : Expr} (done : Done types expr) :
    Done types (valueize types expr) := by
  unfold valueize
  split
  · exact allExprs_typeOf.2 trivial
  · exact done

/-- Neither have arguments that are turned into values. -/
theorem done_map_valueize {exprs : List Expr} (done : ∀ expr ∈ exprs, Done types expr) :
    ∀ expr ∈ exprs.map (valueize types), Done types expr :=
  List.forall_mem_map.2 fun expr member => done_valueize (done expr member)

/-- Packing brings in no sugar. -/
theorem done_expandParams {signature : Option Signature} {args : List Expr}
    (done : ∀ arg ∈ args, Done types arg) :
    ∀ arg ∈ expandParams types signature args, Done types arg := by
  obtain same | ⟨_, index, element, -, -, -, same⟩ := expandParams_cases types signature args
  · rwa [same]
  · rw [same, packed]
    simp only [List.forall_mem_append, List.forall_mem_singleton, allExprs_array]
    refine ⟨fun arg member => done arg (List.mem_of_mem_take member), trivial, ?_⟩
    exact fun arg member => done arg (List.mem_of_mem_drop member)

/-- A default value has no sugar in it. -/
theorem done_defaultValue (ty : Ty) : Done types (defaultValue types ty) := by
  unfold defaultValue
  split
  all_goals try exact allExprs_literal.2 trivial
  split_ifs
  · exact allExprs_defaultOf.2 trivial
  · exact allExprs_literal.2 trivial

/-! ## References and calls -/

/-- What a name is resolved to has no sugar in it. -/
theorem done_reference {scope : Scope} {note : Note} {name : Ident} {binding : Binding}
    {result : Expr} (left : reference scope note name binding = .ok result) :
    Done types result := by
  cases binding with
  | unresolved => cases left
  | localVariable | parameter =>
    obtain rfl := Except.ok.inj left
    exact allExprs_ident.2 trivial
  | member binding =>
    simp only [reference] at left
    split_ifs at left with shared
    · obtain rfl := Except.ok.inj left
      refine allExprs_ident.2 ?_
      simpa [Desugared, Binding.Settled] using shared
    · obtain rfl := Except.ok.inj left
      exact allExprs_member.2 ⟨trivial, allExprs_selfRef.2 trivial⟩

/-- A construction with finished arguments has no sugar in it. -/
theorem done_construct {span : Span} {target : Ty} {args : List Expr} {result : Expr}
    (done : ∀ arg ∈ args, Done types arg) (left : construct types span target args = .ok result) :
    Done types result := by
  unfold construct at left
  split at left
  · cases left
  · split at left
    · obtain rfl := Except.ok.inj left
      exact allExprs_construct.2 ⟨expandParams_again _ _ args, done_expandParams done⟩
    · split_ifs at left
      · obtain rfl := Except.ok.inj left
        exact allExprs_defaultOf.2 trivial
      · obtain rfl := Except.ok.inj left
        exact allExprs_construct.2 ⟨rfl, done⟩

/-- A call becomes a construction, or it calls a value. -/
theorem done_invoke {scope : Scope} {note : Note} {callee : Expr} {typeArgs : List Ty}
    {args : List Expr} {signature : Option Signature} {result : Expr}
    (doneCallee : Done types callee) (doneArgs : ∀ arg ∈ args, Done types arg)
    (left : leave types scope (.invoke note callee typeArgs args signature) = .ok result) :
    Done types result := by
  simp only [leave] at left
  split at left
  · exact done_construct (done_map_valueize doneArgs) left
  · cases left
  · obtain rfl := Except.ok.inj left
    refine allExprs_invoke.2 ⟨⟨?_, expandParams_again _ _ _⟩, doneCallee,
      done_expandParams (done_map_valueize doneArgs)⟩
    simp only [Expr.head]

/-- An expression that is left with finished parts has no sugar in it. -/
theorem done_leave {scope : Scope} {expr result : Expr}
    (inside : ∀ child ∈ (Node.expr expr).children, AllExprs (Desugared types) child)
    (left : leave types scope expr = .ok result) : Done types result := by
  have whole (free : Desugared types expr) : Done types expr := allExprs_expr.2 ⟨free, inside⟩
  cases expr
  case ident => exact done_reference left
  case invoke note callee typeArgs args signature =>
    simp only [children, parts, Expr.parts, Part.value, List.map_cons, List.map_map,
      List.forall_mem_cons, List.forall_mem_map, Function.comp_apply] at inside
    exact done_invoke inside.1 inside.2 left
  case construct note constructed args signature =>
    obtain rfl := Except.ok.inj left
    simp only [children, parts, Expr.parts, Part.value, List.map_map, List.forall_mem_map,
      Function.comp_apply] at inside
    exact allExprs_construct.2
      ⟨expandParams_again _ _ _, done_expandParams (done_map_valueize inside)⟩
  case member =>
    obtain rfl := Except.ok.inj left
    exact allExprs_member.2 ⟨trivial, (allExprs_member.1 (whole trivial)).2⟩
  case assign =>
    obtain rfl := Except.ok.inj left
    obtain ⟨-, target, value⟩ := allExprs_assign.1 (whole trivial)
    exact allExprs_assign.2 ⟨trivial, target, done_valueize value⟩
  case binary =>
    obtain rfl := Except.ok.inj left
    obtain ⟨-, first, second⟩ := allExprs_binary.1 (whole trivial)
    exact allExprs_binary.2 ⟨trivial, done_valueize first, done_valueize second⟩
  case ternary =>
    obtain rfl := Except.ok.inj left
    obtain ⟨-, condition, first, second⟩ := allExprs_ternary.1 (whole trivial)
    exact allExprs_ternary.2 ⟨trivial, condition, done_valueize first, done_valueize second⟩
  case array =>
    obtain rfl := Except.ok.inj left
    exact allExprs_array.2 ⟨trivial, done_map_valueize (allExprs_array.1 (whole trivial)).2⟩
  case map =>
    obtain rfl := Except.ok.inj left
    refine allExprs_map.2 ⟨trivial, List.forall_mem_map.2 fun entry member => ?_⟩
    obtain ⟨key, value⟩ := (allExprs_map.1 (whole trivial)).2 entry member
    exact ⟨done_valueize key, done_valueize value⟩
  all_goals
    obtain rfl := Except.ok.inj left
    exact whole trivial

/-- Removing sugar makes no type of a value, and no value of a type. -/
theorem head_leave {scope : Scope} {expr result : Expr}
    (left : leave types scope expr = .ok result) : expr.head = result.head := by
  cases expr
  case ident note name binding =>
    cases binding with
    | unresolved => cases left
    | localVariable | parameter => exact Except.ok.inj left ▸ rfl
    | member binding =>
      simp only [leave, reference] at left
      split_ifs at left <;> exact Except.ok.inj left ▸ rfl
  case invoke =>
    simp only [leave] at left
    split at left
    · unfold construct at left
      split at left
      · cases left
      · split at left
        · exact Except.ok.inj left ▸ rfl
        · split_ifs at left <;> exact Except.ok.inj left ▸ rfl
    · cases left
    · exact Except.ok.inj left ▸ rfl
  all_goals exact Except.ok.inj left ▸ rfl

/-! ## Statements and declarations -/

/-- A statement that is left with finished parts has no sugar in it. -/
theorem done_leaveStmt {stmt : Stmt} (done : AllExprs (Desugared types) (.stmt stmt)) :
    AllExprs (Desugared types) (.stmt (leaveStmt types stmt)) := by
  cases stmt
  case declare name declared ty init span =>
    cases init with
    | none => simpa [leaveStmt] using done_defaultValue ty
    | some init => simpa [leaveStmt] using done_valueize (by simpa using done)
  case ret value span =>
    cases value with
    | none => exact done
    | some value => simpa [leaveStmt] using done_valueize (by simpa using done)
  all_goals exact done

/-- An attribute that is left with finished parts has no sugar in it. -/
theorem done_leaveAttribute {attr result : Attribute}
    (done : AllExprs (Desugared types) (.attr attr))
    (left : leaveAttribute types attr = .ok result) :
    AllExprs (Desugared types) (.attr result) := by
  obtain ⟨_, -, finished⟩ := gives_bind.1 (show Gives (leaveAttribute types attr) result from left)
  obtain rfl := gives_pure.1 finished
  refine allExprs_attr.2 (List.forall_mem_map.2 fun arg member => ?_)
  exact done_valueize (allExprs_attr.1 done arg member)

/-- A member that is left with finished parts has no sugar in it. -/
theorem done_leaveMember {scope : Scope} {member : Member}
    (done : AllExprs (Desugared types) (.member member)) :
    AllExprs (Desugared types) (.member (leaveMember types scope member)) := by
  cases member with
  | field | method => exact done
  | ctor ctor =>
    obtain ⟨args, body⟩ := allExprs_ctor.1 done
    refine allExprs_ctor.2 ⟨?_, body⟩
    simp only [CtorDecl.chainArgs] at args ⊢
    cases chained : ctor.chain with
    | none => simp
    | some chain =>
      rw [chained] at args
      exact done_expandParams (done_map_valueize args)

/-- A declaration that is left with finished parts has no sugar in it. -/
theorem done_leaveDecl {decl : TypeDecl} (done : AllExprs (Desugared types) (.decl decl)) :
    AllExprs (Desugared types) (.decl (leaveDecl context decl)) := by
  unfold leaveDecl
  simp only
  split_ifs
  · obtain ⟨attrs, members⟩ := allExprs_decl.1 done
    refine allExprs_decl.2 ⟨List.forall_mem_append.2 ⟨attrs, ?_⟩, members⟩
    simp
  · exact done

/-- Whatever a unit is made of, its removal of sugar leaves none. -/
theorem passing (context : Context) : Passing (traversal context).Walks
    (traversal context).Finishes (fun _ => True) (OfExpr (Desugared context.types)) where
  opens walks := .inr (DeclTraversal.Thorough.opens
    (DeclTraversal.thorough_of_enter fun _ _ skipped => by cases gives_pure.1 skipped) walks)
  agrees _ _ := trivial
  head := by
    rintro rebuilt result ⟨scope, left⟩
    cases rebuilt with
    | expr root =>
      obtain ⟨final, leftRoot, same⟩ := gives_bind.1 left
      obtain rfl := gives_pure.1 same
      exact head_leave leftRoot
    | stmt root | attr root | member root | decl root =>
      obtain ⟨final, -, same⟩ := gives_bind.1 left
      obtain rfl := gives_pure.1 same
      rfl
    | unit root =>
      obtain rfl := gives_pure.1 left
      rfl
  leaves := by
    rintro rebuilt result ⟨scope, left⟩ - inside
    cases rebuilt with
    | expr root =>
      obtain ⟨final, leftRoot, same⟩ := gives_bind.1 left
      obtain rfl := gives_pure.1 same
      exact done_leave inside leftRoot
    | stmt root =>
      obtain rfl := gives_pure.1 left
      exact done_leaveStmt (allExprs_of_children (by simp) inside)
    | attr root =>
      obtain ⟨final, leftRoot, same⟩ := gives_bind.1 left
      obtain rfl := gives_pure.1 same
      exact done_leaveAttribute (allExprs_of_children (by simp) inside) leftRoot
    | member root =>
      obtain rfl := gives_pure.1 left
      exact done_leaveMember (allExprs_of_children (by simp) inside)
    | decl root =>
      obtain rfl := gives_pure.1 left
      exact done_leaveDecl (allExprs_of_children (by simp) inside)
    | unit root =>
      obtain rfl := gives_pure.1 left
      exact allExprs_of_children (by simp) inside

/-! ## Units -/

/-- What comes out of the walk has no sugar in it. -/
theorem done_walk {source result : Node} (walks : (traversal context).Walks source result) :
    AllExprs (Desugared context.types) result :=
  ((passing context).throughout walks (throughout_true source)).1

/-- Walked declarations have no sugar in them. -/
theorem done_decls {scope : Scope} {decls results : List TypeDecl}
    (walked : (traversal context).decls scope decls = .ok results) :
    ∀ decl ∈ results, AllExprs (Desugared context.types) (.decl decl) := by
  -- Declarations are walked as those of a unit without statements.
  have walkedUnit : Gives ((traversal context).unit scope ⟨"", [], [], decls, [], none⟩)
      ⟨"", [], [], results, [], none⟩ :=
    gives_bind.2 ⟨results, walked, gives_bind.2 ⟨[], gives_pure.2 rfl, gives_pure.2 rfl⟩⟩
  exact (allExprs_unit.1 (done_walk (DeclTraversal.walks_unit walkedUnit))).1

/-- Walked statements have no sugar in them. -/
theorem done_stmts {scope : Scope} {stmts results : List Stmt}
    (walked : (traversal context).stmts scope stmts = .ok results) :
    ∀ stmt ∈ results, AllExprs (Desugared context.types) (.stmt stmt) := by
  -- Statements are walked as those of a block.
  have walkedBlock : Gives ((traversal context).stmt scope (.block stmts)) (.block results) :=
    gives_bind.2 ⟨results, walked, gives_pure.2 rfl⟩
  have walks : (traversal context).Walks (.stmt (.block stmts)) (.stmt (.block results)) :=
    ⟨scope, gives_bind.2 ⟨.block results, walkedBlock, gives_pure.2 rfl⟩⟩
  exact allExprs_block.1 (done_walk walks)

/-- Statements that are moved in front of a method bring in no sugar. -/
theorem done_prependToStart {globals : List Stmt} {members : List Member}
    (doneGlobals : ∀ stmt ∈ globals, AllExprs (Desugared types) (.stmt stmt))
    (doneMembers : ∀ member ∈ members, AllExprs (Desugared types) (.member member)) :
    ∀ member ∈ prependToStart globals members, AllExprs (Desugared types) (.member member) := by
  fun_induction prependToStart globals members with
  | case1 => simpa using doneGlobals
  | case2 method rest start =>
    obtain ⟨first, later⟩ := List.forall_mem_cons.1 doneMembers
    obtain ⟨attrs, body⟩ := allExprs_method.1 first
    refine List.forall_mem_cons.2 ⟨allExprs_method.2 ⟨attrs, ?_⟩, later⟩
    exact List.forall_mem_append.2 ⟨doneGlobals, body⟩
  | case3 method rest _ inductionHypothesis | case4 member rest _ inductionHypothesis =>
    obtain ⟨first, later⟩ := List.forall_mem_cons.1 doneMembers
    exact List.forall_mem_cons.2 ⟨first, inductionHypothesis later⟩

/-- Statements that are moved into the script class bring in no sugar. -/
theorem done_moveGlobals {globals : List Stmt} {decls : List TypeDecl}
    (doneGlobals : ∀ stmt ∈ globals, AllExprs (Desugared types) (.stmt stmt))
    (doneDecls : ∀ decl ∈ decls, AllExprs (Desugared types) (.decl decl)) :
    ∀ decl ∈ moveGlobals globals decls, AllExprs (Desugared types) (.decl decl) := by
  fun_induction moveGlobals globals decls with
  | case1 => exact doneDecls
  | case2 decl rest script =>
    obtain ⟨first, later⟩ := List.forall_mem_cons.1 doneDecls
    obtain ⟨attrs, members⟩ := allExprs_decl.1 first
    refine List.forall_mem_cons.2 ⟨allExprs_decl.2 ⟨attrs, ?_⟩, later⟩
    exact done_prependToStart doneGlobals members
  | case3 decl rest _ inductionHypothesis =>
    obtain ⟨first, later⟩ := List.forall_mem_cons.1 doneDecls
    exact List.forall_mem_cons.2 ⟨first, inductionHypothesis later⟩

/-- A unit without sugar has no statements at top level either. -/
theorem unit_desugared {unit result : SourceUnit} (lowered : Sugar.unit context unit = .ok result) :
    AllExprs (Desugared context.types) (.unit result) ∧ result.globals = [] := by
  obtain ⟨decls, walkedDecls, lowered⟩ := gives_bind.1
    (show Gives (Sugar.unit context unit) result from lowered)
  have doneDecls := done_decls walkedDecls
  split_ifs at lowered with none
  · obtain rfl := gives_pure.1 lowered
    have noGlobals := List.isEmpty_iff.1 none
    exact ⟨allExprs_unit.2 ⟨doneDecls, by simp [noGlobals]⟩, noGlobals⟩
  · split at lowered
    · cases lowered
    · obtain ⟨globals, walkedGlobals, finished⟩ := gives_bind.1 lowered
      obtain rfl := gives_pure.1 finished
      have moved := done_moveGlobals (done_stmts walkedGlobals) doneDecls
      exact ⟨allExprs_unit.2 ⟨moved, by simp⟩, rfl⟩

/-- Removing the sugar of a unit leaves none, and nothing at top level. -/
theorem unit_sugarFree {unit result : SourceUnit} (lowered : Sugar.unit context unit = .ok result) :
    AllExprs Expr.SugarFree (.unit result) ∧ result.globals = [] := by
  obtain ⟨desugared, noGlobals⟩ := unit_desugared lowered
  exact ⟨desugared.mono Desugared.sugarFree, noGlobals⟩

end ScriptSharp.Lowering.Sugar

namespace ScriptSharp.Lowering.StaticAccess

open Outcome Node

variable {types : TypeTable}

/-- A static member that keeps its receiver has a type there. -/
theorem head_of_settled {target : Expr} {binding : MemberBinding}
    (settled : needsTypeReceiver types target binding = false)
    (isStatic : binding.isStatic = true) : target.head = .typeName := by
  simp only [needsTypeReceiver, isStatic, Bool.true_and] at settled
  rw [Expr.head]
  split at settled
  case h_1 same => rw [same]
  case h_2 => cases settled

/-- Leaving an expression that is free of sugar resolves it. -/
theorem resolved_leave {expr : Expr} (free : expr.SugarFree)
    (inside : ∀ child ∈ (Node.expr expr).children, AllExprs Expr.Resolved child) :
    AllExprs Expr.Resolved (.expr (leave types expr)) := by
  cases expr
  case member note target name binding =>
    simp only [children, parts, Expr.parts, Part.value, List.map_cons, List.map_nil,
      List.forall_mem_singleton] at inside
    simp only [leave]
    split_ifs with needed
    · exact allExprs_member.2 ⟨⟨trivial, fun _ => rfl⟩, allExprs_typeRef.2 ⟨trivial, trivial⟩⟩
    · exact allExprs_member.2 ⟨⟨trivial, head_of_settled (by simpa using needed)⟩, inside⟩
  all_goals exact allExprs_expr.2 ⟨⟨free, trivial⟩, inside⟩

/-- Leaving an expression keeps its head. -/
theorem head_leave (expr : Expr) : expr.head = (leave types expr).head := by
  cases expr
  case member =>
    simp only [leave]
    split_ifs <;> rfl
  all_goals rfl

/-- The walk makes resolved expressions of expressions that are free of sugar. -/
theorem passing (types : TypeTable) : Passing (traversal types).Walks (traversal types).Finishes
    (OfExpr Expr.SugarFree) (OfExpr Expr.Resolved) :=
  DeclTraversal.passing_stepping (fun _ _ => nofun) stable_sugarFree.agreesNode
    (fun _ => head_leave) fun _ _ => resolved_leave

/-- Once the receivers are settled, every reference is resolved. -/
theorem unit_resolved (types : TypeTable) {unit : SourceUnit}
    (free : AllExprs Expr.SugarFree (.unit unit))
    (none : unit.globals = []) :
    AllExprs Expr.Resolved (.unit (StaticAccess.unit types unit)) ∧
      (StaticAccess.unit types unit).globals = [] := by
  have walked : Gives ((traversal types).unit () unit) (StaticAccess.unit types unit) := rfl
  exact ⟨((passing types).throughout (DeclTraversal.walks_unit walked) free).1,
    DeclTraversal.unit_globals walked none⟩

end ScriptSharp.Lowering.StaticAccess
