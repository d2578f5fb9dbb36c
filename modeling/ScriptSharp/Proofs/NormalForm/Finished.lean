import ScriptSharp.Lowering.Escaping
import ScriptSharp.Proofs.Constructors.Placement
import ScriptSharp.Proofs.NormalForm.Forms

/-!
# The last two steps

Moving initializers into constructors and marking names keep every stable property. The first one
leaves no field of a class or a struct initialized, the second one no name unmarked.

Neither of them depends on the attributes of fields, so what is known of a unit without those is
kept as well.
-/

namespace ScriptSharp

/-! ## Initializers -/

namespace Lowering.Constructors

open Outcome
open Node (AllExprs allExprs_typeRef allExprs_selfRef allExprs_assign allExprs_member
  allExprs_exprStmt allExprs_field allExprs_ctor allExprs_branch allExprs_unary allExprs_literal
  allExprs_decl allExprs_unit)

variable {holds : Expr → Prop} {decl result : TypeDecl}

/-- The move of initializers, told by what the members become. -/
theorem decl_eq : Constructors.decl decl =
    if decl.kind ≠ .classType ∧ decl.kind ≠ .structType then .ok decl
    else if (initializers decl false).isEmpty then .ok { decl with members := emptied decl }
    else if decl.kind = .structType then .error (.structInitializers decl.name.name decl.span)
    else .ok (placed decl) := rfl

/-- What becomes of a declaration: nothing but classes and structs is changed. -/
theorem decl_cases (lowered : Constructors.decl decl = .ok result) :
    (decl.kind ≠ .classType ∧ decl.kind ≠ .structType) ∧ result = decl ∨
      result = { decl with members := emptied decl } ∨ result = placed decl := by
  rw [decl_eq] at lowered
  split_ifs at lowered with other
  · exact .inl ⟨other, (Except.ok.inj lowered).symm⟩
  · exact .inr (.inl (Except.ok.inj lowered).symm)
  · exact .inr (.inr (Except.ok.inj lowered).symm)

section Synthesized

variable (stable : Stable holds)

include stable

/-- The statement that initializes a field keeps a stable property of its value. -/
theorem allExprs_initializer {field : FieldDecl} {init : Expr}
    (all : AllExprs holds (.expr init)) :
    AllExprs holds (.stmt (initializer decl field init)) := by
  simp only [initializer, allExprs_exprStmt, allExprs_assign, allExprs_member]
  refine ⟨stable.plain rfl, ⟨stable.member fun isStatic => ?_, ?_⟩, all⟩
  · have fieldStatic : field.modifiers.isStatic = true := isStatic
    rw [if_pos fieldStatic]
    rfl
  · split
    · exact allExprs_typeRef.2 (stable.plain rfl)
    · exact allExprs_selfRef.2 (stable.plain rfl)

/-- All statements that initialize fields keep a stable property of the members. -/
theorem allExprs_initializers (all : ∀ member ∈ decl.members, AllExprs holds (.member member))
    (isStatic : Bool) : ∀ stmt ∈ initializers decl isStatic, AllExprs holds (.stmt stmt) := by
  rw [initializers_eq_map]
  refine List.forall_mem_map.2 fun (field, init) member => ?_
  obtain ⟨fieldOf, -, present⟩ := mem_initialized.1 member
  have parts := allExprs_field.1 (all _ (mem_fields.1 fieldOf))
  exact allExprs_initializer stable (parts.2 init present)

/-- The guard has every stable property. -/
theorem allExprs_guardRef : AllExprs holds (.expr (guardRef decl)) :=
  allExprs_member.2 ⟨stable.member nofun, allExprs_selfRef.2 (stable.plain rfl)⟩

/-- Guarded statements keep a stable property. -/
theorem allExprs_guarded {inits : List Stmt} (all : ∀ stmt ∈ inits, AllExprs holds (.stmt stmt)) :
    AllExprs holds (.stmt (guarded decl inits)) := by
  have guard : AllExprs holds (.expr (guardRef decl)) := allExprs_guardRef stable
  refine allExprs_branch.2 ⟨allExprs_unary.2 ⟨stable.plain rfl, guard⟩, ?_⟩
  refine List.forall_mem_append.2 ⟨all, List.forall_mem_singleton.2 ?_⟩
  refine allExprs_exprStmt.2 (allExprs_assign.2 ⟨stable.plain rfl, guard, ?_⟩)
  exact allExprs_literal.2 (stable.plain rfl)

/-- A guarded member keeps a stable property. -/
theorem allExprs_guardMember {inits : List Stmt} {member : Member}
    (allInits : ∀ stmt ∈ inits, AllExprs holds (.stmt stmt))
    (all : AllExprs holds (.member member)) :
    AllExprs holds (.member (guardMember decl inits member)) := by
  cases member with
  | field | method => exact all
  | ctor ctor =>
    simp only [guardMember]
    split_ifs
    · exact all
    · obtain ⟨args, body⟩ := allExprs_ctor.1 all
      exact allExprs_ctor.2
        ⟨args, List.forall_mem_cons.2 ⟨allExprs_guarded stable allInits, body⟩⟩

end Synthesized

/-- A member without its initializer keeps a property. -/
theorem allExprs_withoutInit {member : Member} (all : AllExprs holds (.member member)) :
    AllExprs holds (.member (withoutInit member)) := by
  cases member with
  | field decl => exact allExprs_field.2 ⟨(allExprs_field.1 all).1, nofun⟩
  | method | ctor => exact all

/-- Members with static initializers moved keep a property that the initializers have. -/
theorem allExprs_prependStatic {inits : List Stmt} {members : List Member}
    (allInits : ∀ stmt ∈ inits, AllExprs holds (.stmt stmt))
    (all : ∀ member ∈ members, AllExprs holds (.member member)) :
    ∀ member ∈ prependStatic inits members, AllExprs holds (.member member) := by
  fun_induction prependStatic inits members with
  | case1 =>
    refine List.forall_mem_singleton.2 (allExprs_ctor.2 ⟨?_, allInits⟩)
    simp [CtorDecl.chainArgs]
  | case2 ctor rest =>
    obtain ⟨first, later⟩ := List.forall_mem_cons.1 all
    obtain ⟨args, body⟩ := allExprs_ctor.1 first
    refine List.forall_mem_cons.2 ⟨allExprs_ctor.2 ⟨args, ?_⟩, later⟩
    exact List.forall_mem_append.2 ⟨allInits, body⟩
  | case3 ctor rest _ inductionHypothesis | case4 member rest _ inductionHypothesis =>
    obtain ⟨first, later⟩ := List.forall_mem_cons.1 all
    exact List.forall_mem_cons.2 ⟨first, inductionHypothesis later⟩

/-- Emptied members keep a stable property. -/
theorem allExprs_emptied (stable : Stable holds)
    (all : ∀ member ∈ decl.members, AllExprs holds (.member member)) :
    ∀ member ∈ emptied decl, AllExprs holds (.member member) := by
  have bare : ∀ member ∈ decl.members.map withoutInit, AllExprs holds (.member member) :=
    List.forall_mem_map.2 fun member memberOf => allExprs_withoutInit (all member memberOf)
  unfold emptied
  split_ifs
  · exact bare
  · exact allExprs_prependStatic (allExprs_initializers stable all true) bare

/-- The members of the result keep a stable property. -/
theorem allExprs_placed (stable : Stable holds)
    (all : ∀ member ∈ decl.members, AllExprs holds (.member member)) :
    ∀ member ∈ (placed decl).members, AllExprs holds (.member member) := by
  have allInits := allExprs_initializers stable all false
  have rest := allExprs_emptied stable all
  unfold placed placeInstance
  split_ifs
  · refine List.forall_mem_append.2 ⟨List.forall_mem_map.2 fun member memberOf => ?_, ?_⟩
    · exact allExprs_guardMember stable allInits (rest member memberOf)
    · exact List.forall_mem_singleton.2 (allExprs_field.2 ⟨nofun, nofun⟩)
  · refine List.forall_mem_append.2 ⟨rest, ?_⟩
    exact List.forall_mem_singleton.2 (allExprs_ctor.2 ⟨nofun, allInits⟩)

/-! Attributes of fields play no role. -/

/-- Initializers do not depend on the attributes of fields. -/
theorem initializers_withoutFieldAttributes (isStatic : Bool) :
    initializers decl.withoutFieldAttributes isStatic = initializers decl isStatic := by
  unfold initializers TypeDecl.fields TypeDecl.withoutFieldAttributes
  simp only [List.filterMap_map, List.filterMap_filterMap]
  refine List.filterMap_congr fun member _ => ?_
  cases member <;> rfl

/-- The attributes of fields can be dropped before or after static initializers move. -/
theorem prependStatic_withoutFieldAttributes (inits : List Stmt) (members : List Member) :
    prependStatic inits (members.map .withoutFieldAttributes) =
      (prependStatic inits members).map .withoutFieldAttributes := by
  induction members with
  | nil => rfl
  | cons first rest inductionHypothesis =>
    cases first with
    | ctor ctor =>
      simp only [List.map_cons, Member.withoutFieldAttributes, prependStatic]
      split_ifs
      · rfl
      · rw [inductionHypothesis]
        rfl
    | field | method =>
      simp only [List.map_cons, Member.withoutFieldAttributes, prependStatic, inductionHypothesis]

/-- The attributes of fields can be dropped before or after fields are emptied. -/
theorem emptied_withoutFieldAttributes :
    emptied decl.withoutFieldAttributes = (emptied decl).map .withoutFieldAttributes := by
  have bare : decl.withoutFieldAttributes.members.map withoutInit =
      (decl.members.map withoutInit).map .withoutFieldAttributes := by
    simp only [TypeDecl.withoutFieldAttributes, List.map_map]
    refine List.map_congr_left fun member _ => ?_
    cases member <;> rfl
  unfold emptied
  rw [initializers_withoutFieldAttributes, bare]
  split_ifs
  · rfl
  · exact prependStatic_withoutFieldAttributes _ _

/-- The attributes of fields can be dropped before or after initializers of objects move. -/
theorem placeInstance_withoutFieldAttributes (inits : List Stmt) (members : List Member) :
    placeInstance decl.withoutFieldAttributes inits (members.map .withoutFieldAttributes) =
      (placeInstance decl inits members).map .withoutFieldAttributes := by
  have sameCtors : (members.map Member.withoutFieldAttributes).any isInstanceCtor =
      members.any isInstanceCtor := by
    rw [List.any_map]
    refine congrArg members.any (funext fun member => ?_)
    cases member <;> rfl
  have sameGuards : (members.map Member.withoutFieldAttributes).map (guardMember decl inits) =
      (members.map (guardMember decl inits)).map .withoutFieldAttributes := by
    rw [List.map_map, List.map_map]
    refine List.map_congr_left fun member _ => ?_
    cases member with
    | ctor ctor =>
      simp only [Function.comp_apply, Member.withoutFieldAttributes, guardMember]
      split_ifs <;> rfl
    | field | method => rfl
  unfold placeInstance
  rw [sameCtors]
  split_ifs
  · rw [List.map_append, ← sameGuards]
    rfl
  · rw [List.map_append]
    rfl

/-- The attributes of fields can be dropped before or after all initializers move. -/
theorem placed_withoutFieldAttributes :
    placed decl.withoutFieldAttributes = (placed decl).withoutFieldAttributes := by
  unfold placed
  rw [emptied_withoutFieldAttributes, initializers_withoutFieldAttributes,
    placeInstance_withoutFieldAttributes]
  rfl

/-- Dropping the attributes of fields does not disturb the move of initializers. -/
theorem decl_withoutFieldAttributes (lowered : Constructors.decl decl = .ok result) :
    Constructors.decl decl.withoutFieldAttributes = .ok result.withoutFieldAttributes := by
  have sameKind : decl.withoutFieldAttributes.kind = decl.kind := rfl
  rw [decl_eq] at lowered ⊢
  rw [sameKind, initializers_withoutFieldAttributes, emptied_withoutFieldAttributes,
    placed_withoutFieldAttributes]
  split_ifs at lowered ⊢
  all_goals
    obtain rfl := Except.ok.inj lowered
    rfl

/-- Moving initializers keeps every stable property of a declaration. -/
theorem decl_allExprs (stable : Stable holds) (lowered : Constructors.decl decl = .ok result)
    (all : AllExprs holds (.decl decl)) : AllExprs holds (.decl result) := by
  obtain ⟨attrs, members⟩ := allExprs_decl.1 all
  rcases decl_cases lowered with ⟨-, rfl⟩ | rfl | rfl
  · exact all
  · exact allExprs_decl.2 ⟨attrs, allExprs_emptied stable members⟩
  · exact allExprs_decl.2 ⟨attrs, allExprs_placed stable members⟩

/-- No field of a class or a struct has an initializer. -/
def Uninitialized (unit : SourceUnit) : Prop :=
  ∀ decl ∈ unit.decls, decl.kind = .classType ∨ decl.kind = .structType →
    ∀ field ∈ decl.fields, field.init = none

/-- No class or struct that comes out has initialized fields. -/
theorem decl_uninitialized (lowered : Constructors.decl decl = .ok result)
    (kind : result.kind = .classType ∨ result.kind = .structType) :
    ∀ field ∈ result.fields, field.init = none := by
  intro field fieldOf
  rcases decl_cases lowered with ⟨other, rfl⟩ | rfl | rfl
  · exact absurd kind (not_or.2 other)
  · exact (bare_emptied decl).init_eq_none (mem_fields.1 fieldOf)
  · exact (bare_placed decl).init_eq_none (mem_fields.1 fieldOf)

/-- What moving the initializers does to a whole unit. -/
theorem unit_finished (stable : Stable holds) {unit result : SourceUnit}
    (lowered : Constructors.unit unit = .ok result) :
    (AllExprs holds (.unit unit) → AllExprs holds (.unit result)) ∧
      (AllExprs holds (.unit unit.withoutFieldAttributes) →
        AllExprs holds (.unit result.withoutFieldAttributes)) ∧
      result.globals = unit.globals ∧ Uninitialized result := by
  obtain ⟨decls, loweredDecls, finished⟩ := gives_bind.1
    (show Gives (Constructors.unit unit) result from lowered)
  obtain rfl := gives_pure.1 finished
  have related := gives_mapM.1 loweredDecls
  refine ⟨fun all => ?_, fun all => ?_, rfl, fun decl declOf => ?_⟩
  · obtain ⟨allDecls, globals⟩ := allExprs_unit.1 all
    refine allExprs_unit.2 ⟨fun decl declOf => ?_, globals⟩
    obtain ⟨source, sourceOf, loweredDecl⟩ := exists_related related declOf
    exact decl_allExprs stable loweredDecl (allDecls source sourceOf)
  · obtain ⟨allDecls, globals⟩ := allExprs_unit.1 all
    refine allExprs_unit.2 ⟨List.forall_mem_map.2 fun decl declOf => ?_, globals⟩
    obtain ⟨source, sourceOf, loweredDecl⟩ := exists_related related declOf
    exact decl_allExprs stable (decl_withoutFieldAttributes loweredDecl)
      (allDecls _ (List.mem_map_of_mem sourceOf))
  · obtain ⟨_, -, loweredDecl⟩ := exists_related related declOf
    exact decl_uninitialized loweredDecl

end Lowering.Constructors

/-! ## Marks -/

namespace Lowering.Escaping

open Outcome Node

/-- What marking names makes of a node with finished parts. -/
def mark : Node → Node
  | .expr root => .expr (leave root)
  | .stmt root => .stmt (leaveStmt root)
  | .attr root => .attr (leaveAttribute root)
  | .member root => .member (leaveMember root)
  | .decl root => .decl (leaveDecl root)
  | .unit root => .unit root

/-- Finishing a node marks its own names. -/
theorem eq_mark {node result : Node} (finishes : traversal.Finishes node result) :
    result = mark node := by
  obtain ⟨_, left⟩ := finishes
  cases node <;> exact gives_pure.1 left

/-- Marking changes no part of a node. -/
theorem children_mark (node : Node) : (mark node).children = node.children := by
  cases node with
  | expr root => cases root <;> rfl
  | stmt root => cases root <;> rfl
  | member root => cases root <;> rfl
  | attr root => simp [mark, leaveAttribute, children, parts]
  | decl root | unit root => rfl

/-- A marked node keeps its head. -/
theorem head_mark (node : Node) : (mark node).head = node.head := by
  cases node with
  | expr root => cases root <;> rfl
  | stmt | attr | member | decl | unit => rfl

/-- Marking establishes what it establishes at single nodes. -/
theorem passing {before after : Node → Prop}
    (agrees : ∀ {source rebuilt}, SameHeads source rebuilt → before source → before rebuilt)
    (marks : ∀ node, before node → after (mark node)) :
    Passing traversal.Walks traversal.Finishes before after where
  opens walks := .inr (DeclTraversal.Thorough.opens
    (DeclTraversal.thorough_of_enter fun _ _ skipped => by cases gives_pure.1 skipped) walks)
  agrees := agrees
  head finishes := by rw [eq_mark finishes, head_mark]
  leaves {rebuilt result} finishes here inside := by
    rw [eq_mark finishes]
    exact throughout_iff.2 ⟨marks rebuilt here, by rwa [children_mark]⟩

/-- The names of a marked node are marked one by one. -/
theorem idents_mark (node : Node) : (mark node).idents = node.idents.map Ident.escape := by
  cases node with
  | expr root => cases root <;> simp [mark, leave, idents, Expr.idents]
  | stmt root => cases root <;> simp [mark, leaveStmt, idents, Stmt.idents]
  | attr root =>
    simp only [mark, leaveAttribute, idents, List.filterMap_map, List.map_filterMap]
    rfl
  | member root => cases root <;> simp [mark, leaveMember, param, idents, Member.idents]
  | decl root => simp [mark, leaveDecl, idents]
  | unit root => rfl

/-- The names of a marked node are marked. -/
theorem marked_mark (node : Node) : (mark node).Marked := by
  simp [Node.Marked, idents_mark, Ident.escape]

/-! A walk of a unit gives the marked one, with or without the attributes of fields. -/

/-- Dropping the attributes of fields does not disturb the marking of a member. -/
theorem member_withoutFieldAttributes {member result : Member}
    (walked : Gives (traversal.member () member) result) :
    Gives (traversal.member () member.withoutFieldAttributes) result.withoutFieldAttributes := by
  refine DeclTraversal.member_withoutFieldAttributes rfl (fun finished _ left => ?_) walked
  obtain rfl := gives_pure.1 left
  cases finished <;> rfl

/-- Dropping the attributes of fields does not disturb the marking of a declaration. -/
theorem decl_withoutFieldAttributes {decl result : TypeDecl}
    (walked : Gives (traversal.decl () decl) result) :
    Gives (traversal.decl () decl.withoutFieldAttributes) result.withoutFieldAttributes := by
  obtain ⟨attrs, walkedAttrs, rest⟩ := gives_bind.1 walked
  obtain ⟨members, walkedMembers, left⟩ := gives_bind.1 rest
  obtain rfl := gives_pure.1 left
  refine gives_bind.2 ⟨attrs, walkedAttrs,
    gives_bind.2 ⟨members.map .withoutFieldAttributes, gives_mapM.2 ?_, gives_pure.2 rfl⟩⟩
  simp only [TypeDecl.withoutFieldAttributes, List.forall₂_map_left_iff,
    List.forall₂_map_right_iff]
  exact (gives_mapM.1 walkedMembers).imp fun _ _ => member_withoutFieldAttributes

/-- Marking a unit is the walk of it. -/
theorem unit_walked (unit : SourceUnit) :
    Gives (traversal.unit () unit) (Escaping.unit unit) := rfl

/-- Dropping the attributes of fields does not disturb the marking of a unit. -/
theorem unit_withoutFieldAttributes (unit : SourceUnit) :
    Gives (traversal.unit () unit.withoutFieldAttributes)
      (Escaping.unit unit).withoutFieldAttributes := by
  obtain ⟨decls, walkedDecls, rest⟩ := gives_bind.1 (unit_walked unit)
  obtain ⟨globals, walkedGlobals, left⟩ := gives_bind.1 rest
  rw [gives_pure.1 left]
  refine gives_bind.2 ⟨decls.map .withoutFieldAttributes, gives_mapM.2 ?_,
    gives_bind.2 ⟨globals, walkedGlobals, gives_pure.2 rfl⟩⟩
  simp only [SourceUnit.withoutFieldAttributes, List.forall₂_map_left_iff,
    List.forall₂_map_right_iff]
  exact (gives_mapM.1 walkedDecls).imp fun _ _ => decl_withoutFieldAttributes

/-- A marked field was a field before, and has no new initializer. -/
theorem member_field {member : Member} {field : FieldDecl}
    (walked : Gives (traversal.member () member) (.field field)) :
    ∃ source, member = .field source ∧ (source.init = none → field.init = none) := by
  obtain ⟨finished, walkedParts, left⟩ := gives_bind.1 walked
  have same : Member.field field = leaveMember finished := gives_pure.1 left
  cases member with
  | field source =>
    simp only [DeclTraversal.memberParts, gives_bind, gives_pure] at walkedParts
    obtain ⟨_, -, init, walkedInit, rfl⟩ := walkedParts
    cases same
    refine ⟨source, rfl, fun none => ?_⟩
    rw [none] at walkedInit
    exact gives_pure.1 walkedInit
  | method | ctor =>
    simp only [DeclTraversal.memberParts, gives_bind, gives_pure] at walkedParts
    obtain ⟨_, -, _, -, rfl⟩ := walkedParts
    cases same

/-- Marking gives no field an initializer. -/
theorem unit_uninitialized {unit : SourceUnit} (bare : Constructors.Uninitialized unit) :
    Constructors.Uninitialized (Escaping.unit unit) := by
  obtain ⟨decls, walkedDecls, rest⟩ := gives_bind.1 (unit_walked unit)
  obtain ⟨globals, -, left⟩ := gives_bind.1 rest
  rw [gives_pure.1 left]
  intro decl declOf kind field fieldOf
  obtain ⟨source, sourceOf, walkedDecl⟩ := exists_related (gives_mapM.1 walkedDecls) declOf
  obtain ⟨_, -, walkedDecl⟩ := gives_bind.1 walkedDecl
  obtain ⟨members, walkedMembers, left⟩ := gives_bind.1 walkedDecl
  obtain rfl := gives_pure.1 left
  obtain ⟨member, memberOf, walkedMember⟩ := exists_related (gives_mapM.1 walkedMembers)
    (Constructors.mem_fields.1 fieldOf)
  obtain ⟨origin, rfl, keeps⟩ := member_field walkedMember
  exact keeps (bare source sourceOf kind origin (Constructors.mem_fields.2 memberOf))

/-! What marking keeps of single expressions. -/

/-- A resolved expression stays resolved when its names are marked. -/
theorem resolved_leave {expr : Expr} (resolved : expr.Resolved) : (leave expr).Resolved := by
  cases expr
  case ident => exact ⟨resolved.sugarFree, trivial⟩
  case member => exact ⟨trivial, resolved.received⟩
  case lambda => exact ⟨trivial, trivial⟩
  all_goals exact resolved

/-- A shaped function literal stays shaped when its names are marked. -/
theorem shaped_leave {expr : Expr} (shaped : expr.Shaped) : (leave expr).Shaped := by
  cases expr
  case lambda note params ret body =>
    obtain ⟨paramTypes, result, stmts, sameTypes, rest⟩ := shaped
    refine ⟨paramTypes, result, stmts, ?_, rest⟩
    rw [← sameTypes, List.map_map]
    rfl
  all_goals exact shaped

/-- A normal expression stays normal when its names are marked. -/
theorem normal_leave {expr : Expr} (normal : expr.Normal) : (leave expr).Normal :=
  ⟨resolved_leave normal.resolved, shaped_leave normal.shaped⟩

/-- A stable property that marked expressions keep is kept by the whole walk. -/
theorem passing_stable {holds : Expr → Prop} (stable : Stable holds)
    (keeps : ∀ {expr}, holds expr → holds (leave expr)) :
    Passing traversal.Walks traversal.Finishes (OfExpr holds) (OfExpr holds) :=
  passing stable.agreesNode fun node here => by
    cases node with
    | expr root => exact keeps here
    | _ => trivial

/-- What marking the names does to a whole unit. -/
theorem unit_finished {unit : SourceUnit}
    (normal : AllExprs Expr.Normal (.unit unit.withoutFieldAttributes))
    (resolved : AllExprs Expr.Resolved (.unit unit)) :
    AllExprs Expr.Normal (.unit (Escaping.unit unit).withoutFieldAttributes) ∧
      AllExprs Expr.Resolved (.unit (Escaping.unit unit)) ∧
      Throughout Node.Marked (.unit (Escaping.unit unit)) := by
  have walks := DeclTraversal.walks_unit (unit_walked unit)
  have walksWithout := DeclTraversal.walks_unit (unit_withoutFieldAttributes unit)
  refine ⟨((passing_stable stable_normal normal_leave).throughout walksWithout normal).1,
    ((passing_stable stable_resolved resolved_leave).throughout walks resolved).1, ?_⟩
  exact ((passing (fun _ => id) fun node _ => marked_mark node).throughout walks
    (throughout_true _)).1

end Lowering.Escaping

end ScriptSharp
