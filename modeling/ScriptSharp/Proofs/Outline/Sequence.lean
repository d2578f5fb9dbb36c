import ScriptSharp.Proofs.NormalForm.Sequence
import ScriptSharp.Proofs.Outline.Extension

/-!
# Lowering only adds to outlines

Every step extends the unit that it runs on, and so does every sequence of steps, in whatever order
and however often they run: `Pass.runAll_extends`. Most steps are walks that keep headers. The three
others change members themselves: sugar moves the statements at top level into a method, inference
carries a state along, and initializers move into constructors.
-/

namespace ScriptSharp.Lowering

open Outcome

/-! ## Walks -/

/-- Redirecting static accesses changes nothing but expressions. -/
theorem StaticAccess.keepsHeaders (types : TypeTable) : (traversal types).KeepsHeaders :=
  DeclTraversal.keepsHeaders_ofTraversal _

/-- Taking assignments apart changes nothing but statements. -/
theorem ValueChain.keepsHeaders (types : TypeTable) : (traversal types).KeepsHeaders :=
  DeclTraversal.keepsHeaders_ofTraversal _

/-- Casting the results of known calls changes nothing but expressions. -/
theorem KnownCalls.keepsHeaders (context : Context) : (traversal context).KeepsHeaders :=
  DeclTraversal.keepsHeaders_ofTraversal _

namespace Coercion

/-- A member with casts put in keeps its header. -/
theorem header_leaveMember (types : TypeTable) (member : Member) :
    (leaveMember types member).header = member.header := by
  cases member <;> rfl

/-- Putting casts in keeps all headers. -/
theorem keepsHeaders (types : TypeTable) : (traversal types).KeepsHeaders where
  attr left := by rw [gives_pure.1 left]
  member left := by rw [gives_pure.1 left, header_leaveMember]
  decl left := by
    obtain rfl := gives_pure.1 left
    exact .refl _

end Coercion

namespace Escaping

/-- Marking the names of parameters keeps their headers. -/
theorem header_params (params : List ParamDecl) :
    (params.map param).map ParamDecl.header = params.map ParamDecl.header := by
  rw [List.map_map]
  rfl

/-- A member with its names marked keeps its header. -/
theorem header_leaveMember (member : Member) : (leaveMember member).header = member.header := by
  cases member with
  | field decl => rfl
  | method decl | ctor decl => simp only [leaveMember, Member.header, header_params, Ident.escape]

/-- A declaration with its names marked keeps its header. -/
theorem header_leaveDecl (decl : TypeDecl) : (leaveDecl decl).header = decl.header := by
  simp only [TypeDecl.header, leaveDecl, List.map_map]
  rfl

/-- Marking names keeps all headers. -/
theorem keepsHeaders : traversal.KeepsHeaders where
  attr left := by
    rw [gives_pure.1 left]
    rfl
  member left := by rw [gives_pure.1 left, header_leaveMember]
  decl {_ decl _} left := by
    rw [gives_pure.1 left]
    exact ⟨header_leaveDecl decl, List.prefix_refl _, List.prefix_refl _⟩

end Escaping

/-! ## Sugar -/

namespace Sugar

variable {context : Context}

/-- A member without sugar keeps its header. -/
theorem header_leaveMember (types : TypeTable) (scope : Scope) (member : Member) :
    (leaveMember types scope member).header = member.header := by
  cases member <;> rfl

/-- An attribute without sugar keeps its type. -/
theorem type_leaveAttribute {types : TypeTable} {attr left : Attribute}
    (leaves : leaveAttribute types attr = .ok left) : left.ty = attr.ty := by
  obtain ⟨-, -, finished⟩ := (gives_bind (m := Except Fault)).1 leaves
  obtain rfl := gives_pure.1 finished
  rfl

/-- Leaving a declaration adds at most attributes to it. -/
theorem extends_leaveDecl (decl : TypeDecl) : decl.Extends (leaveDecl context decl) := by
  simp only [leaveDecl]
  split
  · refine ⟨rfl, List.prefix_refl _, ?_⟩
    rw [List.map_append]
    exact List.prefix_append _ _
  · exact .refl _

/-- Removing sugar inside of members keeps their headers. -/
theorem keepsHeaders (context : Context) : (traversal context).KeepsHeaders where
  attr left := type_leaveAttribute left
  member left := by rw [gives_pure.1 left, header_leaveMember]
  decl left := by
    obtain rfl := gives_pure.1 left
    exact extends_leaveDecl _

/-- A constructor with its chain lifted keeps its header. -/
theorem header_liftChain (current : TypeId) (ctor : CtorDecl) :
    (Member.ctor (liftChain current ctor)).header = (Member.ctor ctor).header := by
  unfold liftChain
  split
  · rfl
  · split
    · split <;> rfl
    · rfl

/-- Lifting chains keeps the header of the declaration and of its members. -/
theorem extends_liftChains (decl : TypeDecl) : decl.Extends (liftChains decl) := by
  refine ⟨rfl, ?_, List.prefix_refl _⟩
  have same : (liftChains decl).members.map Member.header = decl.members.map Member.header := by
    simp only [liftChains, List.map_map]
    refine List.map_congr_left fun member _ => ?_
    cases member with
    | ctor ctor => exact header_liftChain decl.id ctor
    | field | method => rfl
  rw [same]

/-- The starting method is the only one that may be added, at the end. -/
theorem headers_prependToStart (globals : List Stmt) (members : List Member) :
    members.map Member.header <+: (prependToStart globals members).map Member.header := by
  fun_induction prependToStart globals members with
  | case1 => exact List.nil_prefix
  | case2 => exact List.prefix_refl _
  | case3 _ _ _ inductionHypothesis | case4 _ _ _ inductionHypothesis =>
    exact List.cons_prefix_cons.2 ⟨rfl, inductionHypothesis⟩

/-- Moving statements at top level adds at most members to a declaration. -/
theorem extends_moveGlobals (globals : List Stmt) (decls : List TypeDecl) :
    List.Forall₂ TypeDecl.Extends decls (moveGlobals globals decls) := by
  fun_induction moveGlobals globals decls with
  | case1 => exact .nil
  | case2 decl rest =>
    exact .cons (.of_members (headers_prependToStart _ _))
      (List.forall₂_same.2 fun decl _ => .refl decl)
  | case3 decl rest _ inductionHypothesis => exact .cons (.refl decl) inductionHypothesis

/-- Removing sugar keeps what a unit declares, or adds to it. -/
theorem unit_extends {unit result : SourceUnit} (lowered : Sugar.unit context unit = .ok result) :
    unit.Extends result := by
  obtain ⟨decls, walked, rest⟩ := (gives_bind (m := Except Fault)).1 lowered
  have lifted : List.Forall₂ TypeDecl.Extends unit.decls (unit.decls.map liftChains) := by
    rw [List.forall₂_map_right_iff]
    exact List.forall₂_same.2 fun decl _ => extends_liftChains decl
  have declsExtend := TypeDecl.Extends.trans_all lifted ((keepsHeaders context).decls_extend walked)
  split at rest
  · obtain rfl := gives_pure.1 rest
    exact ⟨rfl, rfl, rfl, List.prefix_refl _, declsExtend⟩
  · split at rest
    · cases rest
    · obtain ⟨globals, -, finished⟩ := gives_bind.1 rest
      obtain rfl := gives_pure.1 finished
      exact ⟨rfl, rfl, rfl, List.prefix_refl _,
        TypeDecl.Extends.trans_all declsExtend (extends_moveGlobals _ _)⟩

end Sugar

/-! ## Shapes -/

namespace LambdaShape

variable {types : TypeTable} {before after : Scope}

/-- Attributes with shaped lambdas keep their types. -/
theorem types_attrs {sources results : List Attribute}
    (ends : Ends (attrs sources) before results after) :
    results.map (·.ty) = sources.map (·.ty) := by
  refine map_eq_of_forall₂ ((ends_mapM ends).imp fun source result step => ?_)
  obtain ⟨_, _, attrEnds⟩ := step
  simp only [ends_bind, ends_pure] at attrEnds
  obtain ⟨_, _, -, rfl, -⟩ := attrEnds
  rfl

/-- A member with shaped lambdas keeps its header. -/
theorem memberParts_header {source result : Member}
    (ends : Ends (memberParts source) before result after) : result.header = source.header := by
  cases source with
  | field decl =>
    simp only [memberParts, ends_bind, ends_pure] at ends
    obtain ⟨_, _, -, rfl, -⟩ := ends
    rfl
  | method decl =>
    simp only [memberParts, ends_bind, ends_pure] at ends
    obtain ⟨_, _, -, _, _, -, rfl, -⟩ := ends
    rfl
  | ctor decl =>
    cases chained : decl.chain with
    | none =>
      simp only [memberParts, chained, ends_bind, ends_pure] at ends
      obtain ⟨_, _, -, _, _, -, rfl, -⟩ := ends
      rfl
    | some chain =>
      simp only [memberParts, chained, ends_bind, ends_pure] at ends
      obtain ⟨_, _, -, _, _, -, _, _, -, rfl, -⟩ := ends
      rfl

/-- Putting the casts in again changes no header. -/
theorem member_header {source result : Member}
    (ends : Ends (member types source) before result after) : result.header = source.header := by
  obtain ⟨inferred, infers, settled⟩ := member_settles ends
  rw [← memberParts_header infers]
  rcases settled with rfl | settling
  · rfl
  · exact (Coercion.keepsHeaders types).member_header settling

/-- A declaration with shaped lambdas keeps what it declares. -/
theorem decl_extends {source result : TypeDecl}
    (ends : Ends (decl types source) before result after) : source.Extends result := by
  simp only [decl, ends_bind, ends_pure] at ends
  obtain ⟨newAttrs, state, attrsEnds, members, _, membersEnds, rfl, -⟩ := ends
  have inferring : Ends (attrs source.attrs) before newAttrs state := Except.ok.inj attrsEnds
  have sameMembers : members.map Member.header = source.members.map Member.header := by
    refine map_eq_of_forall₂ ((ends_mapM membersEnds).imp ?_)
    rintro _ _ ⟨_, _, step⟩
    exact member_header step
  exact ⟨rfl, sameMembers ▸ List.prefix_refl _, types_attrs inferring ▸ List.prefix_refl _⟩

end LambdaShape

/-- An import that is required adds to the imports at most. -/
theorem extends_requireImport (unit : SourceUnit) (space : String) :
    unit.Extends (unit.requireImport space) := by
  unfold SourceUnit.requireImport
  split
  · exact .refl unit
  · exact { SourceUnit.Extends.refl unit with implicitImports := List.prefix_append _ _ }

/-- Shaping lambdas keeps what a unit declares, and may add an import. -/
theorem LambdaShape.unit_extends {types : TypeTable} {unit result : SourceUnit}
    (lowered : LambdaShape.unit types unit = .ok result) : unit.Extends result := by
  obtain ⟨⟨decls, locals⟩, declsEnds, finished⟩ := (gives_bind (m := Except Fault)).1 lowered
  have declsExtend : List.Forall₂ TypeDecl.Extends unit.decls decls :=
    (ends_mapM declsEnds).imp fun _ _ ⟨_, _, step⟩ => decl_extends step
  have inferred (globals : List Stmt) : unit.Extends { unit with decls, globals } :=
    ⟨rfl, rfl, rfl, List.prefix_refl _, declsExtend⟩
  obtain rfl := gives_pure.1 finished
  split
  · exact (inferred _).trans (extends_requireImport _ _)
  · exact inferred _

/-! ## Initializers -/

namespace Constructors

/-- Members without initializers keep their headers. -/
theorem headers_withoutInit (members : List Member) :
    (members.map withoutInit).map Member.header = members.map Member.header := by
  rw [List.map_map]
  refine List.map_congr_left fun member _ => ?_
  cases member <;> rfl

/-- The static constructor is the only one that may be added, at the end. -/
theorem headers_prependStatic (inits : List Stmt) (members : List Member) :
    members.map Member.header <+: (prependStatic inits members).map Member.header := by
  fun_induction prependStatic inits members with
  | case1 => exact List.nil_prefix
  | case2 => exact List.prefix_refl _
  | case3 _ _ _ inductionHypothesis | case4 _ _ _ inductionHypothesis =>
    exact List.cons_prefix_cons.2 ⟨rfl, inductionHypothesis⟩

/-- A guarded constructor keeps its header. -/
theorem header_guardMember (decl : TypeDecl) (inits : List Stmt) (member : Member) :
    (guardMember decl inits member).header = member.header := by
  unfold guardMember
  split
  · split_ifs <;> rfl
  · rfl

/-- A constructor or the guard field is added at the end. -/
theorem headers_placeInstance (decl : TypeDecl) (inits : List Stmt) (members : List Member) :
    members.map Member.header <+: (placeInstance decl inits members).map Member.header := by
  have guarded : (members.map (guardMember decl inits)).map Member.header =
      members.map Member.header := by
    rw [List.map_map]
    exact List.map_congr_left fun member _ => header_guardMember decl inits member
  unfold placeInstance
  split_ifs
  · rw [List.map_append, guarded]
    exact List.prefix_append _ _
  · rw [List.map_append]
    exact List.prefix_append _ _

/-- Moving static initializers adds at most a constructor behind the members. -/
theorem headers_emptied (decl : TypeDecl) :
    decl.members.map Member.header <+: (emptied decl).map Member.header := by
  rw [← headers_withoutInit]
  unfold emptied
  split_ifs
  · exact List.prefix_refl _
  · exact headers_prependStatic _ _

/-- Moving initializers adds at most members behind those that are there. -/
theorem decl_extends {decl result : TypeDecl} (lowered : Constructors.decl decl = .ok result) :
    decl.Extends result := by
  rcases decl_cases lowered with ⟨-, rfl⟩ | rfl | rfl
  · exact .refl _
  · exact .of_members (headers_emptied decl)
  · exact .of_members ((headers_emptied decl).trans (headers_placeInstance _ _ _))

/-- The same is true of a whole unit. -/
theorem unit_extends {unit result : SourceUnit} (lowered : Constructors.unit unit = .ok result) :
    unit.Extends result := by
  obtain ⟨decls, moved, finished⟩ := (gives_bind (m := Except Fault)).1 lowered
  obtain rfl := gives_pure.1 finished
  exact ⟨rfl, rfl, rfl, List.prefix_refl _, (gives_mapM.1 moved).imp fun _ _ => decl_extends⟩

end Constructors

/-! ## Sequences -/

namespace Pass

variable {context : Context} {unit result : SourceUnit}

/-- Each step keeps what a unit declares, or adds to it. -/
theorem run_extends {pass : Pass} (lowered : pass.run context unit = .ok result) :
    unit.Extends result := by
  cases pass with
  | sugar => exact Sugar.unit_extends lowered
  | staticAccess =>
    obtain rfl := Except.ok.inj lowered
    exact (StaticAccess.keepsHeaders context.types).unit_extends rfl
  | coercion => exact (Coercion.keepsHeaders context.types).unit_extends lowered
  | valueChain => exact (ValueChain.keepsHeaders context.types).unit_extends lowered
  | knownCalls =>
    obtain rfl := Except.ok.inj lowered
    exact (KnownCalls.keepsHeaders context).unit_extends rfl
  | lambdaShape => exact LambdaShape.unit_extends lowered
  | constructors => exact Constructors.unit_extends lowered
  | escaping =>
    obtain rfl := Except.ok.inj lowered
    exact Escaping.keepsHeaders.unit_extends (Escaping.unit_walked unit)

/-- Whatever a unit is and whatever steps it runs through, in any order and however often, if they
succeed then the outline of the unit is only added to. -/
theorem runAll_extends {passes : List Pass} (lowered : runAll context passes unit = .ok result) :
    unit.Extends result := by
  induction passes generalizing unit with
  | nil =>
    obtain rfl := Except.ok.inj lowered
    exact .refl unit
  | cons pass rest inductionHypothesis =>
    obtain ⟨next, stepped, continued⟩ := runAll_cons.1 lowered
    exact (run_extends stepped).trans (inductionHypothesis continued)

/-- The garden gets its method, its constructor and its import behind what it has, also when a step
runs once more. -/
theorem runAll_extends_garden :
    runAll Garden.context (.escaping :: standard ++ [.sugar, .constructors]) Garden.source =
        .ok Garden.result ∧
      Garden.source.Extends Garden.result := by
  have lowered : runAll Garden.context (.escaping :: standard ++ [.sugar, .constructors])
      Garden.source = .ok Garden.result := by decide +kernel
  exact ⟨lowered, runAll_extends lowered⟩

end Pass

end ScriptSharp.Lowering
