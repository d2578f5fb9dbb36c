import ScriptSharp.Proofs.LambdaShape.Reinference

/-!
# The import of the function types

Whether a unit needs the import is found out by two searches: one through the statements of a member
for variables of function type, and one through their expressions. The second one does not look at
the variables inside function literals. Since every function literal has a function type after
inference, nothing is missed there: `found_iff` says that the searches find a function type exactly
when one is stated somewhere below, at any depth.

The arguments that a constructor hands on are searched by neither of them. So a function type that
is stated only there brings no import.
-/

namespace ScriptSharp

open Outcome Node

/-! ## Stated types -/

namespace Node

/-- The types that the node itself states: that of an expression, of a variable, of a field, and
those of the result and the parameters of a member. -/
def statedTypes : Node → List Ty
  | .expr root => [root.ty]
  | .stmt (.declare _ _ ty _ _) => [ty]
  | .stmt (.forEach _ itemTy _ _) => [itemTy]
  | .member (.field field) => [field.ty]
  | .member (.method method) => method.ret :: method.params.map (·.ty)
  | .member (.ctor ctor) => ctor.params.map (·.ty)
  | _ => []

/-- The node itself states a function type. -/
def statesFunction (node : Node) : Bool :=
  node.statedTypes.any Ty.mentionsDelegate

/-- A function type is stated at or below the node. -/
def MentionsFunction (tree : Node) : Prop :=
  ∃ node, Inside tree node ∧ statesFunction node = true

/-- A node is inside of a tree if it is the tree or inside of a part of it. -/
theorem inside_iff {tree node : Node} :
    Inside tree node ↔ node = tree ∨ ∃ child ∈ tree.children, Inside child node := by
  constructor
  · intro inside
    rcases Relation.ReflTransGen.cases_head inside with rfl | ⟨child, childOf, below⟩
    · exact .inl rfl
    · exact .inr ⟨child, childOf, below⟩
  · rintro (rfl | ⟨child, childOf, below⟩)
    · exact .refl
    · exact .head childOf below

/-- A function type is stated at a node or below one of its parts. -/
theorem mentionsFunction_iff {tree : Node} : MentionsFunction tree ↔
    statesFunction tree = true ∨ ∃ child ∈ tree.children, MentionsFunction child := by
  constructor
  · rintro ⟨node, inside, states⟩
    rcases inside_iff.1 inside with rfl | ⟨child, childOf, below⟩
    · exact .inl states
    · exact .inr ⟨child, childOf, node, below, states⟩
  · rintro (states | ⟨child, childOf, node, below, states⟩)
    · exact ⟨tree, .refl, states⟩
    · exact ⟨node, inside_iff.2 (.inr ⟨child, childOf, below⟩), states⟩

end Node

/-- What stands in a member apart from its attributes and from the arguments that a constructor
hands on. -/
def Member.code : Member → List Node
  | .field root => root.init.toList.map .expr
  | .method root => (root.body.getD []).map .stmt
  | .ctor root => root.body.map .stmt

/-- A function type is stated by the member, or by what stands in it apart from its attributes and
from the arguments that a constructor hands on. -/
def Member.MentionsFunction (root : Member) : Prop :=
  statesFunction (.member root) = true ∨ ∃ code ∈ root.code, Node.MentionsFunction code

namespace SourceUnit

/-- A function type is stated by a member of the unit. -/
def MentionsFunction (unit : SourceUnit) : Prop :=
  ∃ decl ∈ unit.decls, ∃ root ∈ decl.members, root.MentionsFunction

/-- The namespace is imported, by the source or by lowering. -/
def Imports (unit : SourceUnit) (space : String) : Prop :=
  space ∈ unit.imports ∨ space ∈ unit.implicitImports

instance (unit : SourceUnit) (space : String) : Decidable (unit.Imports space) :=
  inferInstanceAs (Decidable (_ ∨ _))

/-- An import that is required leaves those of the source alone. -/
theorem requireImport_imports (unit : SourceUnit) (space : String) :
    (unit.requireImport space).imports = unit.imports := by
  unfold requireImport
  split <;> rfl

/-- An import that is required is there. -/
theorem imports_requireImport (unit : SourceUnit) (space : String) :
    (unit.requireImport space).Imports space := by
  unfold requireImport
  split
  case isTrue imported => exact imported
  case isFalse => exact .inr (List.mem_append_right _ List.mem_cons_self)

end SourceUnit

namespace Lowering.LambdaShape

variable {params : Scope} {place : Place} {before between after : Scope} {node : Node}
  {types : TypeTable}

/-! ## Searches -/

/-- A search through the node finds a function type. -/
def found : Node → Bool
  | .expr root => root.contains hasDelegateType
  | .stmt root => mentionsDelegate root
  | _ => false

/-- A function literal has a function type. -/
def LiteralTyped (node : Node) : Prop :=
  isLambda node = true → statesFunction node = true

/-- A search through parts that are expressions is one through all their expressions. -/
theorem any_found_values (exprs : List Expr) :
    (exprs.map Part.value).any (fun part => found part.2) =
      (Expr.allSubexpressions exprs).any hasDelegateType := by
  induction exprs with
  | nil => rfl
  | cons first rest inductionHypothesis =>
    rw [List.map_cons, List.any_cons, inductionHypothesis, Expr.allSubexpressions, List.any_append]
    rfl

/-- A search through parts that are statements is one through the statements. -/
theorem any_found_stmts (stmts : List Stmt) :
    (stmts.map Part.stmt).any (fun part => found part.2) = anyMentionsDelegate stmts := by
  induction stmts with
  | nil => rfl
  | cons first rest inductionHypothesis =>
    rw [List.map_cons, List.any_cons, inductionHypothesis, anyMentionsDelegate]
    rfl

/-- A body that is absent mentions no function type. -/
theorem anyMentionsDelegate_getD (body : Option (List Stmt)) :
    anyMentionsDelegate (body.getD []) = blockMentionsDelegate body := by
  cases body <;> rfl

/-- A search through an expression asks each expression in it. -/
theorem found_value (root : Expr) : found (Part.value root).2 = root.contains hasDelegateType := rfl

/-- The search through a statement looks at what it states and goes on below. -/
theorem mentionsDelegate_eq (root : Stmt) : mentionsDelegate root =
    (statesFunction (.stmt root) || root.parts.any fun part => found part.2) := by
  cases root <;>
    simp only [mentionsDelegate, statesFunction, statedTypes, Stmt.parts, List.any_append,
      List.any_cons, List.any_nil, any_found_values, any_found_stmts, found_value,
      anyMentionsDelegate_getD, allSubexpressions_toList, Bool.or_false, Bool.false_or,
      Bool.or_assoc]

/-- The search through an expression looks at its type and goes on with the expressions below. -/
theorem contains_eq (root : Expr) : root.contains hasDelegateType =
    (statesFunction (.expr root) ||
      root.parts.any fun part => part.2.subexpressions.any hasDelegateType) := by
  rw [Expr.contains, subexpressions_expr, List.any_cons, partSubexpressions, List.any_flatMap]
  simp [statesFunction, statedTypes, hasDelegateType]

/-- A search finds a function type exactly when one is stated at some depth, also inside function
literals, once these have function types. -/
theorem found_iff (node : Node) (code : isCode node = true)
    (typed : Throughout LiteralTyped node) : found node = true ↔ MentionsFunction node := by
  induction node using Node.induct with
  | step node inductionHypothesis =>
    have parts : (node.parts.any fun part => found part.2) = true ↔
        ∃ child ∈ node.children, MentionsFunction child := by
      simp only [children, List.any_eq_true, List.mem_map, exists_exists_and_eq_and]
      refine exists_congr fun part => and_congr_right fun partOf => ?_
      have childOf := mem_children_of_part partOf
      exact inductionHypothesis _ childOf (isCode_child code childOf) (typed.inside childOf)
    rw [mentionsFunction_iff, ← parts, ← Bool.or_eq_true]
    cases node with
    | stmt root =>
      rw [found, mentionsDelegate_eq]
      rfl
    | expr root =>
      rw [found, contains_eq]
      by_cases literal : ∃ note params ret body, root = .lambda note params ret body
      · obtain ⟨note, params, ret, body, rfl⟩ := literal
        rw [typed.here rfl, Bool.true_or, Bool.true_or]
      · -- Outside of function literals all parts are expressions.
        push Not at literal
        have same : (root.parts.any fun part => part.2.subexpressions.any hasDelegateType) =
            root.parts.any fun part => found part.2 := by
          refine any_congr (List.forall₂_same.2 fun part partOf => ?_)
          obtain ⟨inner, isInner⟩ := exists_expr_of_part literal partOf
          rw [isInner]
          rfl
        rw [same]
        rfl
    | member root | attr root | decl root | unit root => cases code

/-! ## Members -/

/-- The parts of a node that rests do so somewhere, unless it is a field. -/
theorem Rests.child (rests : Rests params (some place) before node after)
    (noField : isField node = false) {child : Node} (childOf : child ∈ node.children) :
    ∃ params place before after, Rests params (some place) before child after := by
  obtain ⟨between, rest, -, -⟩ := rests.opens
  obtain ⟨part, partOf, rfl⟩ := List.mem_map.1 childOf
  obtain ⟨-, index, start, stop, inferred⟩ := List.forall₂_same.1 rest.related part partOf
  obtain ⟨inner, isPlace⟩ := exists_placeAt place noField node index
  rw [isPlace] at inferred
  exact ⟨_, inner, start, stop, inferred⟩

/-- Function literals have function types in what rests. -/
theorem typed_of_rests (node : Node) (code : isCode node = true)
    (rests : Rests params (some place) before node after) : Throughout LiteralTyped node := by
  induction node using Node.induct generalizing params place before after with
  | step node inductionHypothesis =>
    refine .node ?_ fun child childOf => ?_
    · obtain ⟨between, -, fixed, -⟩ := rests.opens
      intro literal
      cases node with
      | expr root =>
        cases root <;> try cases literal
        obtain ⟨span, settled, ret, stmts, same⟩ := fixed
        rw [same]
        rfl
      | _ => cases literal
    · have noField : isField node = false := by
        cases node <;> first | rfl | cases code
      obtain ⟨_, _, _, _, childRests⟩ := rests.child noField childOf
      exact inductionHypothesis child childOf (isCode_child code childOf) childRests

/-- The code of a member consists of expressions and statements. -/
theorem isCode_of_mem_code {root : Member} (member : node ∈ root.code) : isCode node = true := by
  cases root <;> obtain ⟨_, _, rfl⟩ := List.mem_map.1 member <;> rfl

/-- Where inference rests, the function literals in a member have function types. -/
theorem typed_code {root : Member} (rests : Rests [] (some .free) [] (.member root) after) :
    ∀ code ∈ root.code, Throughout LiteralTyped code := by
  intro code codeOf
  obtain ⟨params, place, start, stop, codeRests⟩ :
      ∃ params place before after, Rests params (some place) before code after := by
    cases root with
    | field root =>
      simp only [InfersAt, memberParts, ends_bind, ends_pure, Member.field.injEq] at rests
      obtain ⟨init, stop, initEnds, same, rfl⟩ := rests
      have sameInit : root.init = init := congrArg FieldDecl.init same
      obtain ⟨value, valueOf, rfl⟩ := List.mem_map.1 codeOf
      rw [← sameInit, Option.mem_toList.1 valueOf] at initEnds
      simp only [optional, ends_bind, ends_pure, Option.some.injEq] at initEnds
      obtain ⟨_, _, valueEnds, rfl, rfl⟩ := initEnds
      exact ⟨[], _, _, _, valueEnds⟩
    | method root =>
      refine rests.child rfl ?_
      simp only [children, parts, Member.parts, List.map_append, List.mem_append, List.map_map]
      exact .inr codeOf
    | ctor root =>
      refine rests.child rfl ?_
      simp only [children, parts, Member.parts, List.map_append, List.mem_append, List.map_map]
      exact .inr codeOf
  exact typed_of_rests code (isCode_of_mem_code codeOf) codeRests

/-- A member is searched at its head and in its code. -/
theorem any_found_code (root : Member) : memberMentionsDelegate root =
    (statesFunction (.member root) || root.code.any found) := by
  cases root with
  | field root =>
    simp only [memberMentionsDelegate, statesFunction, statedTypes, List.any_cons, List.any_nil,
      Bool.or_false, Member.code]
    cases root.init <;> simp [Expr.optionalSubexpressions, found, Expr.contains]
  | method root =>
    simp only [memberMentionsDelegate, statesFunction, statedTypes, List.any_cons, List.any_map,
      Member.code, ← anyMentionsDelegate_getD, ← any_found_stmts]
    rfl
  | ctor root =>
    simp only [memberMentionsDelegate, statesFunction, statedTypes, List.any_map,
      Member.code, ← any_found_stmts]
    rfl

/-- The search finds a function type in a member exactly when one is stated there. -/
theorem memberMentionsDelegate_iff {root : Member}
    (typed : ∀ code ∈ root.code, Throughout LiteralTyped code) :
    memberMentionsDelegate root = true ↔ root.MentionsFunction := by
  rw [Member.MentionsFunction, any_found_code, Bool.or_eq_true, List.any_eq_true]
  refine or_congr_right (exists_congr fun code => and_congr_right fun codeOf => ?_)
  exact found_iff code (isCode_of_mem_code codeOf) (typed code codeOf)

/-! ## Function literals and casts -/

/-- A cast holds the function literals of its operand. -/
theorem holdsLiteral_castTo (operand : Expr) (required : Ty) :
    holdsLiteral (.expr (operand.castTo required)) = holdsLiteral (.expr operand) := by
  rw [holdsLiteral_eq]
  exact Bool.or_false _

/-- Casts bring in no function literal, and hide none. -/
theorem holdsLiteral_casted {child replacement : Node}
    (casted : Coercion.Casted types child replacement) :
    holdsLiteral child = holdsLiteral replacement := by
  cases casted with
  | unchanged => rfl
  | cast => rw [holdsLiteral_castTo]

/-- A target that stands there twice holds no other function literals than once. -/
theorem holdsLiteral_writtenOut (note : Note) (op : BinaryOp) (target value : Expr) :
    holdsLiteral (.expr (Coercion.writtenOut note op target value)) =
      holdsLiteral (.expr (.assign note (some op) target value)) := by
  have ofAssign (op : Option BinaryOp) (value : Expr) :
      holdsLiteral (.expr (.assign note op target value)) =
        (holdsLiteral (.expr target) || holdsLiteral (.expr value)) := by
    rw [holdsLiteral_eq]
    exact congrArg (holdsLiteral (.expr target) || ·) (Bool.or_false _)
  have ofOperation : holdsLiteral (.expr (Coercion.operation op target value)) =
      (holdsLiteral (.expr target) || holdsLiteral (.expr value)) := by
    rw [holdsLiteral_eq]
    exact congrArg (holdsLiteral (.expr target) || ·) (Bool.or_false _)
  rw [Coercion.writtenOut, ofAssign, ofAssign, holdsLiteral_castTo, ofOperation, ← Bool.or_assoc,
    Bool.or_self]

/-- Putting in casts makes no function literals, and drops none. -/
theorem holdsLiteral_walk (node : Node) {returned : Option Ty} {result : Node}
    (walked : Gives ((Coercion.traversal types).node returned node) result) :
    holdsLiteral node = holdsLiteral result := by
  induction node using Node.induct generalizing returned result with
  | step node inductionHypothesis =>
    obtain ⟨rebuilt, matched, left⟩ := Coercion.walk_matches walked
    have sameParts : holdsLiteral node = holdsLiteral rebuilt :=
      holdsLiteral_of_matches (matched.imp fun part walkedChild =>
        inductionHypothesis _ (mem_children_of_part part) walkedChild)
    rw [sameParts]
    rcases Coercion.leaveNode_cases left with ⟨-, casts⟩ | ⟨note, op, target, value, rfl, -, rfl⟩
    · exact holdsLiteral_of_matches (casts.imp fun _ casted => holdsLiteral_casted casted)
    · exact (holdsLiteral_writtenOut note op target value).symm

/-- Rebuilding a node from its parts keeps whether it is a statement. -/
theorem isStatement?_congr {source result : Node} (shell : source.shell = result.shell) :
    isStatement? source = isStatement? result := by
  cases source <;> cases result <;> first | rfl | cases shell

/-- Casts stand around expressions. -/
theorem isStatement?_casted {child replacement : Node}
    (casted : Coercion.Casted types child replacement) :
    isStatement? child = isStatement? replacement := by
  cases casted <;> rfl

/-- Putting casts in makes no statement of an expression. -/
theorem isStatement?_walk {returned : Option Ty} {source result : Node}
    (walked : Gives ((Coercion.traversal types).node returned source) result) :
    isStatement? source = isStatement? result := by
  obtain ⟨rebuilt, matched, left⟩ := Coercion.walk_matches walked
  rw [isStatement?_congr matched.shell]
  rcases Coercion.leaveNode_cases left with ⟨-, casts⟩ | ⟨_, _, _, _, rfl, -, rfl⟩
  · exact isStatement?_congr casts.shell
  · rfl

/-- The code of a field is an expression, and that of other members are statements. -/
theorem mem_code_iff {root : Member} : node ∈ root.code ↔
    node ∈ (Node.member root).children ∧ isStatement? node = some !root.isField := by
  cases root <;>
    simp only [Member.code, children, parts, Member.parts, Member.isField, List.map_append,
      List.map_map, List.mem_append, List.mem_map, Function.comp_apply, Part.attr, Part.value,
      Part.stmt]
  all_goals grind [isStatement?]

/-- The parts of a member correspond to those of what becomes of it, each with its function
literals. -/
theorem member_matches {source result : Member}
    (ends : Ends (member types source) before result after) :
    Matches (fun _ child replacement => isStatement? child = isStatement? replacement ∧
      holdsLiteral child = holdsLiteral replacement) (.member source) (.member result) := by
  obtain ⟨inferred, infers, settles⟩ := ends_member_iff.1 ends
  have matched : Matches (fun _ child replacement => isStatement? child = isStatement? replacement ∧
      holdsLiteral child = holdsLiteral replacement) (.member source) (.member inferred) := by
    obtain ⟨rebuilt, between, shell, threads, finishes⟩ := infers.opens
    cases finishes with
    | same =>
      refine ⟨shell, threads.related.imp fun _ _ related => ?_⟩
      obtain ⟨sameSlot, _, _, _, inferred⟩ := related
      exact ⟨sameSlot, isStatement?_inferred inferred, holdsLiteral_inferred _ inferred⟩
  split at settles
  case isTrue =>
    obtain ⟨rebuilt, walked, left⟩ := Coercion.walk_matches (walk_member settles)
    rcases Coercion.leaveNode_cases left with ⟨-, casts⟩ | ⟨_, _, _, _, rfl, -, same⟩
    · refine (matched.trans (walked.trans casts)).imp fun _ chain => ?_
      obtain ⟨_, ⟨kind, literal⟩, _, walkedChild, casted⟩ := chain
      rw [kind, literal, isStatement?_walk walkedChild, holdsLiteral_walk _ walkedChild]
      exact ⟨isStatement?_casted casted, holdsLiteral_casted casted⟩
    · cases same
  case isFalse =>
    rw [settles]
    exact matched

/-- A function literal states a function type. -/
theorem mentionsFunction_of_holdsLiteral (node : Node) (typed : Throughout LiteralTyped node)
    (holds : holdsLiteral node = true) : MentionsFunction node := by
  induction node using Node.induct with
  | step node inductionHypothesis =>
    rw [holdsLiteral_eq, Bool.or_eq_true, List.any_eq_true] at holds
    refine mentionsFunction_iff.2 (holds.imp typed.here ?_)
    rintro ⟨child, childOf, holdsChild⟩
    exact ⟨child, childOf, inductionHypothesis child childOf (typed.inside childOf) holdsChild⟩

/-- A function literal in the code of a member makes its result state a function type. -/
theorem mentionsFunction_of_literal {source result : Member}
    (ends : Ends (member types source) before result after)
    (holds : source.code.any holdsLiteral = true) : result.MentionsFunction := by
  obtain ⟨code, codeOf, holdsCode⟩ := List.any_eq_true.1 holds
  obtain ⟨childOf, isCode⟩ := mem_code_iff.1 codeOf
  have matched := member_matches ends
  obtain ⟨_, replacement, replacementOf, sameKind, sameLiterals⟩ :=
    matched.symm.exists_source childOf
  have sameField : source.isField = result.isField := by
    cases source <;> cases result <;> first | rfl | cases matched.shell
  have replacementCode : replacement ∈ result.code :=
    mem_code_iff.2 ⟨replacementOf, by rw [← sameKind, isCode, sameField]⟩
  refine .inr ⟨replacement, replacementCode, ?_⟩
  exact mentionsFunction_of_holdsLiteral replacement
    (typed_code (member_rests ends) replacement replacementCode) (sameLiterals ▸ holdsCode)

/-! ## Units -/

/-- The members of the result are what became of the members of the source. -/
theorem unit_members {source result : SourceUnit}
    (lowered : LambdaShape.unit types source = .ok result) :
    List.Forall₂ (fun decl newDecl => List.Forall₂ (fun root newRoot =>
      ∃ before after, Ends (member types root) before newRoot after) decl.members newDecl.members)
      source.decls result.decls := by
  obtain ⟨decls, locals, globals, after, declsEnds, -, rfl⟩ := unit_iff.1 lowered
  rw [withImport_decls]
  refine (ends_mapM declsEnds).imp fun decl newDecl => ?_
  rintro ⟨before, stop, declEnds⟩
  simp only [LambdaShape.decl, ends_bind, ends_pure] at declEnds
  obtain ⟨_, _, _, members, _, membersEnds, rfl, rfl⟩ := declEnds
  exact ends_mapM membersEnds

/-- The search finds a function type in an inferred unit exactly when one is stated there. -/
theorem unitMentionsDelegate_iff {source result : SourceUnit}
    (lowered : LambdaShape.unit types source = .ok result) :
    unitMentionsDelegate result = true ↔ result.MentionsFunction := by
  rw [unitMentionsDelegate, SourceUnit.MentionsFunction, List.any_eq_true]
  refine exists_congr fun decl => and_congr_right fun declOf => ?_
  rw [List.any_eq_true]
  refine exists_congr fun root => and_congr_right fun rootOf => ?_
  obtain ⟨_, -, members⟩ := exists_related (unit_members lowered) declOf
  obtain ⟨_, -, _, _, ends⟩ := exists_related members rootOf
  exact memberMentionsDelegate_iff (typed_code (member_rests ends))

/-- Inference adds nothing but the import of the function types, and only for a function type that
is stated. -/
theorem unit_imports_cases {source result : SourceUnit}
    (lowered : LambdaShape.unit types source = .ok result) :
    result.imports = source.imports ∧
      (result.MentionsFunction ∧ result.Imports "System" ∨
        ¬result.MentionsFunction ∧ result.implicitImports = source.implicitImports) := by
  have mentions := unitMentionsDelegate_iff lowered
  obtain ⟨decls, locals, globals, after, -, -, isResult⟩ := unit_iff.1 lowered
  generalize isInferred : ({ source with decls, globals } : SourceUnit) = inferred at isResult
  have sameDecls : result.decls = inferred.decls := by rw [isResult, withImport_decls]
  have sameMentions : unitMentionsDelegate result = unitMentionsDelegate inferred := by
    rw [unitMentionsDelegate, sameDecls, unitMentionsDelegate]
  rw [← mentions, sameMentions]
  cases isMentioned : unitMentionsDelegate inferred with
  | true =>
    have added : result = inferred.requireImport "System" := isResult.trans (if_pos isMentioned)
    rw [added, SourceUnit.requireImport_imports, ← isInferred]
    exact ⟨rfl, .inl ⟨rfl, SourceUnit.imports_requireImport _ _⟩⟩
  | false =>
    have unchanged : result = inferred := isResult.trans (if_neg (by simp [isMentioned]))
    rw [unchanged, ← isInferred]
    exact ⟨rfl, .inr ⟨by simp, rfl⟩⟩

/-- The namespace of the function types is imported when a function type is stated in the resulting
unit, at any depth of a member but outside of attributes and of the arguments that constructors hand
on. If none is stated there, no import is added. In particular the namespace is imported when a
function literal stands there. -/
theorem unit_imports_functions {source result : SourceUnit}
    (lowered : LambdaShape.unit types source = .ok result) :
    (result.Imports "System" ↔ result.MentionsFunction ∨ source.Imports "System") ∧
      (¬result.MentionsFunction → result.implicitImports = source.implicitImports) ∧
      ∀ decl ∈ source.decls, ∀ root ∈ decl.members, root.code.any holdsLiteral = true →
        result.Imports "System" := by
  obtain ⟨sameImports, cases⟩ := unit_imports_cases lowered
  have imported (mentions : result.MentionsFunction) : result.Imports "System" :=
    cases.elim And.right fun silent => absurd mentions silent.1
  have unchanged (silent : ¬result.MentionsFunction) :
      result.implicitImports = source.implicitImports :=
    cases.elim (fun mentions => absurd mentions.1 silent) And.right
  refine ⟨?_, unchanged, ?_⟩
  · by_cases mentions : result.MentionsFunction
    · exact iff_of_true (imported mentions) (.inl mentions)
    · rw [SourceUnit.Imports, sameImports, unchanged mentions]
      exact (or_iff_right mentions).symm
  · intro decl declOf root rootOf holds
    obtain ⟨newDecl, newDeclOf, members⟩ := exists_related (unit_members lowered).flip declOf
    obtain ⟨newRoot, newRootOf, _, _, ends⟩ := exists_related members.flip rootOf
    exact imported ⟨newDecl, newDeclOf, newRoot, newRootOf, mentionsFunction_of_literal ends holds⟩

/-- A variable that keeps a function brings the import in. -/
theorem unit_imports_functions_keeping :
    LambdaShape.unit (.ofTypes []) (Listener.keeping (Listener.literal (.block []))) =
      .ok ((Listener.keeping (Listener.literalOf .int [])).requireImport "System") ∧
    ¬(Listener.keeping (Listener.literal (.block []))).Imports "System" ∧
    ((Listener.keeping (Listener.literalOf .int [])).requireImport "System").Imports "System" := by
  have lowered : LambdaShape.unit (.ofTypes [])
      (Listener.keeping (Listener.literal (.block []))) =
        .ok ((Listener.keeping (Listener.literalOf .int [])).requireImport "System") := by
    decide +kernel
  obtain ⟨-, -, ofLiteral⟩ := unit_imports_functions lowered
  exact ⟨lowered, by decide, ofLiteral _ List.mem_cons_self _ List.mem_cons_self rfl⟩

/-- The class whose constructor hands a function on to that of its base type. -/
def Listener.handingOn (value : Expr) : SourceUnit :=
  script [.ctor ⟨[], some ⟨.base, [value], none⟩, [], .none, .unknown⟩]

/-- A body that keeps a function in a variable of type `ty`. -/
def Listener.nested (ty : Ty) (value : Expr) : List Stmt :=
  [.declare (.plain "kept") none ty (some value) .unknown]

/-- A function literal that is only handed on to another constructor gets a function type, like the
variable and the literal inside of it, and none of them brings an import. -/
theorem unit_handed_on_unimported :
    LambdaShape.unit (.ofTypes []) (Listener.handingOn (Listener.literal
        (.block (Listener.nested .object (Listener.literal (.block [])))))) =
      .ok (Listener.handingOn (Listener.literalOf .object
        (Listener.nested (.delegate [.object] .void) (Listener.literalOf .object [])))) ∧
    (∀ decl ∈ (Listener.handingOn (Listener.literal
        (.block (Listener.nested .object (Listener.literal (.block [])))))).decls,
      ∀ root ∈ decl.members, holdsLambda root = true) ∧
    (∀ decl ∈ (Listener.handingOn (Listener.literalOf .object
        (Listener.nested (.delegate [.object] .void) (Listener.literalOf .object [])))).decls,
      ∀ ctor ∈ decl.ctors, ctor.chainArgs.map hasDelegateType = [true]) ∧
    ¬(Listener.handingOn (Listener.literalOf .object (Listener.nested (.delegate [.object] .void)
        (Listener.literalOf .object [])))).Imports "System" := by
  refine ⟨by decide +kernel, by decide +kernel, by decide +kernel, by decide⟩

end Lowering.LambdaShape

end ScriptSharp
