import ScriptSharp.Proofs.Coercion.Deeds
import ScriptSharp.Proofs.StaticAccess.Receivers
import ScriptSharp.Proofs.Sugar.Chains
import ScriptSharp.Proofs.Types.Choice

/-!
# Overloads and casts

The constructor that a call of a type stands for is found by the types of its arguments, and the
casts are put in by a later step that sees the signature alone. The two agree: an argument is
accepted where it stands, or it gets a cast that is allowed, and a constructor that takes the
arguments as they are is preferred, so that none of them gets one.
-/

namespace ScriptSharp.Lowering.Coercion

open Outcome

variable {types : TypeTable} {context : Context}

/-! ## Expressions at their places -/

/-- The expression is left without a cast where `required` is required: it is accepted there, or
casts are not what makes it fit. -/
inductive Accepted (types : TypeTable) (required : Ty) (expr : Expr) : Prop where
  | implicit (converts : types.implicitlyConvertible expr.ty required = true)
  | null (isNull : expr.ty.isNull = true)
  | lambda (isLambda : expr.isLambda = true)
  | delegate (isDelegate : (expr.ty.isDelegate || required.isDelegate) = true)
  /-- An object where nothing can be passed. -/
  | void (isVoid : required.isVoid = true) (isObject : expr.ty.isObject = true)

/-- What the casts are put into: the node itself, or the node with settled receivers. -/
def Received (types : TypeTable) (node received : Node) : Prop :=
  received = node ∨ received = node.rewrite (StaticAccess.leave types)

/-- What putting in casts makes of a node, before the place where it stands matters. -/
def Arrives (types : TypeTable) (node result : Node) : Prop :=
  ∃ received scope, Received types node received ∧
    Gives ((traversal types).node scope received) result

/-- What becomes of an expression where `required` is required: it stays, or it gets one cast to
that type, which is allowed. -/
inductive Converted (types : TypeTable) (required : Ty) (value : Expr) : Expr → Prop where
  | kept {operand : Expr} (arrives : Arrives types (.expr value) (.expr operand))
      (accepted : Accepted types required operand) : Converted types required value operand
  | cast {operand : Expr} (arrives : Arrives types (.expr value) (.expr operand))
      (allowed : types.explicitlyConvertible operand.ty required = true) :
      Converted types required value (operand.castTo required)

/-- What arrives has the type of its source and is a function literal when its source is one. -/
theorem Arrives.face {node result : Node} (arrives : Arrives types node result) :
    result.face = node.face := by
  obtain ⟨received, scope, rfl | rfl, walked⟩ := arrives
  · exact face_walk _ walked
  · rw [face_walk _ walked, Node.face_rewrite StaticAccess.face_leave]

/-- What arrives has the type that the overload was chosen by. -/
theorem Arrives.ty {value operand : Expr} (arrives : Arrives types (.expr value) (.expr operand)) :
    operand.ty = value.ty :=
  congrArg Note.ty (Node.face_expr.1 arrives.face).1

/-- Receivers are settled at member accesses only, so any other expression is the same but for its
parts. -/
theorem Received.opens {expr : Expr} {received : Node}
    (other : ∀ note target name binding, expr ≠ .member note target name binding)
    (reaches : Received types (.expr expr) received) :
    Node.Matches (fun _ => Received types) (.expr expr) received := by
  rcases reaches with rfl | rfl
  · exact .refl fun _ _ _ => .inl rfl
  · obtain ⟨rebuilt, matched, top⟩ := Node.rewrite_matches (StaticAccess.leave types) (.expr expr)
    have same : rebuilt.mapExpr (StaticAccess.leave types) = rebuilt := by
      have shell := matched.shell
      cases rebuilt with
      | expr root =>
        cases root
        case member note target name binding =>
          cases expr <;> simp only [Node.shell, Expr.shell, Node.expr.injEq, reduceCtorEq] at shell
          exact absurd rfl (other _ _ _ _)
        all_goals rfl
      | _ => rfl
    rw [top, same]
    exact matched.imp fun _ replaced => .inr replaced.symm

/-- What arrives is made of parts that have arrived. -/
theorem Arrives.opens {expr : Expr} {result : Node}
    (other : ∀ note target name binding, expr ≠ .member note target name binding)
    (arrives : Arrives types (.expr expr) result) :
    ∃ rebuilt scope, Node.Matches (fun _ => Arrives types) (.expr expr) rebuilt ∧
      Gives ((traversal types).leaveNode scope rebuilt) result := by
  obtain ⟨received, scope, reaches, walked⟩ := arrives
  obtain ⟨rebuilt, matched, left⟩ := walk_matches walked
  refine ⟨rebuilt, scope, ((reaches.opens other).trans matched).imp fun _ chain => ?_, left⟩
  obtain ⟨between, reachesChild, walkedChild⟩ := chain
  exact ⟨between, _, reachesChild, walkedChild⟩

/-- What needs no cast is accepted, if its type may be cast to the required one. -/
theorem accepted_of_needsCast {required : Ty} {expr : Expr}
    (unneeded : needsCast types required expr = false)
    (allowed : types.explicitlyConvertible expr.ty required = true) :
    Accepted types required expr := by
  cases converts : types.implicitlyConvertible expr.ty required with
  | true => exact .implicit converts
  | false =>
    simp only [needsCast, converts, Bool.or_false, Bool.not_eq_false', Bool.or_eq_true,
      decide_eq_true_eq] at unneeded
    rcases unneeded with
      (((((isVoid | same) | isLambda) | requiresDelegate) | isDelegate) | isNull) | nothing
    · obtain rfl := Ty.isVoid_iff.1 isVoid
      exact .void rfl (TypeTable.isObject_of_cast rfl rfl allowed converts)
    · rw [same, TypeTable.implicitlyConvertible_refl] at converts
      cases converts
    · exact .lambda isLambda
    · exact .delegate (by simp [requiresDelegate])
    · exact .delegate (by simp [isDelegate])
    · exact .null isNull
    · rw [Ty.isVoid_iff.1 nothing] at allowed converts
      rw [TypeTable.implicitlyConvertible_of_unnamed rfl rfl rfl allowed] at converts
      cases converts

/-- An expression of a type that may be cast to the required one is accepted, or gets that cast. -/
theorem converted_coerce {required : Ty} {value operand : Expr}
    (arrives : Arrives types (.expr value) (.expr operand))
    (allowed : types.explicitlyConvertible value.ty required = true) :
    Converted types required value (coerce types required operand) := by
  rw [← arrives.ty] at allowed
  rw [coerce]
  split_ifs with needed
  · exact .cast arrives allowed
  · exact .kept arrives (accepted_of_needsCast (Bool.eq_false_iff.2 needed) allowed)

/-! ## The construction -/

/-- A construction with a constructor has the one that is found for its arguments, and they are
packed for it. -/
theorem construct_cases {span : Span} {made : Note} {named target : Ty} {values given : List Expr}
    {chosen : Signature} (constructed : Sugar.construct types span named values =
      .ok (.construct made target given (some chosen))) :
    ∃ id, target.typeId? = some id ∧
      types.findConstructor? id (values.map Expr.ty) = some chosen ∧
      given = Sugar.expandParams types chosen values := by
  unfold Sugar.construct at constructed
  split at constructed
  · cases constructed
  case h_2 id isOwner =>
    split at constructed
    case h_1 found isFound =>
      obtain ⟨-, rfl, rfl, ⟨⟩⟩ := Expr.construct.inj (Except.ok.inj constructed)
      exact ⟨id, isOwner, isFound, rfl⟩
    case h_2 => split_ifs at constructed <;> cases Except.ok.inj constructed

/-- A call of the name of a type that becomes a construction with a constructor: that constructor is
found for the arguments as values, and they are packed for it. -/
theorem created_cases {scope : Sugar.Scope} {note made : Note} {callee : Expr} {named target : Ty}
    {typeArgs : List Ty} {args given : List Expr} {signature : Option Signature}
    {chosen : Signature} (names : callee.typeName? = some named)
    (created : (Sugar.traversal context).expr scope
      (.invoke note callee typeArgs args signature) =
        .ok (.construct made target given (some chosen))) :
    ∃ id walked, target.typeId? = some id ∧
      (Sugar.traversal context).exprs scope args = .ok walked ∧
      context.types.findConstructor? id ((walked.map (Sugar.valueize context.types)).map Expr.ty) =
        some chosen ∧
      given = Sugar.expandParams context.types chosen
        (walked.map (Sugar.valueize context.types)) := by
  obtain ⟨refNote, isRef⟩ := Expr.typeName?_eq_some_iff.1 names
  -- The walk keeps the name of a type, so what it leaves is the call of the same type.
  rw [Sugar.walked_expr, Traversal.within, Sugar.walked_typeName (Option.isSome_of_eq_some names)]
    at created
  obtain ⟨rebuilt, walkedParts, left⟩ := gives_bind.1
    (show Gives (_ >>= Sugar.leave context.types scope) _ from created)
  obtain ⟨_, same, walkedParts⟩ := gives_bind.1 walkedParts
  obtain ⟨walked, walks, walkedParts⟩ := gives_bind.1 walkedParts
  obtain rfl := Except.ok.inj same
  obtain rfl := gives_pure.1 walkedParts
  have reduced : Sugar.leave context.types scope (.invoke note callee typeArgs walked signature) =
      Sugar.construct context.types note.span named
        (walked.map (Sugar.valueize context.types)) := by
    simp only [Sugar.leave, isRef]
  obtain ⟨id, isOwner, isFound, isGiven⟩ := construct_cases (reduced.symm.trans left)
  exact ⟨id, walked, isOwner, walks, isFound, isGiven⟩

/-- The arguments that are given are as many as the parameters, and may be cast to their types. -/
theorem given_allowed {id : TypeId} {values : List Expr} {chosen : Signature}
    (found : types.findConstructor? id (values.map Expr.ty) = some chosen) :
    (Sugar.expandParams types chosen values).length = chosen.params.length ∧
      ∀ (place : Nat) param value, chosen.params[place]? = some param →
        (Sugar.expandParams types chosen values)[place]? = some value →
          types.explicitlyConvertible value.ty param.ty = true := by
  obtain ⟨sameLength, allowed⟩ := TypeTable.accepts_iff.1 (TypeTable.accepts_of_found found)
  rw [List.length_map] at sameLength
  rcases Sugar.expandParams_cases types chosen values with
    same | ⟨_, index, element, ⟨⟩, variadic, inside, same⟩
  · rw [same]
    refine ⟨sameLength.symm, fun place param value isParam isValue => ?_⟩
    exact allowed place param value.ty isParam (by rw [List.getElem?_map, isValue]; rfl)
  · rw [same]
    refine ⟨(Sugar.length_packed inside).trans variadic.length.symm, ?_⟩
    intro place param value isParam isValue
    have bounded := (List.getElem?_eq_some_iff.1 isParam).1
    rw [variadic.length] at bounded
    rcases Nat.lt_or_eq_of_le (Nat.le_of_lt_succ bounded) with before | rfl
    -- An argument before the array is one that the constructor was chosen by.
    · rw [Sugar.packed_getElem?_of_lt inside before] at isValue
      exact allowed place param value.ty isParam (by rw [List.getElem?_map, isValue]; rfl)
    · obtain ⟨name, isLast⟩ := variadic.takes
      obtain rfl := Option.some.inj (isLast.symm.trans isParam)
      obtain rfl := Option.some.inj ((Sugar.packed_getElem? inside).symm.trans isValue)
      exact TypeTable.explicitlyConvertible_of_implicitly (TypeTable.implicitlyConvertible_refl _ _)

/-- What is packed is a single object. -/
theorem packed_isObject {id : TypeId} {values : List Expr} {chosen : Signature}
    (found : types.findConstructor? id (values.map Expr.ty) = some chosen)
    (packs : Sugar.expandParams types chosen values ≠ values) :
    ∃ index element value, Sugar.Variadic chosen index element ∧ index < values.length ∧
      Sugar.expandParams types chosen values = Sugar.packed element index values ∧
      values.drop index = [value] ∧ value.ty.isObject = true := by
  obtain ⟨sameLength, allowed⟩ := TypeTable.accepts_iff.1 (TypeTable.accepts_of_found found)
  rw [List.length_map] at sameLength
  rcases Sugar.expandParams_cases types chosen values with
    same | ⟨_, index, element, ⟨⟩, variadic, inside, same⟩
  · exact absurd same packs
  -- There are as many arguments as parameters, so one of them alone stands for the array. If the
  -- array accepted it, it would not be packed.
  · have isValue := List.getElem?_eq_getElem inside
    have length : values.length = index + 1 := sameLength.symm.trans variadic.length
    have refused : types.implicitlyConvertible values[index].ty (.array element) = false := by
      refine Bool.eq_false_iff.2 fun converts => packs ?_
      exact Sugar.expandParams_array variadic length isValue (.inr converts)
    obtain ⟨name, isLast⟩ := variadic.takes
    have converts := allowed index _ values[index].ty isLast (by simp [isValue])
    refine ⟨index, element, values[index], variadic, inside, same, ?_,
      TypeTable.isObject_of_cast rfl rfl converts refused⟩
    rw [List.drop_eq_getElem_cons inside, List.drop_eq_nil_of_le (Nat.le_of_eq length)]

/-- Where some constructor takes the arguments as they are, none of them is packed, and none needs a
cast. -/
theorem accepted_of_found {id : TypeId} {info : TypeInfo} {values : List Expr}
    {chosen other : Signature} (isType : types.get? id = some info)
    (member : other ∈ info.constructors)
    (takes : TypeTable.accepts types.implicitlyConvertible (values.map Expr.ty) other = true)
    (found : types.findConstructor? id (values.map Expr.ty) = some chosen) :
    Sugar.expandParams types chosen values = values ∧
      ∀ (place : Nat) param value, chosen.params[place]? = some param →
        values[place]? = some value → types.implicitlyConvertible value.ty param.ty = true := by
  obtain ⟨sameLength, accepted⟩ := TypeTable.accepts_iff.1
    (TypeTable.accepts_implicitly_of_found isType member takes found)
  rw [List.length_map] at sameLength
  have accepted (place : Nat) (param : Param) (value : Expr)
      (isParam : chosen.params[place]? = some param) (isValue : values[place]? = some value) :
      types.implicitlyConvertible value.ty param.ty = true :=
    accepted place param value.ty isParam (by simp [isValue])
  refine ⟨?_, accepted⟩
  rcases Sugar.expandParams_cases types chosen values with
    same | ⟨_, index, element, ⟨⟩, variadic, inside, -⟩
  · exact same
  · obtain ⟨name, isLast⟩ := variadic.takes
    have isValue := List.getElem?_eq_getElem inside
    exact Sugar.expandParams_array variadic (sameLength.symm.trans variadic.length) isValue
      (.inr (accepted index _ _ isLast isValue))

/-! ## Its arguments -/

/-- The second expressions arrive for the first ones. -/
abbrev AllArrive (types : TypeTable) : List Expr → List Expr → Prop :=
  List.Forall₂ fun value operand => Arrives types (.expr value) (.expr operand)

/-- What arrives for a construction is a construction of the same type, with the converted
arguments. -/
theorem arrives_construct {made : Note} {target : Ty} {given : List Expr} {chosen : Signature}
    {result : Node}
    (arrives : Arrives types (.expr (.construct made target given (some chosen))) result) :
    ∃ operands, AllArrive types given operands ∧
      result = .expr (.construct made target (coerceArgs types chosen operands) (some chosen)) := by
  obtain ⟨rebuilt, scope, ⟨shell, parts⟩, left⟩ := arrives.opens (by rintro _ _ _ _ ⟨⟩)
  cases rebuilt <;> simp only [Node.shell, reduceCtorEq, Node.expr.injEq] at shell
  case expr root =>
    cases root <;> simp only [Expr.shell, reduceCtorEq, Expr.construct.injEq] at shell
    case construct note constructed operands signature =>
      obtain ⟨rfl, rfl, -, rfl⟩ := shell
      refine ⟨operands, ?_, (Except.ok.inj left).symm⟩
      simp only [Node.parts, Expr.parts, List.forall₂_map_left_iff, List.forall₂_map_right_iff]
        at parts
      exact parts.imp fun _ _ both => both.2

/-- What arrives for an array literal is one with the same element type, its items converted to
it. -/
theorem arrives_array {note : Note} {element : Ty} {items : List Expr} {result : Node}
    (arrives : Arrives types (.expr (.array note element items)) result) :
    ∃ operands, AllArrive types items operands ∧
      result = .expr (.array note element (operands.map (coerce types element))) := by
  obtain ⟨rebuilt, scope, ⟨shell, parts⟩, left⟩ := arrives.opens (by rintro _ _ _ _ ⟨⟩)
  cases rebuilt <;> simp only [Node.shell, reduceCtorEq, Node.expr.injEq] at shell
  case expr root =>
    cases root <;> simp only [Expr.shell, reduceCtorEq, Expr.array.injEq] at shell
    case array note element operands =>
      obtain ⟨rfl, rfl, -⟩ := shell
      refine ⟨operands, ?_, (Except.ok.inj left).symm⟩
      simp only [Node.parts, Expr.parts, List.forall₂_map_left_iff, List.forall₂_map_right_iff]
        at parts
      exact parts.imp fun _ _ both => both.2

/-- An argument that is passed by value is converted to the type of its parameter. -/
theorem coerceArg_of_param {chosen : Signature} {place : Nat} {param : Param} (operand : Expr)
    (isParam : chosen.params[place]? = some param)
    (byValue : param.modifier.isByReference = false) :
    coerceArg types chosen place operand = coerce types param.ty operand := by
  simp [coerceArg, Signature.paramTypeAt, Signature.modifierAt, isParam, byValue]

/-- The arguments of a construction fit the constructor `chosen` of the type `id`. The arguments as
values are `values`, those given to the constructor are `given`, and `finals` are those with their
casts. -/
structure Fitted (types : TypeTable) (id : TypeId) (chosen : Signature)
    (values given finals : List Expr) : Prop where
  length : finals.length = chosen.params.length
  args : ∀ (place : Nat) param value final, chosen.params[place]? = some param →
    param.modifier.isByReference = false → given[place]? = some value →
      finals[place]? = some final → Converted types param.ty value final
  packed : given ≠ values → ∃ index element items, Sugar.Variadic chosen index element ∧
    given = Sugar.packed element index values ∧
    finals[index]? = some (.array (Expr.noteOf (.array element)) element items) ∧
    List.Forall₂ (Converted types element) (values.drop index) items
  kept : ∀ info other, types.get? id = some info → other ∈ info.constructors →
    TypeTable.accepts types.implicitlyConvertible (values.map Expr.ty) other = true →
      given = values ∧ AllArrive types values finals

section Fitted

variable {id : TypeId} {chosen : Signature} {values operands : List Expr}

/-- The argument for a parameter that is passed by value is converted to its type. -/
theorem fitted_args (found : types.findConstructor? id (values.map Expr.ty) = some chosen)
    (arrive : AllArrive types (Sugar.expandParams types chosen values) operands) {place : Nat}
    {param : Param} {value final : Expr} (isParam : chosen.params[place]? = some param)
    (byValue : param.modifier.isByReference = false)
    (isValue : (Sugar.expandParams types chosen values)[place]? = some value)
    (isFinal : (coerceArgs types chosen operands)[place]? = some final) :
    Converted types param.ty value final := by
  obtain ⟨operand, isOperand, arrives⟩ := Sugar.exists_getElem?_of_forall₂ arrive isValue
  rw [coerceArgs, List.getElem?_mapIdx, isOperand, Option.map_some,
    coerceArg_of_param operand isParam byValue] at isFinal
  obtain rfl := Option.some.inj isFinal
  exact converted_coerce arrives ((given_allowed found).2 place param value isParam isValue)

/-- When arguments are packed, the items of the array are converted to its element type. -/
theorem fitted_packed (found : types.findConstructor? id (values.map Expr.ty) = some chosen)
    (arrive : AllArrive types (Sugar.expandParams types chosen values) operands)
    (packs : Sugar.expandParams types chosen values ≠ values) :
    ∃ index element items, Sugar.Variadic chosen index element ∧
      Sugar.expandParams types chosen values = Sugar.packed element index values ∧
      (coerceArgs types chosen operands)[index]? =
        some (.array (Expr.noteOf (.array element)) element items) ∧
      List.Forall₂ (Converted types element) (values.drop index) items := by
  obtain ⟨index, element, value, variadic, inside, same, rest, isObject⟩ :=
    packed_isObject found packs
  rw [same] at arrive
  obtain ⟨operand, isOperand, arrives⟩ :=
    Sugar.exists_getElem?_of_forall₂ arrive (Sugar.packed_getElem? inside)
  obtain ⟨items, itemsArrive, ⟨⟩⟩ := arrives_array arrives
  refine ⟨index, element, items.map (coerce types element), variadic, same, ?_, ?_⟩
  · obtain ⟨name, isLast⟩ := variadic.takes
    rw [coerceArgs, List.getElem?_mapIdx, isOperand, Option.map_some,
      coerceArg_of_param _ isLast rfl]
    exact congrArg some (coerce_of_accepted (needsCast_of_ty rfl))
  · rw [rest] at itemsArrive ⊢
    obtain ⟨item, _, arrivesItem, ⟨⟩, rfl⟩ := List.forall₂_cons_left_iff.1 itemsArrive
    exact .cons
      (converted_coerce arrivesItem (TypeTable.explicitlyConvertible_of_isObject isObject)) .nil

/-- Where some constructor takes the arguments as they are, none of them gets a cast. -/
theorem fitted_kept {info : TypeInfo} {other : Signature}
    (found : types.findConstructor? id (values.map Expr.ty) = some chosen)
    (arrive : AllArrive types (Sugar.expandParams types chosen values) operands)
    (isType : types.get? id = some info) (member : other ∈ info.constructors)
    (takes : TypeTable.accepts types.implicitlyConvertible (values.map Expr.ty) other = true) :
    Sugar.expandParams types chosen values = values ∧
      AllArrive types values (coerceArgs types chosen operands) := by
  obtain ⟨same, accepted⟩ := accepted_of_found isType member takes found
  have sameLength := (given_allowed found).1
  rw [same] at arrive sameLength
  refine ⟨same, ?_⟩
  rwa [coerceArgs_of_accepted]
  rintro required operand ⟨place, isOperand, isRequired, -⟩
  obtain ⟨value, isValue, arrives⟩ := Sugar.exists_getElem?_of_forall₂ arrive.flip isOperand
  have isParam : chosen.params[place]? = some _ := List.getElem?_eq_getElem
    (sameLength ▸ (List.getElem?_eq_some_iff.1 isValue).1)
  rw [Signature.paramTypeAt, isParam] at isRequired
  obtain rfl := Option.some.inj isRequired
  refine needsCast_of_implicitly ?_
  rw [Arrives.ty arrives]
  exact accepted place _ value isParam isValue

/-- The arguments fit the constructor that was found for them, once they have their casts. -/
theorem fitted (found : types.findConstructor? id (values.map Expr.ty) = some chosen)
    (arrive : AllArrive types (Sugar.expandParams types chosen values) operands) :
    Fitted types id chosen values (Sugar.expandParams types chosen values)
      (coerceArgs types chosen operands) where
  length := by
    rw [coerceArgs, List.length_mapIdx, ← arrive.length_eq, (given_allowed found).1]
  args _ _ _ _ := fitted_args found arrive
  packed := fitted_packed found arrive
  kept _ _ := fitted_kept found arrive

end Fitted

/-! ## Units -/

/-! A class with a constructor for a weight and any number of labels, and one with a constructor
whose parameter has no type that a value can have. -/
namespace Crate

/-- A weight and any number of labels. -/
def labels : Signature :=
  ⟨[⟨"weight", .int, .none⟩, ⟨"labels", .array .string, .params⟩], .void⟩

/-- A parameter of type `void`. -/
def nothing : Signature := ⟨[⟨"nothing", .void, .none⟩], .void⟩

/-- The context with both classes. -/
def setting : Context :=
  ⟨.ofTypes [⟨"Mode", none, .enumType, none, [], []⟩, ⟨"Mover", none, .classType, none, [], []⟩,
    ⟨"Crate", none, .classType, none, [], [labels]⟩,
    ⟨"Void", none, .classType, none, [], [nothing]⟩], [], false⟩

/-- A local variable of type `object`. -/
def label : Expr := .localRef "label" .object

/-- A call of a class. -/
def call (id : TypeId) (args : List Expr) : Expr :=
  .invoke (Expr.noteOf (.named id)) (.typeRef (Expr.noteOf (.named id)) (.named id)) [] args none

/-- The construction that the call becomes. -/
def made (id : TypeId) (chosen : Signature) (args : List Expr) : Expr :=
  .construct (Expr.noteOf (.named id)) (.named id) args (some chosen)

/-- The labels in an array. -/
def array (items : List Expr) : Expr := .array (Expr.noteOf (.array .string)) .string items

/-- The script with a construction as its step, as the casts find it. -/
def source (id : TypeId) (chosen : Signature) (args : List Expr) : SourceUnit :=
  Mover.script (fun _ expr => expr) (made id chosen args)

/-- The script with its casts. -/
def result (id : TypeId) (chosen : Signature) (args : List Expr) : SourceUnit :=
  Mover.script Expr.castTo (made id chosen args)

end Crate

/-- A call of a type becomes a construction with the constructor that fits its arguments best.
Wherever the construction stands in a unit, with or without settled receivers, putting casts into
the unit makes its arguments fit this constructor. -/
theorem unit_constructor_casts {scope : Sugar.Scope} {note made : Note} {callee : Expr}
    {named target : Ty} {typeArgs : List Ty} {args given : List Expr}
    {signature : Option Signature} {chosen : Signature} {unit result : SourceUnit}
    {received : Node} (names : callee.typeName? = some named)
    (created : (Sugar.traversal context).expr scope
      (.invoke note callee typeArgs args signature) =
        .ok (.construct made target given (some chosen)))
    (reaches : Received context.types (.expr (.construct made target given (some chosen))) received)
    (inside : (Node.unit unit).Inside received)
    (finished : Coercion.unit context.types unit = .ok result) :
    ∃ id walked finals, target.typeId? = some id ∧
      (Sugar.traversal context).exprs scope args = .ok walked ∧
      (Node.unit result).Inside (.expr (.construct made target finals (some chosen))) ∧
      Fitted context.types id chosen (walked.map (Sugar.valueize context.types)) given finals := by
  obtain ⟨id, walked, isOwner, walks, found, rfl⟩ := created_cases names created
  obtain ⟨place, final, stands, walksNode⟩ := walk_inside inside (walk_unit.2 finished)
  obtain ⟨operands, arrive, rfl⟩ := arrives_construct ⟨received, place, reaches, walksNode⟩
  exact ⟨id, walked, _, isOwner, walks, stands, fitted found arrive⟩

/-- A float for an `int` and an object in a packed array of strings both get their casts. -/
theorem unit_constructor_casts_crate :
    Coercion.unit Crate.setting.types
        (Crate.source 2 Crate.labels [Mover.factor, Crate.array [Crate.label]]) =
      .ok (Crate.result 2 Crate.labels
        [Mover.factor.castTo .int, Crate.array [Crate.label.castTo .string]]) ∧
    ∃ id walked finals, (Ty.named 2).typeId? = some id ∧
      (Sugar.traversal Crate.setting).exprs .outside [Mover.factor, Crate.label] = .ok walked ∧
      (Node.unit (Crate.result 2 Crate.labels
        [Mover.factor.castTo .int, Crate.array [Crate.label.castTo .string]])).Inside
        (.expr (Crate.made 2 Crate.labels finals)) ∧
      Fitted Crate.setting.types id Crate.labels
        (walked.map (Sugar.valueize Crate.setting.types))
        [Mover.factor, Crate.array [Crate.label]] finals := by
  have created : (Sugar.traversal Crate.setting).expr .outside
      (Crate.call 2 [Mover.factor, Crate.label]) =
        .ok (Crate.made 2 Crate.labels [Mover.factor, Crate.array [Crate.label]]) := by
    decide +kernel
  have finished : Coercion.unit Crate.setting.types
      (Crate.source 2 Crate.labels [Mover.factor, Crate.array [Crate.label]]) =
        .ok (Crate.result 2 Crate.labels
          [Mover.factor.castTo .int, Crate.array [Crate.label.castTo .string]]) := by
    decide +kernel
  exact ⟨finished, unit_constructor_casts rfl created (.inl rfl) (Mover.inside_script _ _) finished⟩

/-- An object that is passed where nothing can be passed stays as it is, although nothing accepts
it. -/
theorem unaccepted_void :
    (Sugar.traversal Crate.setting).expr .outside (Crate.call 3 [Crate.label]) =
        .ok (Crate.made 3 Crate.nothing [Crate.label]) ∧
      Coercion.unit Crate.setting.types (Crate.source 3 Crate.nothing [Crate.label]) =
        .ok (Crate.result 3 Crate.nothing [Crate.label]) ∧
      Crate.setting.types.implicitlyConvertible Crate.label.ty .void = false ∧
      Crate.label.ty.isNull = false ∧ Crate.label.isLambda = false ∧
      (Crate.label.ty.isDelegate || Ty.isDelegate .void) = false ∧
      ∀ operand required, Crate.label ≠ Expr.castTo required operand := by
  refine ⟨by decide +kernel, by decide +kernel, by decide, by decide, by decide, by decide, ?_⟩
  rintro operand required ⟨⟩

end ScriptSharp.Lowering.Coercion
