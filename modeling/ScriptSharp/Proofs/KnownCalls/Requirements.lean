import ScriptSharp.Proofs.Coercion.Settled
import ScriptSharp.Proofs.KnownCalls.Places
import ScriptSharp.Proofs.Types.Choice
import ScriptSharp.Proofs.Types.Reachability

/-!
# Narrowing after the casts

Once casts are put in, every expression is accepted where it stands. Narrowing then changes the
types of calls, and what is accepted with them. A call gets the type that an argument names, or the
one that the tree notes for it, and only the second one is what the place was checked against. So
the new type is accepted too when it is below the noted one, and nothing is known of it otherwise.
-/

namespace ScriptSharp

/-! ## Places that ask for a type -/

/-- What a place asks of its expression. -/
inductive Demand where
  /-- A type that is written in the source: of a variable, a field, an item or a result. -/
  | typed (required : Ty)
  /-- The type of a parameter, for the argument at `index`. -/
  | passed (signature : Signature) (index : Nat)
  /-- The type of a parameter of a function value, for the argument at `index`. -/
  | handed (callee : Expr) (index : Nat)
  /-- The type of what is assigned to. -/
  | assigned (op : Option BinaryOp) (target : Expr)
  /-- Something that `other` is compared with by `op`. -/
  | compared (op : BinaryOp) (other : Expr)

/-- A place that asks for a type, with the expression that stands there. -/
structure Place where
  demand : Demand
  value : Expr

namespace Demand

/-- The type that is required, if one is. -/
def required? : Demand → Option Ty
  | .typed required => some required
  | .passed signature index =>
    if (signature.modifierAt index).isByReference then none else signature.paramTypeAt index
  | .handed callee index => callee.ty.delegate?.bind fun (params, _) => params[index]?
  | .assigned _ target => some target.ty
  | .compared .. => none

/-- The expressions that the requirement is read off. -/
def givers : Demand → List Expr
  | .typed _ | .passed .. => []
  | .handed callee _ => [callee]
  | .assigned _ target => [target]
  | .compared _ other => [other]

/-- The demand with other expressions that it is read off. -/
def map (change : Expr → Expr) : Demand → Demand
  | .typed required => .typed required
  | .passed signature index => .passed signature index
  | .handed callee index => .handed (change callee) index
  | .assigned op target => .assigned op (change target)
  | .compared op other => .compared op (change other)

open Lowering.Coercion in
/-- The expression needs no cast at the place. An enum is not compared with a whole number, and the
value of some compound assignments may be of any type. -/
def accepts (types : TypeTable) (demand : Demand) (value : Expr) : Bool :=
  match demand with
  | .compared op other =>
    !(op.isComparison && (types.isEnum value.ty && other.ty.isIntegral ||
      types.isEnum other.ty && value.ty.isIntegral))
  | .assigned (some op) target =>
    isKept types op target.ty value.ty || !needsCast types target.ty value
  | demand => demand.required?.all fun required => !needsCast types required value

end Demand

namespace Node

/-- The arguments of a call with a signature as places. -/
def argPlaces (signature : Signature) (args : List Expr) : List Place :=
  args.mapIdx fun index arg => ⟨.passed signature index, arg⟩

/-- The places right below a node that ask for a type, where `returned` is the type that a `return`
has to give, as far as it is known. -/
def placesAt (returned : Option Ty) : Node → List Place
  | .expr (.assign _ op target value) => [⟨.assigned op target, value⟩]
  | .expr (.binary _ op left right) => [⟨.compared op right, left⟩, ⟨.compared op left, right⟩]
  | .expr (.invoke _ _ _ args (some signature)) => argPlaces signature args
  | .expr (.invoke _ callee _ args none) =>
    args.mapIdx fun index arg => ⟨.handed callee index, arg⟩
  | .expr (.construct _ _ args (some signature)) => argPlaces signature args
  | .expr (.array _ element items) => items.map (Place.mk (.typed element))
  | .stmt (.declare _ declared ty init _) =>
    init.toList.map (Place.mk (.typed (declared.getD ty)))
  | .stmt (.ret value _) =>
    returned.toList.flatMap fun required => value.toList.map (Place.mk (.typed required))
  | .member (.field field) => field.init.toList.map (Place.mk (.typed field.ty))
  | .member (.ctor ctor) =>
    ctor.chain.toList.flatMap fun chain =>
      chain.signature.toList.flatMap fun signature => argPlaces signature chain.args
  | _ => []

/-- The places in a tree that ask for a type, in the order of the source. -/
def places (returned : Option Ty) (node : Node) : List Place :=
  gather Lowering.Coercion.returnScope placesAt returned node

end Node

namespace Lowering.Coercion

variable {types : TypeTable} {returned : Option Ty} {node : Node}

/-- The place asks for a type only, and for the one that is required there. -/
structure Asks (types : TypeTable) (returned : Option Ty) (node : Node) (place : Place) : Prop where
  accepts (value : Expr) : place.demand.accepts types value =
    place.demand.required?.all fun required => !needsCast types required value
  required {required : Ty} : place.demand.required? = some required →
    Required returned node required place.value

/-- A place that is required to have a type asks for it. -/
theorem asks_typed {required : Ty} {value : Expr} (place : Required returned node required value) :
    Asks types returned node ⟨.typed required, value⟩ := by
  refine ⟨fun _ => rfl, ?_⟩
  rintro _ ⟨⟩
  exact place

/-- An argument that is passed by value asks for the type of its parameter. -/
theorem asks_passed {signature : Signature} {args : List Expr} {place : Place}
    (member : place ∈ Node.argPlaces signature args)
    (places : ∀ {required : Ty}, PassedByValue signature args required place.value →
      Required returned node required place.value) : Asks types returned node place := by
  obtain ⟨index, inside, rfl⟩ := List.mem_mapIdx.1 member
  refine ⟨fun _ => rfl, fun asks => places ?_⟩
  simp only [Demand.required?, Option.ite_none_left_eq_some, Bool.not_eq_true] at asks
  exact ⟨index, List.getElem?_eq_getElem inside, asks.2, asks.1⟩

/-- The parameters and the result of a function type are those that it is made of. -/
theorem delegate?_eq_some {ty ret : Ty} {params : List Ty} :
    ty.delegate? = some (params, ret) ↔ ty = .delegate params ret := by
  cases ty <;> simp [Ty.delegate?]

/-- A place asks for the type that is required there, unless it is one of a compound assignment or
of an operation. -/
theorem placesAt_cases (types : TypeTable) {place : Place}
    (member : place ∈ Node.placesAt returned node) :
    (∃ note op target value, node = .expr (.assign note (some op) target value) ∧
        place = ⟨.assigned (some op) target, value⟩) ∨
      (∃ note op left right, node = .expr (.binary note op left right) ∧
        (place = ⟨.compared op right, left⟩ ∨ place = ⟨.compared op left, right⟩)) ∨
      Asks types returned node place := by
  -- Only an assignment and an operation can ask for something else than a type.
  cases node with
  | expr root =>
    cases root
    case assign note op target value =>
      obtain rfl := List.mem_singleton.1 member
      cases op with
      | none =>
        refine .inr (.inr ⟨fun _ => rfl, ?_⟩)
        rintro _ ⟨⟩
        exact .assigned
      | some op => exact .inl ⟨note, op, target, value, rfl, rfl⟩
    case binary note op left right =>
      exact .inr (.inl ⟨note, op, left, right, rfl, List.mem_pair.1 member⟩)
    case invoke note callee typeArgs args signature =>
      refine .inr (.inr ?_)
      cases signature with
      | some signature => exact asks_passed member .argument
      | none =>
        obtain ⟨index, inside, rfl⟩ := List.mem_mapIdx.1 member
        refine ⟨fun _ => rfl, fun asks => ?_⟩
        obtain ⟨⟨params, ret⟩, called, taken⟩ := Option.bind_eq_some_iff.1 asks
        exact .delegateArgument (delegate?_eq_some.1 called) (List.getElem?_eq_getElem inside) taken
    case construct note constructed args signature =>
      cases signature with
      | some signature => exact .inr (.inr (asks_passed member .constructed))
      | none => cases member
    case array note element items =>
      obtain ⟨item, itemOf, rfl⟩ := List.mem_map.1 member
      exact .inr (.inr (asks_typed (.item itemOf)))
    all_goals cases member
  | stmt root =>
    refine .inr (.inr ?_)
    cases root
    case declare name declared ty init span =>
      obtain ⟨value, present, rfl⟩ := List.mem_map.1 member
      obtain rfl := Option.mem_toList.1 present
      exact asks_typed .initialized
    case ret value span =>
      obtain ⟨required, known, member⟩ := List.mem_flatMap.1 member
      obtain ⟨value, present, rfl⟩ := List.mem_map.1 member
      obtain rfl := Option.mem_toList.1 present
      exact asks_typed (.given (Option.mem_toList.1 known))
    all_goals cases member
  | member root =>
    refine .inr (.inr ?_)
    cases root with
    | field field =>
      obtain ⟨value, present, rfl⟩ := List.mem_map.1 member
      exact asks_typed (.field (Option.mem_toList.1 present))
    | ctor ctor =>
      obtain ⟨chain, present, member⟩ := List.mem_flatMap.1 member
      obtain ⟨signature, bound, member⟩ := List.mem_flatMap.1 member
      exact asks_passed member
        (.chained (Option.mem_toList.1 present) (Option.mem_toList.1 bound))
    | method => cases member
  | attr | decl | unit => cases member

/-- In a settled node every place accepts its expression. -/
theorem Settled.accepts {place : Place} (settled : Settled types returned node)
    (member : place ∈ Node.placesAt returned node) :
    place.demand.accepts types place.value = true := by
  rcases placesAt_cases types member with ⟨note, op, target, value, rfl, rfl⟩ |
    ⟨note, op, left, right, rfl, operand⟩ | asks
  · have compound := settled.compound rfl
    simp only [Demand.accepts, Bool.or_eq_true, isKept_iff, Bool.not_eq_true']
    simpa only [or_assoc] using compound
  · have compared := settled.compared rfl
    rcases operand with rfl | rfl <;> grind [Demand.accepts]
  · rw [asks.accepts, Option.all_eq_true]
    intro required isRequired
    rw [settled.accepted (asks.required isRequired)]
    rfl

/-! ## Types below the one that is checked -/

/-- A value of type `given` may take the place of one of type `noted`: the types are the same, or
the first one is no number and no enum, and it is below the second one. -/
def Narrower (types : TypeTable) (given noted : Ty) : Prop :=
  given = noted ∨ types.isEnum given = false ∧ given.isIntegral = false ∧
    (noted.isObject = true ∨ types.isEnum noted = false ∧ ∃ source target,
      given.typeId? = some source ∧ noted = .named target ∧ types.isSubtype source target = true)

/-- Everything but `void` converts to `object`. -/
theorem implicitlyConvertible_object {given : Ty} (filled : given.isVoid = false) :
    types.implicitlyConvertible given .object = true := by
  unfold TypeTable.implicitlyConvertible
  cases given <;> simp_all [Ty.isVoid, Ty.object]

/-- The type `object` is not integral. -/
theorem isIntegral_of_isObject {ty : Ty} (isObject : ty.isObject = true) :
    ty.isIntegral = false := by
  cases ty
  case primitive basic => cases basic <;> first | rfl | cases isObject
  all_goals rfl

/-- What is noted as `object` converts to nothing but `object`. -/
theorem eq_object_of_implicitly {noted required : Ty} (isObject : noted.isObject = true)
    (converts : types.implicitlyConvertible noted required = true) : required = .object := by
  cases noted
  case primitive basic =>
    cases basic <;> cases isObject
    unfold TypeTable.implicitlyConvertible at converts
    cases required
    case primitive other =>
      cases other <;> simp_all [TypeTable.widens, Primitive.numericRank, Ty.object]
    all_goals simp_all
  all_goals cases isObject

/-- What a type converts to, every type below it converts to. -/
theorem implicitlyConvertible_below {given required : Ty} {source target : TypeId}
    (isType : given.typeId? = some source) (noEnum : types.isEnum given = false)
    (notedNoEnum : types.isEnum (.named target) = false)
    (below : types.isSubtype source target = true)
    (converts : types.implicitlyConvertible (.named target) required = true) :
    types.implicitlyConvertible given required = true := by
  have filled : given.isVoid = false := by cases given <;> first | rfl | cases isType
  unfold TypeTable.implicitlyConvertible at converts
  cases required
  case primitive basic =>
    cases basic <;> simp at converts
    exact implicitlyConvertible_object filled
  case named id =>
    have above : types.isSubtype source id = true := by
      rcases eq_or_ne target id with rfl | other
      · exact below
      · exact TypeTable.isSubtype_trans below (by simp_all)
    cases given <;> cases isType
    all_goals
      unfold TypeTable.implicitlyConvertible
      simp [above, noEnum]
  all_goals simp at converts

/-- Nothing is asked of a value for a place without a type, for a function, or for what converts
anyway. -/
theorem needsCast_of_free {required : Ty} {value : Expr}
    (free : required.isVoid = true ∨ required.isDelegate = true ∨
      types.implicitlyConvertible value.ty required = true) :
    needsCast types required value = false := by
  rcases free with anything | function | converts
  · simp [needsCast, anything]
  · simp [needsCast, function]
  · exact needsCast_of_implicitly converts

/-- A value of a nominal type is accepted where no certain type is required, or where it converts to
the type that is. -/
theorem free_of_needsCast {required : Ty} {value : Expr} (noLambda : value.isLambda = false)
    (nominal : value.ty.isObject = true ∨ value.ty.typeId?.isSome = true)
    (accepted : needsCast types required value = false) :
    required.isVoid = true ∨ required.isDelegate = true ∨
      types.implicitlyConvertible value.ty required = true := by
  have ordinary : value.ty.isDelegate = false ∧ value.ty.isNull = false ∧
      value.ty.isVoid = false := by
    cases same : value.ty <;>
      simp_all [Ty.isObject, Ty.typeId?, Ty.isDelegate, Ty.isNull, Ty.isVoid]
  have reflexive : value.ty = required → types.implicitlyConvertible value.ty required = true := by
    rintro rfl
    exact TypeTable.implicitlyConvertible_refl types value.ty
  simp only [needsCast, noLambda, ordinary, Bool.not_eq_false', Bool.or_eq_true, decide_eq_true_eq,
    Bool.false_eq_true, or_false] at accepted
  tauto

/-- What is below a type that is accepted is accepted. -/
theorem needsCast_of_narrower {required : Ty} {value other : Expr}
    (noLambda : value.isLambda = false) (narrower : Narrower types other.ty value.ty)
    (accepted : needsCast types required value = false) :
    needsCast types required other = false := by
  rcases narrower with same | ⟨noEnum, -, above⟩
  · simp_all [needsCast]
  · by_cases filled : other.ty.isVoid = true
    · simp [needsCast, filled]
    · rcases above with isObject | ⟨notedNoEnum, source, target, isType, noted, below⟩
      · have free := free_of_needsCast noLambda (.inl isObject) accepted
        refine needsCast_of_free (free.imp_right (Or.imp_right fun converts => ?_))
        obtain rfl := eq_object_of_implicitly isObject converts
        exact implicitlyConvertible_object (by simpa using filled)
      · have free := free_of_needsCast noLambda (.inr (noted ▸ rfl)) accepted
        refine needsCast_of_free (free.imp_right (Or.imp_right fun converts => ?_))
        rw [noted] at notedNoEnum converts
        exact implicitlyConvertible_below isType noEnum notedNoEnum below converts

section Accepted

variable {demand : Demand} {value other : Expr}

/-- Whether a place accepts an expression depends on its type, and on whether it is a lambda. -/
theorem accepts_congr (sameTy : value.ty = other.ty) (sameKind : value.isLambda = other.isLambda) :
    demand.accepts types value = demand.accepts types other := by
  have same (required : Ty) : needsCast types required value = needsCast types required other :=
    needsCast_congr sameTy sameKind
  cases demand with
  | assigned op target => cases op <;> simp [Demand.accepts, Demand.required?, same, sameTy]
  | typed | passed | handed | compared => simp [Demand.accepts, same, sameTy]

/-- A demand that is read off expressions of the same types asks for the same. -/
theorem accepts_map {change : Expr → Expr}
    (steady : ∀ giver ∈ demand.givers, (change giver).ty = giver.ty) :
    (demand.map change).accepts types value = demand.accepts types value := by
  cases demand with
  | assigned op target =>
    have sameTy := steady target List.mem_cons_self
    cases op <;> simp [Demand.accepts, Demand.map, Demand.required?, sameTy]
  | handed callee index =>
    have sameTy := steady callee List.mem_cons_self
    simp [Demand.accepts, Demand.map, Demand.required?, sameTy]
  | compared op other =>
    have sameTy := steady other List.mem_cons_self
    simp [Demand.accepts, Demand.map, sameTy]
  | typed | passed => rfl

/-- Where a type is accepted, one below it is. -/
theorem accepts_of_narrower (noLambda : value.isLambda = false)
    (narrower : Narrower types other.ty value.ty) (accepted : demand.accepts types value = true) :
    demand.accepts types other = true := by
  have free {required : Ty} (free : needsCast types required value = false) :
      needsCast types required other = false := needsCast_of_narrower noLambda narrower free
  cases demand with
  | typed | passed | handed =>
    simp only [Demand.accepts, Option.all_eq_true, Bool.not_eq_true'] at accepted ⊢
    exact fun required asks => free (accepted required asks)
  | assigned op target =>
    cases op with
    | none =>
      simp only [Demand.accepts, Option.all_eq_true, Bool.not_eq_true'] at accepted ⊢
      exact fun required asks => free (accepted required asks)
    | some op =>
      simp only [Demand.accepts, Bool.or_eq_true, Bool.not_eq_true'] at accepted ⊢
      refine accepted.imp (fun kept => ?_) free
      rcases narrower with same | ⟨-, -, above⟩
      · rwa [same]
      · -- Objects and nominal types are no whole numbers, so the type of the value did not matter.
        have noNumber : value.ty.isIntegral = false := by
          rcases above with isObject | ⟨-, -, target, -, noted, -⟩
          · exact isIntegral_of_isObject isObject
          · rw [noted]
            rfl
        rw [isKept_iff] at kept ⊢
        rcases kept with shift | text | ⟨-, -, number⟩
        · exact .inl shift
        · exact .inr (.inl text)
        · exact absurd (number.symm.trans noNumber) (by decide)
  | compared op third =>
    rcases narrower with same | ⟨noEnum, noNumber, -⟩
    · simpa [Demand.accepts, same] using accepted
    · simp [Demand.accepts, noEnum, noNumber]

end Accepted

end Lowering.Coercion

namespace Lowering.KnownCalls

open Outcome

variable {context : Context} {usage : Usage}

/-- Narrowing goes through a value that may be absent. -/
theorem optional_eq_map (present : Option Expr) :
    ((traversal context).optional usage present).run = present.map (narrowed context usage) := by
  cases present <;> rfl

/-- Narrowing goes through the arguments of a constructor chain. -/
theorem chain?_eq_map (chain : Option CtorChain) :
    ((traversal context).chain? usage chain).run =
      chain.map fun chain => { chain with args := chain.args.map (narrowed context usage) } := by
  cases chain with
  | none => rfl
  | some chain =>
    rw [Option.map_some, ← exprs_eq_map]
    rfl

/-- What narrowing makes of a place that asks for a type. -/
def narrowedPlace (context : Context) (place : Place) : Place :=
  ⟨place.demand.map (narrowed context .value), narrowed context .value place.value⟩

/-- Places with narrowed expressions, where each place depends on its index. -/
theorem mapIdx_narrowed {before after : Nat → Expr → Place} (args : List Expr)
    (same : ∀ index arg, after index (narrowed context .value arg) =
      narrowedPlace context (before index arg)) :
    (args.map (narrowed context .value)).mapIdx after =
      (args.mapIdx before).map (narrowedPlace context) := by
  refine List.ext_getElem (by simp) fun index _ _ => ?_
  simp [same]

/-- Narrowing the arguments of a call narrows their places. -/
theorem argPlaces_narrowed (signature : Signature) (args : List Expr) :
    Node.argPlaces signature (args.map (narrowed context .value)) =
      (Node.argPlaces signature args).map (narrowedPlace context) :=
  mapIdx_narrowed args fun _ _ => rfl

/-- Narrowing goes over the places that ask for a type one by one. -/
theorem followed_places (context : Context) :
    Followed context Coercion.returnScope Node.placesAt (narrowedPlace context) where
  scope := Coercion.returnScope_congr
  rebuilt {env usage carried node rebuilt} reached entered matched := by
    -- The places are read off the parts, so each form only has to show that its parts are narrowed
    -- where they stand.
    cases node with
    | expr expr =>
      obtain rfl := rebuilt_expr matched
      cases expr
      case assign note op target value =>
        obtain rfl := carried_of_enter (by cases usage <;> rfl) entered
        rfl
      case binary note op left right =>
        obtain rfl := carried_of_enter (by cases usage <;> rfl) entered
        rfl
      case invoke note callee typeArgs args signature =>
        obtain rfl := carried_of_enter (by cases usage <;> rfl) entered
        change Node.placesAt env (.expr (.invoke note (narrowed context .value callee) typeArgs
          ((traversal context).exprs .value args).run signature)) = _
        rw [exprs_eq_map]
        cases signature with
        | some signature => exact argPlaces_narrowed signature args
        | none => exact mapIdx_narrowed args fun _ _ => rfl
      case construct note constructed args signature =>
        obtain rfl := carried_of_enter (by cases usage <;> rfl) entered
        change Node.placesAt env (.expr (.construct note constructed
          ((traversal context).exprs .value args).run signature)) = _
        rw [exprs_eq_map]
        cases signature with
        | some signature => exact argPlaces_narrowed signature args
        | none => rfl
      case array note element items =>
        obtain rfl := carried_of_enter (by cases usage <;> rfl) entered
        change (((traversal context).exprs .value items).run).map (Place.mk (.typed element)) = _
        rw [exprs_eq_map, Node.placesAt, List.map_map, List.map_map]
        rfl
      case lambda note params ret body => cases body <;> rfl
      all_goals rfl
    | stmt stmt =>
      obtain rfl := reached.value (by rintro _ ⟨⟩)
      obtain rfl := Option.some.inj entered
      obtain rfl := rebuilt_stmt matched
      cases stmt
      case declare name declared ty init span => cases init <;> rfl
      case ret value span => cases env <;> cases value <;> rfl
      all_goals rfl
    | member member =>
      obtain rfl := reached.value (by rintro _ ⟨⟩)
      obtain rfl := Option.some.inj entered
      obtain rfl := rebuilt_member matched
      cases member with
      | field field =>
        change ((traversal context).optional .value field.init).run.toList.map _ = _
        rw [optional_eq_map]
        obtain ⟨name, ty, init, modifiers, attrs, span⟩ := field
        cases init <;> rfl
      | method method => rfl
      | ctor ctor =>
        change ((traversal context).chain? .value ctor.chain).run.toList.flatMap _ = _
        rw [chain?_eq_map]
        obtain ⟨params, chain, body, modifiers, span⟩ := ctor
        cases chain with
        | none => rfl
        | some chain =>
          obtain ⟨kind, args, signature⟩ := chain
          cases signature with
          | none => rfl
          | some signature =>
            simp [Node.placesAt, argPlaces_narrowed]
    | attr | decl | unit =>
      have shell := matched.shell
      cases rebuilt <;> simp only [Node.shell, reduceCtorEq] at shell
      rfl
  paren _ _ _ := ⟨rfl, rfl⟩
  cast _ _ _ := ⟨rfl, rfl⟩
  declared _ call := by fun_cases withDeclaredType call <;> exact ⟨rfl, rfl⟩

/-! ## What becomes of the types -/

/-- A value has the type that it is cast to, or the one that it had. -/
theorem ty_narrowed (expr : Expr) :
    (narrowed context .value expr).ty = (castTarget? context expr).getD expr.ty := by
  cases expr
  case invoke note callee typeArgs args signature =>
    rw [← castTarget?_parts]
    rcases narrowed_invoke_cases context note callee typeArgs args signature with
      ⟨accepted, same⟩ | ⟨required, needed, same⟩
    · rw [accepted, same]
      rfl
    · rw [needed, same]
      rfl
  case cast note operand target synthesized =>
    rw [narrowed_cast]
    rfl
  all_goals rfl

/-- Narrowing makes no lambda, and takes none away. -/
theorem isLambda_narrowed (expr : Expr) :
    (narrowed context .value expr).isLambda = expr.isLambda := by
  rw [Expr.isLambda, Expr.isLambda, stripParens_narrowed]
  have bare := stripParens_ne_paren expr
  cases same : expr.stripParens
  case paren note inner => exact absurd same (bare note inner)
  case invoke note callee typeArgs args signature =>
    rcases narrowed_invoke_cases context note callee typeArgs args signature with
      ⟨-, same⟩ | ⟨required, -, same⟩ <;> exact same ▸ rfl
  case cast note operand target synthesized => rw [narrowed_cast]
  all_goals rfl

/-- The arguments of a call. -/
def argsOf : Expr → List Expr
  | .invoke _ _ _ args _ => args
  | _ => []

/-- A type that the tree does not note for a call is named by an argument. -/
theorem named_of_castTarget? {call : Expr} {given : Ty}
    (needed : castTarget? context call = some given) :
    given = call.ty ∨ ∃ arg ∈ argsOf call, namedType? context.types arg = some given := by
  obtain ⟨note, callee, typeArgs, args, signature, rfl, -⟩ := exists_invoke_of_castTarget? needed
  obtain ⟨binding, name, api, -, -, -, chosen, -⟩ := castTarget?_eq_some.1 needed
  rcases Option.or_eq_some_iff.1 chosen with named | ⟨-, noted⟩
  · obtain ⟨arg, isArg, named⟩ := Option.bind_eq_some_iff.1 named
    exact .inr ⟨arg, List.mem_of_getElem? isArg, named⟩
  · refine .inl ?_
    split_ifs at noted
    exact (Option.some.inj noted).symm

/-- What becomes of a place that asks for a type. -/
structure Kept (context : Context) (before after : Place) : Prop where
  demand : after.demand = before.demand.map (narrowed context .value)
  value : after.value = narrowed context .value before.value
  /-- A value has the type that it is cast to, or the one that it had. -/
  ty : after.value.ty = (castTarget? context before.value).getD before.value.ty
  /-- Before, the place accepts its expression. -/
  accepted : before.demand.accepts context.types before.value = true
  /-- An expression that keeps its type is accepted as before, where the demand stays. -/
  stays : (∀ giver ∈ before.demand.givers, (narrowed context .value giver).ty = giver.ty) →
    after.value.ty = before.value.ty → after.demand.accepts context.types after.value = true
  /-- A call that gets a cast gets it to the type that the tree notes for it, or to one that an
  argument names. -/
  cast {given : Ty} : castTarget? context before.value.stripParens = some given →
    after.value.stripParens =
        (withDeclaredType (partsNarrowed context before.value.stripParens)).castTo given ∧
      (given = before.value.stripParens.ty ∨
        ∃ arg ∈ argsOf before.value.stripParens, namedType? context.types arg = some given)
  /-- The cast is accepted if its type is the noted one or below it, where the demand stays. -/
  narrower {given : Ty} :
    (∀ giver ∈ before.demand.givers, (narrowed context .value giver).ty = giver.ty) →
    castTarget? context before.value.stripParens = some given →
    Coercion.Narrower context.types given before.value.ty →
    after.demand.accepts context.types after.value.stripParens = true

/-- A place whose expression was accepted keeps what it asks for, or is narrowed. -/
theorem kept_narrowedPlace {place : Place}
    (accepted : place.demand.accepts context.types place.value = true) :
    Kept context place (narrowedPlace context place) := by
  have cast {given : Ty} (needed : castTarget? context place.value.stripParens = some given) :
      (narrowed context .value place.value).stripParens =
        (withDeclaredType (partsNarrowed context place.value.stripParens)).castTo given := by
    have whole := stripParens_narrowed_call context (isInvoke_of_castTarget? needed)
    rwa [needed] at whole
  refine ⟨rfl, rfl, ty_narrowed place.value, accepted, fun steady sameTy => ?_, fun needed => ?_,
    fun steady needed below => ?_⟩
  · replace sameTy : (narrowed context .value place.value).ty = place.value.ty := sameTy
    change (place.demand.map (narrowed context .value)).accepts context.types
      (narrowed context .value place.value) = true
    rw [Coercion.accepts_map steady,
      Coercion.accepts_congr sameTy (isLambda_narrowed place.value), accepted]
  · exact ⟨cast needed, named_of_castTarget? needed⟩
  · have noLambda : place.value.isLambda = false := by
      obtain ⟨_, _, _, _, _, isCall⟩ := exists_invoke (isInvoke_of_castTarget? needed)
      rw [Expr.isLambda, isCall]
    change (place.demand.map (narrowed context .value)).accepts context.types
      (narrowed context .value place.value).stripParens = true
    rw [Coercion.accepts_map steady, cast needed]
    exact Coercion.accepts_of_narrower noLambda below accepted

/-! ## Units -/

/-- Narrowing a unit with casts goes over the places that ask for a type one by one, and what is
known of each of them is `Kept`. -/
theorem unit_places_kept {source coerced : SourceUnit}
    (finished : Coercion.unit context.types source = .ok coerced) :
    List.Forall₂ (Kept context) (Node.places none (.unit coerced))
      (Node.places none (.unit (unit context coerced))) := by
  have settled := Coercion.settled_walk (.unit source) (Coercion.walk_unit.2 finished)
  have accepted : ∀ place ∈ Node.places none (.unit coerced),
      place.demand.accepts context.types place.value = true :=
    settled.forall_gather fun settledHere _ => settledHere.accepts
  have same : Node.places none (.unit (unit context coerced)) =
      (Node.places none (.unit coerced)).map (narrowedPlace context) :=
    (followed_places context).unit none coerced
  rw [same, List.forall₂_map_right_iff, List.forall₂_same]
  exact fun place member => kept_narrowedPlace (accepted place member)

/-! ## A script that looks for components -/

namespace Armory

/-- What a batch shares that knows components, and an interface that is none. -/
def batch : Context where
  types := .ofTypes [⟨"Component", some "UnityEngine", .classType, none, [], []⟩,
    ⟨"Rigidbody", some "UnityEngine", .classType, some (.named 0), [], []⟩,
    ⟨"Weapon", none, .interfaceType, none, [], []⟩]
  knownApis := KnownApi.defaults
  serializableClasses := false

/-- `GetComponent(named)`, noted with the type that the method declares. -/
def call (named : Ty) : Expr :=
  .invoke (Expr.noteOf (.named 0))
    (.ident (Expr.noteOf (.named 0)) (.plain "GetComponent") (.member ⟨0, .method, false, none⟩))
    [] [.typeOf (Expr.noteOf .object) named] (some ⟨[⟨"type", .object, .none⟩], .named 0⟩)

/-- A component that is declared and found. -/
def script (found : Expr) : SourceUnit where
  fileName := "Armory.js"
  imports := []
  implicitImports := []
  decls := []
  globals := [.declare (.plain "found") (some (.named 0)) (.named 0) (some found) .unknown]
  sourceText := none

/-- A call that names a component. -/
def body : Expr := call (.named 1)

/-- A call that names the interface. -/
def weapon : Expr := call (.named 2)

/-- The value that the variable of the script is declared with has a place. -/
theorem places_script (found : Expr) :
    ⟨.typed (.named 0), found⟩ ∈ Node.places none (.unit (script found)) := by
  rw [Node.places, Node.gather_eq]
  refine List.mem_append_right _ (List.mem_flatMap.2 ⟨_, List.mem_cons_self, ?_⟩)
  rw [Node.gather_eq]
  exact List.mem_append_left _ List.mem_cons_self

end Armory

/-- A call that names the interface is narrowed where a component is declared. -/
theorem unit_places_kept_armory :
    Coercion.unit Armory.batch.types (Armory.script Armory.body) = .ok (Armory.script Armory.body) ∧
      Coercion.Narrower Armory.batch.types (.named 1) (.named 0) ∧
      List.Forall₂ (Kept Armory.batch) (Node.places none (.unit (Armory.script Armory.body)))
        (Node.places none (.unit (Armory.script (Armory.body.castTo (.named 1))))) := by
  have finished : Coercion.unit Armory.batch.types (Armory.script Armory.body) =
      .ok (Armory.script Armory.body) := by rfl
  refine ⟨finished, .inr ⟨by decide, rfl, .inr ⟨by decide, 1, 0, rfl, rfl, by decide⟩⟩, ?_⟩
  exact unit_places_kept finished

/-- A call that names an interface becomes a cast to it, and a component is required there. -/
theorem unit_named_unaccepted :
    Coercion.unit Armory.batch.types (Armory.script Armory.weapon) =
        .ok (Armory.script Armory.weapon) ∧
      unit Armory.batch (Armory.script Armory.weapon) =
        Armory.script (Armory.weapon.castTo (.named 2)) ∧
      ⟨.typed (.named 0), Armory.weapon.castTo (.named 2)⟩ ∈
        Node.places none (.unit (Armory.script (Armory.weapon.castTo (.named 2)))) ∧
      Armory.batch.types.implicitlyConvertible (.named 2) (.named 0) = false ∧
      Coercion.needsCast Armory.batch.types (.named 0) (Armory.weapon.castTo (.named 2)) = true :=
  ⟨rfl, rfl, Armory.places_script _, by decide, by decide⟩

end Lowering.KnownCalls

end ScriptSharp
