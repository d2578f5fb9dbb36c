import ScriptSharp.Proofs.Coercion.Casts

/-!
# Where casts have been put in, none are missing

`Required` lists the places where the context requires a type, and `Settled` says of a node that
every such place at it holds an expression that is accepted there. Leaving a node settles it, a
settled node is left as it is, and what lies below a node is settled before the node is left.
Hence the result of the walk is settled everywhere, and a second walk changes nothing.
-/

namespace ScriptSharp.Lowering.Coercion

open Outcome

variable {types : TypeTable} {returned : Option Ty}

/-! ## The places where a type is required -/

/-- The expression is an argument that its parameter takes by value, and `required` is the type of
the parameter. -/
def PassedByValue (signature : Signature) (args : List Expr) (required : Ty) (arg : Expr) : Prop :=
  ∃ index : Nat, args[index]? = some arg ∧ signature.paramTypeAt index = some required ∧
    (signature.modifierAt index).isByReference = false

/-- The expression stands right below the node, in a place where `required` is required. A call
without a signature is the call of a function value, if its callee is one. -/
inductive Required (returned : Option Ty) : Node → Ty → Expr → Prop where
  | assigned {note : Note} {target value : Expr} :
      Required returned (.expr (.assign note none target value)) target.ty value
  | argument {note : Note} {callee : Expr} {typeArgs : List Ty} {args : List Expr}
      {signature : Signature} {required : Ty} {arg : Expr}
      (passed : PassedByValue signature args required arg) :
      Required returned (.expr (.invoke note callee typeArgs args (some signature))) required arg
  | delegateArgument {note : Note} {callee : Expr} {typeArgs : List Ty} {args : List Expr}
      {params : List Ty} {ret required : Ty} {arg : Expr} {index : Nat}
      (called : callee.ty = .delegate params ret) (present : args[index]? = some arg)
      (taken : params[index]? = some required) :
      Required returned (.expr (.invoke note callee typeArgs args none)) required arg
  | constructed {note : Note} {constructed : Ty} {args : List Expr} {signature : Signature}
      {required : Ty} {arg : Expr} (passed : PassedByValue signature args required arg) :
      Required returned (.expr (.construct note constructed args (some signature))) required arg
  | item {note : Note} {element : Ty} {items : List Expr} {item : Expr} (member : item ∈ items) :
      Required returned (.expr (.array note element items)) element item
  | initialized {name : Ident} {declared : Option Ty} {ty : Ty} {init : Expr} {span : Span} :
      Required returned (.stmt (.declare name declared ty (some init) span)) (declared.getD ty) init
  | given {required : Ty} {value : Expr} {span : Span} (known : returned = some required) :
      Required returned (.stmt (.ret (some value) span)) required value
  | field {decl : FieldDecl} {init : Expr} (present : decl.init = some init) :
      Required returned (.member (.field decl)) decl.ty init
  | chained {decl : CtorDecl} {chain : CtorChain} {signature : Signature} {required : Ty}
      {arg : Expr} (present : decl.chain = some chain) (bound : chain.signature = some signature)
      (passed : PassedByValue signature chain.args required arg) :
      Required returned (.member (.ctor decl)) required arg

/-- Every expression right below the node is accepted where it stands, no enum is compared with a
whole number, and a compound assignment is one that is accepted as it is. -/
structure Settled (types : TypeTable) (returned : Option Ty) (node : Node) : Prop where
  accepted {required : Ty} {value : Expr} :
    Required returned node required value → needsCast types required value = false
  compared {note : Note} {op : BinaryOp} {left right : Expr} :
    node = .expr (.binary note op left right) → op.isComparison = true →
      ¬(types.isEnum left.ty = true ∧ right.ty.isIntegral = true) ∧
        ¬(types.isEnum right.ty = true ∧ left.ty.isIntegral = true)
  compound {note : Note} {op : BinaryOp} {target value : Expr} :
    node = .expr (.assign note (some op) target value) →
      (op = .shl ∨ op = .shr) ∨ (op = .add ∧ target.ty = .string) ∨
        ((op = .add ∨ op = .sub) ∧ types.isEnum target.ty = true ∧ value.ty.isIntegral = true) ∨
        needsCast types target.ty value = false

/-! ## Arguments -/

/-- An argument that is passed by value needs no further cast. -/
theorem needsCast_of_passed {signature : Signature} {args : List Expr} {required : Ty} {arg : Expr}
    (passed : PassedByValue signature (coerceArgs types signature args) required arg) :
    needsCast types required arg = false := by
  obtain ⟨index, present, bound, byValue⟩ := passed
  rw [coerceArgs, List.getElem?_mapIdx] at present
  obtain ⟨original, -, rfl⟩ := Option.map_eq_some_iff.1 present
  simp [coerceArg, bound, byValue, needsCast_coerce]

/-- Arguments that their parameters accept stay as they are. -/
theorem coerceArgs_of_accepted {signature : Signature} {args : List Expr}
    (accepted : ∀ {required arg}, PassedByValue signature args required arg →
      needsCast types required arg = false) :
    coerceArgs types signature args = args := by
  rw [coerceArgs, List.mapIdx_eq_iff]
  intro index
  cases present : args[index]? with
  | none => rfl
  | some arg =>
    rw [Option.map_some, coerceArg]
    split
    case h_1 required bound =>
      split_ifs with byReference
      · rfl
      · rw [coerce_of_accepted (accepted ⟨index, present, bound, by simpa using byReference⟩)]
    case h_2 => rfl

/-- An argument of a delegate needs no further cast. -/
theorem needsCast_of_delegateArg {params : List Ty} {args : List Expr} {index : Nat} {required : Ty}
    {arg : Expr} (present : (coerceDelegateArgs types params args)[index]? = some arg)
    (taken : params[index]? = some required) : needsCast types required arg = false := by
  rw [coerceDelegateArgs, List.getElem?_mapIdx] at present
  obtain ⟨original, -, rfl⟩ := Option.map_eq_some_iff.1 present
  simp [taken, needsCast_coerce]

/-- Arguments that the parameters of a delegate accept stay as they are. -/
theorem coerceDelegateArgs_of_accepted {params : List Ty} {args : List Expr}
    (accepted : ∀ {index : Nat} {required arg}, args[index]? = some arg →
      params[index]? = some required → needsCast types required arg = false) :
    coerceDelegateArgs types params args = args := by
  rw [coerceDelegateArgs, List.mapIdx_eq_iff]
  intro index
  cases present : args[index]? with
  | none => rfl
  | some arg =>
    rw [Option.map_some]
    split
    case h_1 required taken => rw [coerce_of_accepted (accepted present taken)]
    case h_2 => rfl

/-- A compound assignment keeps its operand if it shifts, adds to a string, or moves an enum by an
integer. -/
theorem isKept_iff {op : BinaryOp} {target value : Ty} :
    isKept types op target value = true ↔ (op = .shl ∨ op = .shr) ∨ (op = .add ∧ target = .string) ∨
      ((op = .add ∨ op = .sub) ∧ types.isEnum target = true ∧ value.isIntegral = true) := by
  cases op <;> simp [isKept]

/-! ## Leaving a node settles it -/

/-- An assignment of a value that is accepted is settled. -/
theorem settled_plainAssign {note : Note} {target value : Expr}
    (accepted : needsCast types target.ty value = false) :
    Settled types returned (.expr (.assign note none target value)) := by
  refine ⟨fun place => ?_, nofun, nofun⟩
  cases place
  exact accepted

/-- A compound assignment is settled if its operand is kept or accepted. -/
theorem settled_compoundAssign {note : Note} {op : BinaryOp} {target value : Expr}
    (accepted : isKept types op target.ty value.ty = true ∨
      needsCast types target.ty value = false) :
    Settled types returned (.expr (.assign note (some op) target value)) := by
  refine ⟨nofun, nofun, ?_⟩
  rintro _ _ _ _ ⟨⟩
  rcases accepted with kept | free
  · rcases isKept_iff.1 kept with shift | string | enum
    · exact .inl shift
    · exact .inr (.inl string)
    · exact .inr (.inr (.inl enum))
  · exact .inr (.inr (.inr free))

/-- What becomes of an assignment is settled. -/
theorem settled_assign {note : Note} {op : Option BinaryOp} {target value result : Expr}
    (finished : coerceAssign types note op target value = .ok result) :
    Settled types returned (.expr result) := by
  cases op with
  | none =>
    obtain rfl := Except.ok.inj finished
    exact settled_plainAssign (needsCast_coerce target.ty value)
  | some op =>
    simp only [coerceAssign] at finished
    split_ifs at finished with accepted numeric repeatable
    · obtain rfl := Except.ok.inj finished
      exact settled_compoundAssign (by simpa using accepted)
    · obtain rfl := Except.ok.inj finished
      exact settled_plainAssign (needsCast_of_ty (castTo_ty target.ty _))
    · obtain rfl := Except.ok.inj finished
      exact settled_compoundAssign (.inr (needsCast_coerce target.ty value))

/-- No enum is an integral type. -/
theorem not_integral_of_enum {ty : Ty} (isEnum : types.isEnum ty = true) :
    ¬ty.isIntegral = true := by
  intro integral
  exact (unconvertible_of_enum isEnum integral).1 rfl

/-- An operator with the casts that its operands need is settled. -/
theorem settled_binary (note : Note) (op : BinaryOp) (left right : Expr) :
    Settled types returned (.expr (.binary note op (coerceOperands types op left right).1
      (coerceOperands types op left right).2)) := by
  refine ⟨nofun, ?_, nofun⟩
  rintro _ _ _ _ ⟨⟩ comparison
  rw [coerceOperands]
  split_ifs with other leftEnum rightEnum
  · simp_all
  · have noNumber := not_integral_of_enum (Bool.and_eq_true_iff.1 leftEnum).1
    exact ⟨fun both => noNumber both.2, fun both => noNumber both.2⟩
  · have noNumber := not_integral_of_enum (Bool.and_eq_true_iff.1 rightEnum).1
    exact ⟨fun both => noNumber both.2, fun both => noNumber both.2⟩
  · exact ⟨by simpa using leftEnum, by simpa using rightEnum⟩

/-- A call with the casts that its arguments need is settled. -/
theorem settled_invoke (note : Note) (callee : Expr) (typeArgs : List Ty) (args : List Expr)
    (signature : Option Signature) :
    Settled types returned (.expr (.invoke note callee typeArgs (match signature, callee.ty with
      | some signature, _ => coerceArgs types signature args
      | none, .delegate params _ => coerceDelegateArgs types params args
      | none, _ => args) signature)) := by
  refine ⟨fun place => ?_, nofun, nofun⟩
  cases place with
  | argument passed => exact needsCast_of_passed passed
  | delegateArgument called present taken =>
    simp only [called] at present
    exact needsCast_of_delegateArg present taken

/-- An expression that is left is settled. -/
theorem settled_leave {expr result : Expr} (finished : leave types expr = .ok result) :
    Settled types returned (.expr result) := by
  cases expr
  case assign => exact settled_assign finished
  case binary note op left right =>
    obtain rfl := Except.ok.inj finished
    exact settled_binary note op left right
  case invoke note callee typeArgs args signature =>
    obtain rfl := Except.ok.inj finished
    exact settled_invoke note callee typeArgs args signature
  case construct note constructed args signature =>
    cases signature with
    | none =>
      obtain rfl := Except.ok.inj finished
      exact ⟨nofun, nofun, nofun⟩
    | some signature =>
      obtain rfl := Except.ok.inj finished
      refine ⟨fun place => ?_, nofun, nofun⟩
      cases place with
      | constructed passed => exact needsCast_of_passed passed
  case array note element items =>
    obtain rfl := Except.ok.inj finished
    refine ⟨fun place => ?_, nofun, nofun⟩
    cases place with
    | item member =>
      obtain ⟨original, -, rfl⟩ := List.mem_map.1 member
      exact needsCast_coerce element original
  all_goals
    obtain rfl := Except.ok.inj finished
    exact ⟨nofun, nofun, nofun⟩

/-- What becomes of a statement is settled. -/
theorem settled_leaveStmt (stmt : Stmt) :
    Settled types returned (.stmt (leaveStmt types returned stmt)) := by
  refine ⟨fun place => ?_, nofun, nofun⟩
  cases stmt
  case declare name declared ty init span =>
    cases init with
    | none => cases place
    | some init =>
      cases place
      exact needsCast_coerce _ init
  case ret value span =>
    cases returned with
    | none => cases place with | given known => cases known
    | some required =>
      cases value with
      | none => cases place
      | some value =>
        cases place with
        | given known =>
          cases known
          exact needsCast_coerce _ value
  all_goals cases place

/-- A constructor chain keeps its signature. -/
theorem leaveChain_signature (chain : CtorChain) :
    (leaveChain types chain).signature = chain.signature := by
  rw [leaveChain]
  split <;> rfl

/-- A constructor chain that is bound gets casts around its arguments. -/
theorem leaveChain_args {chain : CtorChain} {signature : Signature}
    (bound : chain.signature = some signature) :
    (leaveChain types chain).args = coerceArgs types signature chain.args := by
  simp only [leaveChain, bound]

/-- What becomes of a member is settled. -/
theorem settled_leaveMember (member : Member) :
    Settled types returned (.member (leaveMember types member)) := by
  refine ⟨fun place => ?_, nofun, nofun⟩
  cases member with
  | field decl =>
    cases place with
    | field present =>
      obtain ⟨original, -, rfl⟩ := Option.map_eq_some_iff.1 present
      exact needsCast_coerce decl.ty original
  | method decl => cases place
  | ctor decl =>
    cases place with
    | chained present bound passed =>
      obtain ⟨chain, -, rfl⟩ := Option.map_eq_some_iff.1 present
      rw [leaveChain_signature] at bound
      rw [leaveChain_args bound] at passed
      exact needsCast_of_passed passed

/-- A node that is left is settled. -/
theorem settled_leaveNode {node result : Node}
    (finished : Gives ((traversal types).leaveNode returned node) result) :
    Settled types returned result := by
  cases node with
  | expr root =>
    obtain ⟨final, finishedRoot, same⟩ := gives_bind.1 finished
    obtain rfl := gives_pure.1 same
    exact settled_leave finishedRoot
  | stmt root =>
    obtain rfl := gives_pure.1 finished
    exact settled_leaveStmt root
  | member root =>
    obtain rfl := gives_pure.1 finished
    exact settled_leaveMember root
  | attr root | decl root | unit root =>
    obtain rfl := gives_pure.1 finished
    exact ⟨nofun, nofun, nofun⟩

/-! ## A settled node is left as it is -/

/-- A settled expression stays as it is. -/
theorem leave_of_settled {expr : Expr} (settled : Settled types returned (.expr expr)) :
    leave types expr = .ok expr := by
  -- Every part is accepted where it stands, so no cast is put around it.
  cases expr
  case assign note op target value =>
    cases op with
    | none =>
      have accepted := settled.accepted .assigned
      simp only [leave, coerceAssign, coerce_of_accepted accepted]
    | some op =>
      have accepted :
          (isKept types op target.ty value.ty || !needsCast types target.ty value) = true := by
        rw [Bool.or_eq_true_iff, isKept_iff]
        simpa [or_assoc] using settled.compound rfl
      simp only [leave, coerceAssign, accepted, if_true]
  case binary note op left right =>
    have same : coerceOperands types op left right = (left, right) := by
      rw [coerceOperands]
      split_ifs with other leftEnum rightEnum
      · rfl
      · have compared := settled.compared rfl (by simpa using other)
        exact absurd (Bool.and_eq_true_iff.1 leftEnum) compared.1
      · have compared := settled.compared rfl (by simpa using other)
        exact absurd (Bool.and_eq_true_iff.1 rightEnum) compared.2
      · rfl
    simp only [leave, same]
    rfl
  case invoke note callee typeArgs args signature =>
    cases signature with
    | some signature =>
      have same := coerceArgs_of_accepted fun passed => settled.accepted (.argument passed)
      simp only [leave, same]
      rfl
    | none =>
      cases called : callee.ty
      case delegate params ret =>
        have same := coerceDelegateArgs_of_accepted fun present taken =>
          settled.accepted (.delegateArgument called present taken)
        simp only [leave, called, same]
        rfl
      all_goals
        simp only [leave, called]
        rfl
  case construct note constructed args signature =>
    cases signature with
    | none => rfl
    | some signature =>
      have same := coerceArgs_of_accepted fun passed => settled.accepted (.constructed passed)
      simp only [leave, same]
      rfl
  case array note element items =>
    have same : items.map (coerce types element) = items := by
      conv_rhs => rw [← List.map_id items]
      exact List.map_congr_left fun item member =>
        coerce_of_accepted (settled.accepted (.item member))
    simp only [leave, same]
    rfl
  all_goals rfl

/-- A settled statement stays as it is. -/
theorem leaveStmt_of_settled {stmt : Stmt} (settled : Settled types returned (.stmt stmt)) :
    leaveStmt types returned stmt = stmt := by
  cases stmt
  case declare name declared ty init span =>
    cases init with
    | none => rfl
    | some init =>
      have same := coerce_of_accepted (settled.accepted .initialized)
      simp only [leaveStmt, Option.map_some, same]
  case ret value span =>
    cases returned with
    | none => rfl
    | some required =>
      cases value with
      | none => rfl
      | some value =>
        have same := coerce_of_accepted (settled.accepted (.given rfl))
        simp only [leaveStmt, Option.map_some, same]
  all_goals rfl

/-- A constructor chain whose arguments are accepted stays as it is. -/
theorem leaveChain_of_accepted {chain : CtorChain}
    (accepted : ∀ {signature required arg}, chain.signature = some signature →
      PassedByValue signature chain.args required arg → needsCast types required arg = false) :
    leaveChain types chain = chain := by
  cases bound : chain.signature with
  | none => simp only [leaveChain, bound]
  | some signature =>
    have same := coerceArgs_of_accepted fun passed => accepted bound passed
    simp only [leaveChain, bound, same]
    rw [← bound]

/-- A settled member stays as it is. -/
theorem leaveMember_of_settled {member : Member}
    (settled : Settled types returned (.member member)) : leaveMember types member = member := by
  cases member with
  | field decl =>
    have same : decl.init.map (coerce types decl.ty) = decl.init := by
      cases present : decl.init with
      | none => rfl
      | some init => rw [Option.map_some, coerce_of_accepted (settled.accepted (.field present))]
    rw [leaveMember, same]
  | method decl => rfl
  | ctor decl =>
    have same : decl.chain.map (leaveChain types) = decl.chain := by
      cases present : decl.chain with
      | none => rfl
      | some chain =>
        rw [Option.map_some, leaveChain_of_accepted fun bound passed =>
          settled.accepted (.chained present bound passed)]
    rw [leaveMember, same]

/-- A settled node stays as it is. -/
theorem leaveNode_of_settled {node : Node} (settled : Settled types returned node) :
    Gives ((traversal types).leaveNode returned node) node := by
  cases node with
  | expr root => exact gives_bind.2 ⟨root, leave_of_settled settled, gives_pure.2 rfl⟩
  | stmt root => exact gives_pure.2 (congrArg Node.stmt (leaveStmt_of_settled settled).symm)
  | member root => exact gives_pure.2 (congrArg Node.member (leaveMember_of_settled settled).symm)
  | attr root | decl root | unit root => exact gives_pure.2 rfl

/-! ## Everywhere -/

/-- Every node of the tree is settled, in the scope that it stands in. -/
abbrev SettledEverywhere (types : TypeTable) : Option Ty → Node → Prop :=
  Node.Everywhere returnScope (Settled types)

/-- A cast settles nothing and unsettles nothing. -/
theorem settledEverywhere_cast {note : Note} {operand : Expr} {target : Ty} {synthesized : Bool}
    (inside : SettledEverywhere types returned (.expr operand)) :
    SettledEverywhere types returned (.expr (.cast note operand target synthesized)) := by
  refine .node ⟨nofun, nofun, nofun⟩ fun child member => ?_
  obtain rfl := List.mem_singleton.1 member
  exact inside

/-- A cast around a settled node leaves everything in it settled. -/
theorem SettledEverywhere.casted {node replacement : Node}
    (settled : SettledEverywhere types returned node) (casted : Casted types node replacement) :
    SettledEverywhere types returned replacement := by
  cases casted with
  | unchanged => exact settled
  | cast _ => exact settledEverywhere_cast settled

/-- No numeric type is an enum. -/
theorem isEnum_of_numeric {ty : Ty} (numeric : ty.isNumeric = true) : types.isEnum ty = false := by
  obtain ⟨basic, rfl⟩ := Ty.exists_primitive_of_numeric numeric
  rfl

/-- The operation that takes the place of a compound assignment works on numbers. -/
theorem settledEverywhere_operation {op : BinaryOp} {target value : Expr}
    (targetNumeric : target.ty.isNumeric = true) (valueNumeric : value.ty.isNumeric = true)
    (targetSettled : SettledEverywhere types returned (.expr target))
    (valueSettled : SettledEverywhere types returned (.expr value)) :
    SettledEverywhere types returned (.expr (operation op target value)) := by
  refine .node ⟨nofun, ?_, nofun⟩ fun child member => ?_
  · rintro _ _ _ _ ⟨⟩ -
    simp [isEnum_of_numeric targetNumeric, isEnum_of_numeric valueNumeric]
  · rcases List.mem_pair.1 member with rfl | rfl
    · exact targetSettled
    · exact valueSettled

/-- The walk settles everything. -/
theorem settled_walk (node : Node) {result : Node}
    (walked : Gives ((traversal types).node returned node) result) :
    SettledEverywhere types returned result := by
  induction node using Node.induct generalizing returned result with
  | step node inductionHypothesis =>
    obtain ⟨rebuilt, matched, left⟩ := walk_matches walked
    have inside : ∀ child ∈ rebuilt.children,
        SettledEverywhere types (returnScope returned node) child := by
      intro child member
      obtain ⟨slot, origin, originOf, walkedChild⟩ := matched.exists_source member
      exact inductionHypothesis origin originOf walkedChild
    refine .node (settled_leaveNode left) ?_
    rcases leaveNode_cases left with ⟨-, casts⟩ | ⟨note, op, target, value, rfl, expanded, rfl⟩
    · intro child member
      obtain ⟨slot, origin, originOf, casted⟩ := casts.exists_source member
      rw [← returnScope_congr (matched.shell.trans casts.shell)]
      exact (inside origin originOf).casted casted
    · obtain ⟨-, -, targetNumeric, valueNumeric⟩ := expands_iff.1 expanded
      -- An assignment opens no scope of its own.
      rw [returnScope_congr matched.shell] at inside
      have targetSettled := inside (.expr target) List.mem_cons_self
      have valueSettled := inside (.expr value) (List.mem_cons_of_mem _ List.mem_cons_self)
      intro child member
      rcases List.mem_pair.1 member with rfl | rfl
      · exact targetSettled
      · exact settledEverywhere_cast
          (settledEverywhere_operation targetNumeric valueNumeric targetSettled valueSettled)

/-- What is settled everywhere is left as it is by another walk. -/
theorem walk_of_settled (node : Node) (settled : SettledEverywhere types returned node) :
    Gives ((traversal types).node returned node) node := by
  induction node using Node.induct generalizing returned with
  | step node inductionHypothesis =>
    refine walk_keeps (fun child member => ?_) (leaveNode_of_settled settled.here)
    exact inductionHypothesis child member (settled.inside member)

/-- Putting casts into a unit is the walk of it. -/
theorem walk_unit {unit result : SourceUnit} :
    Gives ((traversal types).node none (.unit unit)) (.unit result) ↔
      Coercion.unit types unit = .ok result := by
  simp only [DeclTraversal.node, gives_bind, gives_pure, Node.unit.injEq, exists_eq_right']
  rfl

/-! ## A script with casts at most of these places -/

namespace Mover

/-- A table whose first type is an enum. -/
def table : TypeTable := .ofTypes [⟨"Mode", none, .enumType, none, [], []⟩]

/-- A local variable of type `int`. -/
def steps : Expr := .localRef "steps" .int

/-- A local variable of type `double`. -/
def factor : Expr := .localRef "factor" .double

/-- A local variable of the enum. -/
def mode : Expr := .localRef "mode" (.named 0)

/-- The body of a method that gives an `int`: a step, a function literal that gives a `float`, and
a comparison of the enum with a number. -/
def body (cast : Ty → Expr → Expr) (step : Expr) : List Stmt :=
  [.expr step,
   .declare (.plain "scale") none (.delegate [] .float)
     (some (.lambda (Expr.noteOf (.delegate [] .float)) [] none
       (.block [.ret (some (cast .float factor)) .unknown]))) .unknown,
   .branch (.binary (Expr.noteOf .bool) .eq mode (cast (.named 0) steps))
     [.ret (some (cast .int factor)) .unknown] none]

/-- A class with a field of type `float`, the method and a constructor that hands an `int` on. The
places that require a type are filled by `cast`. -/
def script (cast : Ty → Expr → Expr) (step : Expr) : SourceUnit where
  fileName := "Mover.js"
  imports := []
  implicitImports := []
  decls := [{
    id := 1, name := .plain "Mover", kind := .classType, modifiers := .none, attrs := []
    base := none, interfaces := []
    members := [
      .field ⟨.plain "speed", .float, some (cast .float factor), .none, [], .unknown⟩,
      .method ⟨.plain "Move", [], .int, some (body cast step), .none, [], .unknown⟩,
      .ctor ⟨[], some ⟨.base, [cast .int factor], some ⟨[⟨"start", .int, .none⟩], .void⟩⟩, [],
        .none, .unknown⟩]
    enumMembers := [], isScript := true, span := .unknown }]
  globals := []
  sourceText := none

/-- The script as it is written, with `steps *= factor` as its step. -/
def source : SourceUnit :=
  script (fun _ expr => expr) (.assign (Expr.noteOf .int) (some .mul) steps factor)

/-- The script with its casts. -/
def result : SourceUnit :=
  script Expr.castTo (writtenOut (Expr.noteOf .int) .mul steps factor)

end Mover

/-! ## Units -/

/-- When casts have been put into a unit, every place of the result that requires a type holds an
expression that is accepted there, no enum is compared with a whole number, and every compound
assignment that is left is accepted as it is. -/
theorem unit_settled {unit result : SourceUnit} (finished : Coercion.unit types unit = .ok result) :
    Node.Everywhere returnScope (Settled types) none (.unit result) :=
  settled_walk (.unit unit) (walk_unit.2 finished)

/-- The script gets its casts, and is settled then. -/
theorem unit_settled_mover : Coercion.unit Mover.table Mover.source = .ok Mover.result ∧
    Node.Everywhere returnScope (Settled Mover.table) none (.unit Mover.result) := by
  have finished : Coercion.unit Mover.table Mover.source = .ok Mover.result := rfl
  exact ⟨finished, unit_settled finished⟩

/-- Putting casts into a unit a second time succeeds and changes nothing. -/
theorem unit_idempotent {unit result : SourceUnit}
    (finished : Coercion.unit types unit = .ok result) :
    Coercion.unit types result = .ok result :=
  walk_unit.1 (walk_of_settled (.unit result) (settled_walk (.unit unit) (walk_unit.2 finished)))

/-- The script with its casts stays as it is. -/
theorem unit_idempotent_mover : Coercion.unit Mover.table Mover.source = .ok Mover.result ∧
    Coercion.unit Mover.table Mover.result = .ok Mover.result := by
  have finished : Coercion.unit Mover.table Mover.source = .ok Mover.result := rfl
  exact ⟨finished, unit_idempotent finished⟩

end ScriptSharp.Lowering.Coercion
