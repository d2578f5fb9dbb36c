import ScriptSharp.Source.Fault
import ScriptSharp.Tree.Traversal

/-!
# Assignments through properties of value types

`root.p.q.f = v` changes a copy when `p` or `q` is a property that gives a struct. The statement is
taken apart into a block that reads each property once, changes the innermost copy, and writes the
copies back in the reverse order:

    { int _1 = v; P _2 = root.p; Q _3 = _2.q; _3.f = _1; _2.q = _3; root.p = _2; }
-/

namespace ScriptSharp.Lowering.ValueChain

/-- One member access of the run of value types in front of an assigned member. -/
structure Segment where
  name : Ident
  binding : MemberBinding
  note : Note
  deriving DecidableEq

/-- The access gives a copy. -/
def Segment.isProperty (segment : Segment) : Bool :=
  segment.binding.kind == .property

/-- The root of a receiver and the run of value-typed accesses that leads from it to the receiver,
in the order of evaluation. -/
def run (types : TypeTable) : Expr → Expr × List Segment
  | .paren _ inner => run types inner
  | .member note target name binding =>
    if types.isValueType note.ty then
      ((run types target).1, (run types target).2 ++ [⟨name, binding, note⟩])
    else (.member note target name binding, [])
  | root => (root, [])

/-- The root and the run of a receiver, when some access of the run gives a copy. -/
def splitChain? (types : TypeTable) (receiver : Expr) : Option (Expr × List Segment) :=
  if (run types receiver).2.any Segment.isProperty then some (run types receiver) else none

/-- The member that is assigned, with its receiver. -/
def memberTarget? (target : Expr) : Option (Note × Expr × Ident × MemberBinding) :=
  match target.stripParens with
  | .member note receiver name binding => some (note, receiver, name, binding)
  | _ => none

/-- The target is reached through a copy. -/
def isChained (types : TypeTable) (target : Expr) : Bool :=
  match memberTarget? target with
  | some (_, receiver, _, _) => (splitChain? types receiver).isSome
  | none => false

/-! ## The block -/

/-- The name of the temporary with a number. -/
def temporaryName (number : Nat) : String := "_" ++ toString number

/-- The declaration of a temporary. -/
def declareTemporary (number : Nat) (ty : Ty) (init : Expr) : Stmt :=
  .declare (.plain (temporaryName number)) none ty (some init) .unknown

/-- The pieces of the block for the rest of a run. -/
structure Steps where
  /-- The declarations that read properties, the outermost first. -/
  reads : List Stmt
  /-- The receiver of the assigned member. -/
  receiver : Expr
  /-- The assignments that write copies back, the innermost first. -/
  writes : List Stmt

/-- Reads and writes the properties of a run, where `number` is the number of the next temporary
and `receiver` is what the run starts from. -/
def steps (number : Nat) (receiver : Expr) : List Segment → Steps
  | [] => ⟨[], receiver, []⟩
  | segment :: rest =>
    let access := .member segment.note receiver segment.name segment.binding
    if segment.isProperty then
      let copy := Expr.localRef (temporaryName number) segment.note.ty
      let inner := steps (number + 1) copy rest
      ⟨declareTemporary number segment.note.ty access :: inner.reads, inner.receiver,
        inner.writes ++ [.expr (access.assignTo copy)]⟩
    else steps number access rest

/-- A root that is a value is a place only when it is a variable, an element or a static member's
type. -/
def isPlace : Expr → Bool
  | .ident .. => true
  | .index .. => true
  | .typeRef .. => true
  | _ => false

/-- The block for a change of a target that is reached through copies. `change` makes the changing
expression from the new target, and from the temporary that holds the value. A change without a
value has none. -/
def block (types : TypeTable) (target : Expr) (value : Option Expr)
    (change : Expr → Expr → Expr) : Except Fault Stmt :=
  match memberTarget? target with
  | none => .ok (.expr target)
  | some (note, receiver, name, binding) =>
    let (root, segments) := run types receiver
    if types.isValueType root.ty && !isPlace root then .error (.temporaryRoot target.span)
    else
      let (values, first) := match value with
        | some value => ([declareTemporary 1 note.ty value], 2)
        | none => ([], 1)
      let inner := steps first root segments
      let assigned := .member ⟨note.ty, target.span⟩ inner.receiver name binding
      let temporary := Expr.localRef (temporaryName 1) note.ty
      .ok (.block (values ++ inner.reads ++ [.expr (change assigned temporary)] ++ inner.writes))

/-! ## The walk -/

/-- How an expression is used. -/
inductive Usage where
  /-- It is a statement of its own. -/
  | statement
  /-- Its value is used. -/
  | value
  /-- It is the target of a change that becomes a block, and stays as it is. -/
  | target
  deriving DecidableEq, Repr

/-- Changes that become blocks keep their target. Such a change must not be used for its value. -/
def enter (types : TypeTable) (usage : Usage) (expr : Expr) :
    Except Fault (Option (Descent Usage)) :=
  match usage, expr with
  | .target, _ => .ok none
  | .statement, .assign _ _ target _ =>
    if isChained types target then .ok (some ⟨.target, .value⟩) else .ok (some ⟨.value, .value⟩)
  | .value, .assign note _ target _ =>
    if isChained types target then .error (.chainUsedAsValue note.span)
    else .ok (some ⟨.value, .value⟩)
  | .statement, .unary _ op operand =>
    if op.isStep && isChained types operand then .ok none else .ok (some ⟨.value, .value⟩)
  | _, _ => .ok (some ⟨.value, .value⟩)

/-- A statement that changes something through copies becomes a block. -/
def leaveStmt (types : TypeTable) : Stmt → Except Fault Stmt
  | .expr (.assign note op target value) =>
    if isChained types target then
      block types target (some value) fun assigned temporary =>
        .assign ⟨assigned.ty, note.span⟩ op assigned temporary
    else .ok (.expr (.assign note op target value))
  | .expr (.unary note op operand) =>
    if op.isStep && isChained types operand then
      block types operand none fun assigned _ => .unary ⟨assigned.ty, note.span⟩ op assigned
    else .ok (.expr (.unary note op operand))
  | stmt => .ok stmt

/-- The walk that takes changes through copies apart. -/
def traversal (types : TypeTable) : DeclTraversal (Except Fault) Usage :=
  .ofTraversal
    { enter := enter types
      leave := fun _ expr => .ok expr
      enterStmt := fun _ stmt =>
        match stmt with
        | .expr _ => .statement
        | _ => .value
      leaveStmt := fun _ stmt => leaveStmt types stmt }

/-- Takes the changes through copies of a unit apart. -/
def unit (types : TypeTable) (unit : SourceUnit) : Except Fault SourceUnit :=
  (traversal types).unit .value unit

end ScriptSharp.Lowering.ValueChain
