import ScriptSharp.Proofs.Tree.Names
import ScriptSharp.Proofs.ValueChain.Blocks
import ScriptSharp.Proofs.ValueChain.Memory

/-!
# Running changes of members

A machine that runs the statements of a block. Records are copied when they are read. A property
gives a copy and takes a value, and both are written down; a field is used in place. What the
machine leaves open, a `Language` says: which storage an expression denotes, and how all other
expressions are evaluated.
-/

namespace ScriptSharp.Lowering.ValueChain

open Node (Avoids)

/-- A member, as an access names it. -/
structure Accessor where
  name : Ident
  binding : MemberBinding

/-- The member gives a copy. -/
def Accessor.isProperty (accessor : Accessor) : Bool :=
  accessor.binding.kind == .property

/-- The member that a segment reads. -/
def Segment.accessor (segment : Segment) : Accessor := ⟨segment.name, segment.binding⟩

/-- What a program does to members. -/
inductive Event where
  /-- A property gives a copy. -/
  | read (property : Accessor)
  /-- A property takes a value. -/
  | write (property : Accessor)
  /-- A field is changed in place. -/
  | store (field : Accessor)

/-- The events of a change. A property is read before it is written when the new value depends on
the old one. -/
def Accessor.changeEvents (accessor : Accessor) (dependent : Bool) : List Event :=
  if accessor.isProperty then (if dependent then [.read accessor] else []) ++ [.write accessor]
  else [.store accessor]

/-- The memory, and what has happened. -/
structure Machine (Cell Data : Type) where
  memory : Memory Cell Data
  log : List Event

/-- The rest of a language. -/
structure Language (Cell Data : Type) where
  /-- The storage that an expression without side effects denotes: the object that it refers to,
  the static members of the type that it names, the variable or the element that it is. -/
  locate : Expr → Memory Cell Data → Option (Base Cell)
  /-- Evaluates an expression. -/
  evaluate : Expr → Machine Cell Data → Option (Value Data × Machine Cell Data)
  /-- The value of a binary operation. -/
  combine : BinaryOp → Value Data → Value Data → Value Data
  /-- The value after a step up or down. -/
  step : UnaryOp → Value Data → Value Data
  /-- Storage does not depend on variables that the expression does not mention. -/
  locate_push {expr : Expr} {name : String} (value : Value Data) (memory : Memory Cell Data) :
    Avoids name (.expr expr) → locate expr (memory.push [(name, value)]) = locate expr memory
  /-- An expression denotes no variable that it does not mention. -/
  locate_named {expr : Expr} {memory : Memory Cell Data} {name : String} :
    locate expr memory = some (.named name) → ¬ Avoids name (.expr expr)

section Running

variable {Cell Data : Type} (types : TypeTable) (language : Language Cell Data)

/-- The place that an expression denotes. A variable of a value type is its own storage, and a
field of a value type lies in the place of its record. -/
def place (memory : Memory Cell Data) : Expr → Option (Place Cell)
  | .paren _ inner => place memory inner
  | .member note target name binding =>
    if types.isValueType note.ty && binding.kind != .property then
      (place memory target).map (·.below [name.name])
    else (language.locate (.member note target name binding) memory).map (⟨·, []⟩)
  | .ident note name .localVariable =>
    if types.isValueType note.ty then some ⟨.named name.name, []⟩
    else (language.locate (.ident note name .localVariable) memory).map (⟨·, []⟩)
  | other => (language.locate other memory).map (⟨·, []⟩)

/-- Evaluates an expression: a variable is read, a member of a place is read there, and all else
is up to the language. -/
def eval (expr : Expr) (machine : Machine Cell Data) : Option (Value Data × Machine Cell Data) :=
  match expr with
  | .ident _ name .localVariable =>
    (machine.memory.locals.lookup name.name).map fun value => (value, machine)
  | .member note target name binding =>
    match place types language machine.memory target with
    | some origin =>
      (machine.memory.get? (origin.below [name.name])).map fun value =>
        (value, { machine with
          log := machine.log ++ if binding.kind == .property then [.read ⟨name, binding⟩] else [] })
    | none => language.evaluate (.member note target name binding) machine
  | other => language.evaluate other machine

variable [DecidableEq Cell]

/-- Changes the member at a place. -/
def Machine.change (machine : Machine Cell Data) (place : Place Cell) (accessor : Accessor)
    (dependent : Bool) (update : Value Data → Value Data) : Option (Machine Cell Data) := do
  let old ← machine.memory.get? place
  let memory ← machine.memory.put? place (update old)
  return ⟨memory, machine.log ++ accessor.changeEvents dependent⟩

/-- The new value of a target that is assigned to, with an operator or without one. -/
def Language.combined (language : Language Cell Data) (op : Option BinaryOp)
    (operand old : Value Data) : Value Data :=
  match op with
  | none => operand
  | some op => language.combine op old operand

/-- Runs an expression that changes a member. Nothing else is run here. -/
def execExpr (expr : Expr) (machine : Machine Cell Data) : Option (Machine Cell Data) :=
  match expr with
  | .assign _ op target value => do
    let (_, receiver, name, binding) ← memberTarget? target
    let (operand, machine) ← eval types language value machine
    let origin ← place types language machine.memory receiver
    machine.change (origin.below [name.name]) ⟨name, binding⟩ op.isSome
      (language.combined op operand)
  | .unary _ op target =>
    if op.isStep then do
      let (_, receiver, name, binding) ← memberTarget? target
      let origin ← place types language machine.memory receiver
      machine.change (origin.below [name.name]) ⟨name, binding⟩ true (language.step op)
    else none
  | _ => none

/-- The variables that statements declare. -/
def declaredNames (stmts : List Stmt) : List String :=
  stmts.filterMap fun
    | .declare name _ _ _ _ => some name.name
    | _ => none

mutual
/-- Runs a statement. The variables of a block are gone at its end. -/
def exec : Stmt → Machine Cell Data → Option (Machine Cell Data)
  | .declare name _ _ (some init) _, machine => do
    let (value, machine) ← eval types language init machine
    return { machine with memory := machine.memory.push [(name.name, value)] }
  | .expr value, machine => execExpr types language value machine
  | .block body, machine => do
    let machine ← execAll body machine
    return { machine with memory := machine.memory.pop (declaredNames body).length }
  | _, _ => none
termination_by structural stmt => stmt

/-- Runs statements one after the other. -/
def execAll : List Stmt → Machine Cell Data → Option (Machine Cell Data)
  | [], machine => some machine
  | first :: rest, machine => do
    let machine ← exec first machine
    execAll rest machine
termination_by structural stmts => stmts
end

end Running

section Places

variable {Cell Data : Type} {types : TypeTable} {language : Language Cell Data}
  {memory : Memory Cell Data} {expr : Expr} {name : String}

/-- Where the language decides on a place, the place is some storage as a whole. -/
theorem place_eq_locate (located : place types language memory expr =
      (language.locate expr memory).map (⟨·, []⟩)) {origin : Place Cell}
    (denotes : place types language memory expr = some origin) :
    language.locate expr memory = some origin.base := by
  obtain ⟨base, found, rfl⟩ := Option.map_eq_some_iff.1 (located.symm.trans denotes)
  exact found

/-- A variable that an expression does not mention makes no difference for its place. -/
theorem place_push_single (value : Value Data) (avoids : Avoids name (.expr expr)) :
    place types language (memory.push [(name, value)]) expr = place types language memory expr := by
  induction expr using place.induct types with
  | case1 note inner inductionHypothesis =>
    exact inductionHypothesis (avoids.child List.mem_cons_self)
  | case2 note target ident binding inPlace inductionHypothesis =>
    simp only [place, inPlace, if_true, inductionHypothesis (Node.avoids_member.1 avoids).2]
  | case3 note target ident binding notInPlace =>
    simp [place, notInPlace, language.locate_push value memory avoids]
  | case4 note ident copied => simp [place, copied]
  | case5 note ident shared => simp [place, shared, language.locate_push value memory avoids]
  | case6 other noParen noMember noLocal =>
    simp [place, language.locate_push value memory avoids]

/-- An expression denotes no place in a variable that it does not mention. -/
theorem base_ne_named {origin : Place Cell} (avoids : Avoids name (.expr expr))
    (denotes : place types language memory expr = some origin) : origin.base ≠ .named name := by
  induction expr using place.induct types generalizing origin with
  | case1 note inner inductionHypothesis =>
    exact inductionHypothesis (avoids.child List.mem_cons_self) denotes
  | case2 note target ident binding inPlace inductionHypothesis =>
    simp only [place, inPlace, if_true] at denotes
    obtain ⟨before, found, rfl⟩ := Option.map_eq_some_iff.1 denotes
    rw [Place.base_below]
    exact inductionHypothesis (Node.avoids_member.1 avoids).2 found
  | case3 note target ident binding notInPlace =>
    intro same
    have located := place_eq_locate (by simp [place, notInPlace]) denotes
    exact language.locate_named (same ▸ located) avoids
  | case4 note ident copied =>
    simp only [place, copied, if_true, Option.some.injEq] at denotes
    subst denotes
    have differ : ident.name ≠ name := avoids.ident List.mem_cons_self
    exact fun same => differ (Base.named.inj same)
  | case5 note ident shared =>
    intro same
    have located := place_eq_locate (by simp [place, shared]) denotes
    exact language.locate_named (same ▸ located) avoids
  | case6 other noParen noMember noLocal =>
    intro same
    have located := place_eq_locate (by simp [place]) denotes
    exact language.locate_named (same ▸ located) avoids

/-- An expression that avoids the new names denotes the same place behind them. -/
theorem place_push {entries : List (String × Value Data)}
    (avoids : ∀ entry ∈ entries, Avoids entry.1 (.expr expr)) :
    place types language (memory.push entries) expr = place types language memory expr := by
  induction entries with
  | nil => rfl
  | cons first rest inductionHypothesis =>
    obtain ⟨here, later⟩ := List.forall_mem_cons.1 avoids
    calc place types language (memory.push (first :: rest)) expr
      _ = place types language ((memory.push rest).push [first]) expr := by simp
      _ = place types language (memory.push rest) expr := place_push_single first.2 here
      _ = place types language memory expr := inductionHypothesis later

end Places

end ScriptSharp.Lowering.ValueChain
