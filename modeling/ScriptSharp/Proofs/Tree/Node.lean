import Mathlib.Data.List.Forall2
import ScriptSharp.Tree.Decl

/-!
# Nodes and their parts

Statements about a whole unit range over expressions, statements, attributes, members and
declarations alike. `Node` puts them into one type. A node is its `shell`, which is the node with
placeholders for all parts, together with the list of those parts in the order of the source.
Whatever holds of the parts of a node and then of the node itself holds of every node, by
`Node.induct`.
-/

namespace ScriptSharp

/-- A node of the tree of a unit. -/
inductive Node where
  | expr (expr : Expr)
  | stmt (stmt : Stmt)
  | attr (attr : Attribute)
  | member (member : Member)
  | decl (decl : TypeDecl)
  | unit (unit : SourceUnit)

/-- How a part hangs below its node. -/
inductive Slot where
  /-- The target of an assignment. -/
  | target
  /-- Every other expression. -/
  | value
  /-- A statement, an attribute, a member or a declaration. -/
  | nested

/-- A part of a node, with the way it hangs there. -/
abbrev Part := Slot × Node

namespace Part

/-- The target of an assignment as a part. -/
def target (expr : Expr) : Part := (.target, .expr expr)

/-- Any other expression as a part. -/
def value (expr : Expr) : Part := (.value, .expr expr)

/-- Key and value of an entry of a map as parts. -/
def entry (entry : Expr × Expr) : List Part := [value entry.1, value entry.2]

/-- A statement as a part. -/
def stmt (stmt : Stmt) : Part := (.nested, .stmt stmt)

/-- An attribute as a part. -/
def attr (attr : Attribute) : Part := (.nested, .attr attr)

/-- A member as a part. -/
def member (member : Member) : Part := (.nested, .member member)

/-- A declaration as a part. -/
def decl (decl : TypeDecl) : Part := (.nested, .decl decl)

end Part

/-! ## Parts -/

/-- The parts of the body of a function literal. -/
def LambdaBody.parts : LambdaBody → List Part
  | .expr value => [.value value]
  | .block body => body.map .stmt

/-- The parts of an expression. -/
def Expr.parts : Expr → List Part
  | .literal .. | .ident .. | .selfRef .. | .superRef .. | .typeRef .. | .typeOf ..
  | .defaultOf .. => []
  | .member _ target _ _ => [.value target]
  | .invoke _ callee _ args _ => .value callee :: args.map .value
  | .index _ target indices => .value target :: indices.map .value
  | .binary _ _ left right => [.value left, .value right]
  | .unary _ _ operand => [.value operand]
  | .ternary _ condition thenValue elseValue =>
    [.value condition, .value thenValue, .value elseValue]
  | .cast _ operand _ _ => [.value operand]
  | .tryCast _ operand _ => [.value operand]
  | .construct _ _ args _ => args.map .value
  | .newArray _ _ size => [.value size]
  | .lambda _ _ _ body => body.parts
  | .array _ _ items => items.map .value
  | .map _ entries => entries.flatMap Part.entry
  | .assign _ _ target value => [.target target, .value value]
  | .paren _ inner => [.value inner]

/-- The parts of a statement. -/
def Stmt.parts : Stmt → List Part
  | .expr value => [.value value]
  | .declare _ _ _ init _ => init.toList.map .value
  | .branch condition thenBody elseBody =>
    .value condition :: (thenBody.map .stmt ++ (elseBody.getD []).map .stmt)
  | .whileLoop condition body => .value condition :: body.map .stmt
  | .forLoop init condition step body =>
    init.map .stmt ++ (condition.toList.map .value ++ (step.map .value ++ body.map .stmt))
  | .forEach _ _ source body => .value source :: body.map .stmt
  | .ret value _ => value.toList.map .value
  | .throw value => [.value value]
  | .breakLoop | .continueLoop => []
  | .block body => body.map .stmt

/-- The arguments that a constructor hands on. -/
def CtorDecl.chainArgs (ctor : CtorDecl) : List Expr :=
  (ctor.chain.map (·.args)).getD []

/-- The parts of a member. -/
def Member.parts : Member → List Part
  | .field decl => decl.attrs.map .attr ++ decl.init.toList.map .value
  | .method decl => decl.attrs.map .attr ++ (decl.body.getD []).map .stmt
  | .ctor decl => decl.chainArgs.map .value ++ decl.body.map .stmt

namespace Node

/-- The parts of a node, from left to right. -/
def parts : Node → List Part
  | .expr root => root.parts
  | .stmt root => root.parts
  | .attr root => root.args.map fun arg => .value arg.value
  | .member root => root.parts
  | .decl root => root.attrs.map .attr ++ root.members.map .member
  | .unit root => root.decls.map .decl ++ root.globals.map .stmt

/-- The nodes right below a node. -/
def children (node : Node) : List Node :=
  node.parts.map (·.2)

/-- What is a part of a node is a child of it. -/
theorem mem_children_of_part {node child : Node} {slot : Slot}
    (member : (slot, child) ∈ node.parts) : child ∈ node.children :=
  List.mem_map_of_mem member

end Node

/-! ## Shells -/

/-- Stands for an expression that is left open. -/
def Expr.hole : Expr := .selfRef default

/-- The body of a function literal with all parts left open. -/
def LambdaBody.shell : LambdaBody → LambdaBody
  | .expr _ => .expr .hole
  | .block body => .block (body.map fun _ => .breakLoop)

namespace Expr

/-- The expression with all parts left open. -/
def shell : Expr → Expr
  | .member note _ name binding => .member note hole name binding
  | .invoke note _ typeArgs args signature =>
    .invoke note hole typeArgs (args.map fun _ => hole) signature
  | .index note _ indices => .index note hole (indices.map fun _ => hole)
  | .binary note op _ _ => .binary note op hole hole
  | .unary note op _ => .unary note op hole
  | .ternary note _ _ _ => .ternary note hole hole hole
  | .cast note _ target synthesized => .cast note hole target synthesized
  | .tryCast note _ target => .tryCast note hole target
  | .construct note constructed args signature =>
    .construct note constructed (args.map fun _ => hole) signature
  | .newArray note element _ => .newArray note element hole
  | .lambda note params ret body => .lambda note params ret body.shell
  | .array note element items => .array note element (items.map fun _ => hole)
  | .map note entries => .map note (entries.map fun _ => (hole, hole))
  | .assign note op _ _ => .assign note op hole hole
  | .paren note _ => .paren note hole
  | leaf => leaf

end Expr

/-- The statement with all parts left open. -/
def Stmt.shell : Stmt → Stmt
  | .expr _ => .expr .hole
  | .declare name declared ty init span => .declare name declared ty (init.map fun _ => .hole) span
  | .branch _ thenBody elseBody =>
    .branch .hole (thenBody.map fun _ => .breakLoop) (elseBody.map (·.map fun _ => .breakLoop))
  | .whileLoop _ body => .whileLoop .hole (body.map fun _ => .breakLoop)
  | .forLoop init condition step body =>
    .forLoop (init.map fun _ => .breakLoop) (condition.map fun _ => .hole)
      (step.map fun _ => .hole) (body.map fun _ => .breakLoop)
  | .forEach item itemTy _ body => .forEach item itemTy .hole (body.map fun _ => .breakLoop)
  | .ret value span => .ret (value.map fun _ => .hole) span
  | .throw _ => .throw .hole
  | .block body => .block (body.map fun _ => .breakLoop)
  | leaf => leaf

/-- Stands for an attribute that is left open. -/
def Attribute.hole : Attribute := ⟨.void, [], .unknown⟩

/-- The attribute with all parts left open. -/
def Attribute.shell (attr : Attribute) : Attribute :=
  { attr with args := attr.args.map ({ · with value := .hole }) }

/-- The member with all parts left open. -/
def Member.shell : Member → Member
  | .field decl =>
    .field { decl with
      attrs := decl.attrs.map fun _ => .hole
      init := decl.init.map fun _ => .hole }
  | .method decl =>
    .method { decl with
      attrs := decl.attrs.map fun _ => .hole
      body := decl.body.map (·.map fun _ => .breakLoop) }
  | .ctor decl =>
    .ctor { decl with
      chain := decl.chain.map fun chain => { chain with args := chain.args.map fun _ => .hole }
      body := decl.body.map fun _ => .breakLoop }

/-- The declaration with all parts left open. The number of its members is the number of parts
that are not attributes. -/
def TypeDecl.shell (decl : TypeDecl) : TypeDecl :=
  { decl with attrs := decl.attrs.map fun _ => .hole, members := [] }

/-- The unit with all parts left open. The number of its declarations is the number of parts that
are not statements. -/
def SourceUnit.shell (unit : SourceUnit) : SourceUnit :=
  { unit with decls := [], globals := unit.globals.map fun _ => .breakLoop }

/-- The node with all parts left open. -/
def Node.shell : Node → Node
  | .expr root => .expr root.shell
  | .stmt root => .stmt root.shell
  | .attr root => .attr root.shell
  | .member root => .member root.shell
  | .decl root => .decl root.shell
  | .unit root => .unit root.shell

/-! ## A node is its shell and its parts -/

namespace Part

theorem value_injective : Function.Injective value := fun _ _ equal => by
  simpa [value] using equal

theorem stmt_injective : Function.Injective stmt := fun _ _ equal => by
  simpa [stmt] using equal

theorem attr_injective : Function.Injective attr := fun _ _ equal => by
  simpa [attr] using equal

theorem member_injective : Function.Injective member := fun _ _ equal => by
  simpa [member] using equal

theorem decl_injective : Function.Injective decl := fun _ _ equal => by
  simpa [decl] using equal

end Part

/-- Entries can be told from their parts. -/
theorem Part.entries_injective {left right : List (Expr × Expr)}
    (parts : left.flatMap entry = right.flatMap entry) : left = right := by
  induction left generalizing right with
  | nil => cases right <;> simp_all [entry]
  | cons first rest inductionHypothesis =>
    cases right with
    | nil => simp [entry] at parts
    | cons other others =>
      simp only [List.flatMap_cons, entry, List.cons_append, List.nil_append,
        List.cons.injEq] at parts
      obtain ⟨sameKey, sameValue, sameRest⟩ := parts
      have sameEntry : first = other :=
        Prod.ext (value_injective sameKey) (value_injective sameValue)
      rw [sameEntry, inductionHypothesis sameRest]

/-- The body of a lambda can be told from its shell and its parts. -/
theorem LambdaBody.eq_of_shell_of_parts {left right : LambdaBody}
    (shell : left.shell = right.shell) (parts : left.parts = right.parts) : left = right := by
  cases left <;> cases right <;> simp only [LambdaBody.shell, reduceCtorEq] at shell
  case expr.expr => simpa [LambdaBody.parts, Part.value] using parts
  case block.block => simpa [LambdaBody.parts, Part.stmt_injective.list_map.eq_iff] using parts

/-- An expression can be told from its shell and its parts. -/
theorem Expr.eq_of_shell_of_parts {left right : Expr} (shell : left.shell = right.shell)
    (parts : left.parts = right.parts) : left = right := by
  cases left <;> cases right <;> simp only [Expr.shell, reduceCtorEq] at shell
  case map.map =>
    simp only [Expr.map.injEq] at shell ⊢
    exact ⟨shell.1, Part.entries_injective parts⟩
  case lambda.lambda =>
    simp only [Expr.lambda.injEq] at shell ⊢
    exact ⟨shell.1, shell.2.1, shell.2.2.1, LambdaBody.eq_of_shell_of_parts shell.2.2.2 parts⟩
  all_goals
    simp_all [Expr.parts, Part.value, Part.target, Part.value_injective.list_map.eq_iff]

/-! A list of parts is made of several pieces. Pieces of the same length are found again in it. -/

section Pieces

variable {α β : Type} {part : α → Part}

/-- Where the length of a list is known, its parts can be told from those behind it. -/
theorem Part.split_list (injective : Function.Injective part) {hole : β} {left right : List α}
    {leftRest rightRest : List Part}
    (holes : left.map (fun _ => hole) = right.map (fun _ => hole))
    (parts : left.map part ++ leftRest = right.map part ++ rightRest) :
    left = right ∧ leftRest = rightRest := by
  have sameLength : left.length = right.length := by simpa using congrArg List.length holes
  obtain ⟨same, sameRest⟩ := List.append_inj parts (by simpa using sameLength)
  exact ⟨injective.list_map same, sameRest⟩

/-- Where it is known whether a value is present, its part can be told from those behind it. -/
theorem Part.split_option (injective : Function.Injective part) {hole : β} {left right : Option α}
    {leftRest rightRest : List Part}
    (holes : left.map (fun _ => hole) = right.map (fun _ => hole))
    (parts : left.toList.map part ++ leftRest = right.toList.map part ++ rightRest) :
    left = right ∧ leftRest = rightRest := by
  cases left <;> cases right <;> simp_all [injective.eq_iff]

/-- The same from the right, for a last piece that has placeholders of the same number. -/
theorem Part.split_last (injective : Function.Injective part) {hole : β} {left right : List α}
    {leftFirst rightFirst : List Part}
    (holes : left.map (fun _ => hole) = right.map (fun _ => hole))
    (parts : leftFirst ++ left.map part = rightFirst ++ right.map part) :
    leftFirst = rightFirst ∧ left = right := by
  have sameLength : left.length = right.length := by simpa using congrArg List.length holes
  obtain ⟨sameFirst, same⟩ := List.append_inj' parts (by simpa using sameLength)
  exact ⟨sameFirst, injective.list_map same⟩

/-- A value that may be absent can be told from its part. -/
theorem Part.option_injective (injective : Function.Injective part) {left right : Option α}
    (parts : left.toList.map part = right.toList.map part) : left = right := by
  cases left <;> cases right <;> simp_all [injective.eq_iff]

/-- A block that may be absent can be told from its parts, if it is known whether it is absent. -/
theorem Part.block_injective (injective : Function.Injective part) {hole : β}
    {left right : Option (List α)}
    (holes : left.map (·.map fun _ => hole) = right.map (·.map fun _ => hole))
    (parts : (left.getD []).map part = (right.getD []).map part) : left = right := by
  cases left <;> cases right <;> simp_all [injective.list_map.eq_iff]

end Pieces

/-- A statement can be told from its shell and its parts. -/
theorem Stmt.eq_of_shell_of_parts {left right : Stmt} (shell : left.shell = right.shell)
    (parts : left.parts = right.parts) : left = right := by
  cases left <;> cases right <;> simp only [Stmt.shell, reduceCtorEq] at shell
  case forLoop.forLoop =>
    simp only [Stmt.forLoop.injEq] at shell ⊢
    obtain ⟨sameInit, parts⟩ := Part.split_list Part.stmt_injective shell.1 parts
    obtain ⟨sameCondition, parts⟩ := Part.split_option Part.value_injective shell.2.1 parts
    obtain ⟨sameStep, parts⟩ := Part.split_list Part.value_injective shell.2.2.1 parts
    exact ⟨sameInit, sameCondition, sameStep, Part.stmt_injective.list_map parts⟩
  case branch.branch =>
    simp only [Stmt.branch.injEq] at shell ⊢
    obtain ⟨sameCondition, parts⟩ := List.cons.inj parts
    obtain ⟨sameThen, parts⟩ := Part.split_list Part.stmt_injective shell.2.1 parts
    exact ⟨Part.value_injective sameCondition, sameThen,
      Part.block_injective Part.stmt_injective shell.2.2 parts⟩
  case declare.declare =>
    simp only [Stmt.declare.injEq] at shell ⊢
    have sameInit := Part.option_injective Part.value_injective parts
    exact ⟨shell.1, shell.2.1, shell.2.2.1, sameInit, shell.2.2.2.2⟩
  case ret.ret =>
    simp only [Stmt.ret.injEq] at shell ⊢
    exact ⟨Part.option_injective Part.value_injective parts, shell.2⟩
  all_goals
    simp_all [Stmt.parts, Part.value, Part.stmt_injective.list_map.eq_iff]

/-- Arguments of an attribute with the same names and the same values are the same. -/
theorem AttributeArg.eq_of_holes_of_values {left right : List AttributeArg}
    (holes : left.map ({ · with value := .hole }) = right.map ({ · with value := .hole }))
    (parts : left.map (fun arg => Part.value arg.value) =
      right.map fun arg => Part.value arg.value) : left = right := by
  induction left generalizing right with
  | nil => cases right <;> simp_all
  | cons first rest inductionHypothesis =>
    cases right with
    | nil => simp at parts
    | cons other others =>
      simp only [List.map_cons, List.cons.injEq, AttributeArg.mk.injEq] at holes parts
      have sameFirst : first = other := by
        cases first
        cases other
        simp_all [Part.value]
      rw [sameFirst, inductionHypothesis holes.2 parts.2]

/-- An attribute can be told from its shell and its parts. -/
theorem Attribute.eq_of_shell_of_parts {left right : Attribute} (shell : left.shell = right.shell)
    (parts : (Node.attr left).parts = (Node.attr right).parts) : left = right := by
  simp only [Attribute.shell, Attribute.mk.injEq] at shell
  have sameArgs := AttributeArg.eq_of_holes_of_values shell.2.1 parts
  cases left
  cases right
  simp_all

/-- Constructor chains with the same arguments and otherwise the same shell are the same. -/
theorem CtorDecl.chain_eq_of_args {left right : CtorDecl}
    (holes : left.chain.map (fun chain => { chain with args := chain.args.map fun _ => .hole }) =
      right.chain.map (fun chain => { chain with args := chain.args.map fun _ => .hole }))
    (args : left.chainArgs = right.chainArgs) : left.chain = right.chain := by
  rw [CtorDecl.chainArgs, CtorDecl.chainArgs] at args
  cases leftChain : left.chain with
  | none => cases rightChain : right.chain <;> simp_all
  | some chain =>
    cases rightChain : right.chain with
    | none => simp_all
    | some other =>
      cases chain
      cases other
      simp_all

/-- A member can be told from its shell and its parts. -/
theorem Member.eq_of_shell_of_parts {left right : Member} (shell : left.shell = right.shell)
    (parts : left.parts = right.parts) : left = right := by
  cases left <;> cases right <;> simp only [Member.shell, reduceCtorEq] at shell
  case field.field left right =>
    simp only [Member.field.injEq, FieldDecl.mk.injEq] at shell
    obtain ⟨sameName, sameTy, -, sameModifiers, holes, sameSpan⟩ := shell
    obtain ⟨sameAttrs, parts⟩ := Part.split_list Part.attr_injective holes parts
    have sameInit := Part.option_injective Part.value_injective parts
    cases left
    cases right
    simp_all
  case method.method left right =>
    simp only [Member.method.injEq, MethodDecl.mk.injEq] at shell
    obtain ⟨sameName, sameParams, sameRet, bodyHoles, sameModifiers, holes, sameSpan⟩ := shell
    obtain ⟨sameAttrs, parts⟩ := Part.split_list Part.attr_injective holes parts
    have sameBody := Part.block_injective Part.stmt_injective bodyHoles parts
    cases left
    cases right
    simp_all
  case ctor.ctor left right =>
    simp only [Member.ctor.injEq, CtorDecl.mk.injEq] at shell
    obtain ⟨sameParams, chainHoles, bodyHoles, sameModifiers, sameSpan⟩ := shell
    obtain ⟨parts, sameBody⟩ := Part.split_last Part.stmt_injective bodyHoles parts
    have sameArgs := Part.value_injective.list_map parts
    have sameChain := CtorDecl.chain_eq_of_args chainHoles sameArgs
    cases left
    cases right
    simp_all

/-- A node can be told from its shell and its parts. -/
theorem Node.eq_of_shell_of_parts {left right : Node} (shell : left.shell = right.shell)
    (parts : left.parts = right.parts) : left = right := by
  cases left <;> cases right <;> simp only [Node.shell, reduceCtorEq] at shell
  case expr.expr =>
    exact congrArg Node.expr (Expr.eq_of_shell_of_parts (Node.expr.inj shell) parts)
  case stmt.stmt =>
    exact congrArg Node.stmt (Stmt.eq_of_shell_of_parts (Node.stmt.inj shell) parts)
  case attr.attr =>
    exact congrArg Node.attr (Attribute.eq_of_shell_of_parts (Node.attr.inj shell) parts)
  case member.member =>
    exact congrArg Node.member (Member.eq_of_shell_of_parts (Node.member.inj shell) parts)
  case decl.decl left right =>
    simp only [TypeDecl.shell, Node.decl.injEq, TypeDecl.mk.injEq] at shell
    obtain ⟨sameAttrs, parts⟩ := Part.split_list Part.attr_injective shell.2.2.2.2.1 parts
    have sameMembers := Part.member_injective.list_map parts
    cases left
    cases right
    simp_all
  case unit.unit left right =>
    simp only [SourceUnit.shell, Node.unit.injEq, SourceUnit.mk.injEq] at shell
    obtain ⟨parts, sameGlobals⟩ := Part.split_last Part.stmt_injective shell.2.2.2.2.1 parts
    have sameDecls := Part.decl_injective.list_map parts
    cases left
    cases right
    simp_all

/-! ## Induction -/

/-- No part of the body of a lambda is larger than the body. -/
theorem LambdaBody.sizeOf_part_le (body : LambdaBody) :
    ∀ part ∈ body.parts, sizeOf part.2 ≤ sizeOf body := by
  cases body <;> simp [LambdaBody.parts, Part.value, Part.stmt]
  grind [→ List.sizeOf_lt_of_mem]

/-- No part of an expression is larger than the expression. -/
theorem Expr.sizeOf_part_le (expr : Expr) : ∀ part ∈ expr.parts, sizeOf part.2 ≤ sizeOf expr := by
  cases expr
  case lambda note params ret body =>
    intro part member
    have smaller := LambdaBody.sizeOf_part_le body part member
    simp only [Expr.lambda.sizeOf_spec]
    omega
  all_goals simp [Expr.parts, Part.value, Part.target, Part.entry]
  all_goals grind [→ List.sizeOf_lt_of_mem]

/-- The statements of a block that may be missing are no larger than the block. -/
theorem Stmt.sizeOf_getD_le (body : Option (List Stmt)) : sizeOf (body.getD []) ≤ sizeOf body := by
  cases body <;> simp

/-- No part of a statement is larger than the statement. -/
theorem Stmt.sizeOf_part_le (stmt : Stmt) : ∀ part ∈ stmt.parts, sizeOf part.2 ≤ sizeOf stmt := by
  cases stmt <;> simp [Stmt.parts, Part.value, Part.stmt]
  all_goals grind [→ List.sizeOf_lt_of_mem, Stmt.sizeOf_getD_le]

/-- The arguments of a constructor chain are not larger than the chain. -/
theorem CtorDecl.sizeOf_chainArgs_le (ctor : CtorDecl) :
    sizeOf ctor.chainArgs ≤ sizeOf ctor.chain := by
  rw [CtorDecl.chainArgs]
  cases ctor.chain with
  | none => simp
  | some chain =>
    cases chain
    simp
    omega

/-- No part of a member is larger than the member. -/
theorem Member.sizeOf_part_le (member : Member) :
    ∀ part ∈ member.parts, sizeOf part.2 ≤ sizeOf member := by
  cases member with
  | field decl =>
    cases decl
    simp [Member.parts, Part.attr, Part.value]
    grind [→ List.sizeOf_lt_of_mem]
  | method decl =>
    cases decl
    simp [Member.parts, Part.attr, Part.stmt]
    grind [→ List.sizeOf_lt_of_mem, Stmt.sizeOf_getD_le]
  | ctor decl =>
    have chainSize := decl.sizeOf_chainArgs_le
    rcases decl
    simp [Member.parts, Part.value, Part.stmt]
    grind [→ List.sizeOf_lt_of_mem]

/-- The values in an attribute are smaller than the attribute. -/
theorem Attribute.sizeOf_arg_lt {attr : Attribute} {arg : AttributeArg} (member : arg ∈ attr.args) :
    sizeOf arg.value < sizeOf attr := by
  have smaller := List.sizeOf_lt_of_mem member
  cases attr
  cases arg
  simp only [Attribute.mk.sizeOf_spec, AttributeArg.mk.sizeOf_spec] at smaller ⊢
  omega

/-- The parts of a node are smaller than the node, which carries recursions down a tree. -/
theorem Node.sizeOf_part_lt (node : Node) : ∀ part ∈ node.parts, sizeOf part.2 < sizeOf node := by
  cases node with
  | expr root =>
    intro part member
    have smaller := root.sizeOf_part_le part member
    simp only [Node.expr.sizeOf_spec]
    omega
  | stmt root =>
    intro part member
    have smaller := root.sizeOf_part_le part member
    simp only [Node.stmt.sizeOf_spec]
    omega
  | member root =>
    intro part member
    have smaller := root.sizeOf_part_le part member
    simp only [Node.member.sizeOf_spec]
    omega
  | attr root =>
    simp [Node.parts, Part.value]
    grind [→ Attribute.sizeOf_arg_lt]
  | decl root =>
    cases root
    simp [Node.parts, Part.attr, Part.member]
    grind [→ List.sizeOf_lt_of_mem]
  | unit root =>
    cases root
    simp [Node.parts, Part.decl, Part.stmt]
    grind [→ List.sizeOf_lt_of_mem]

/-- A node is larger than the nodes below it. -/
theorem Node.sizeOf_child_lt {node child : Node} (member : child ∈ node.children) :
    sizeOf child < sizeOf node := by
  obtain ⟨part, partOf, rfl⟩ := List.mem_map.1 member
  exact node.sizeOf_part_lt part partOf

/-- A property that passes from the parts of a node to the node holds of every node. -/
theorem Node.induct {motive : Node → Prop}
    (step : ∀ node : Node, (∀ child ∈ node.children, motive child) → motive node)
    (node : Node) : motive node :=
  step node fun child _ => Node.induct step child
termination_by sizeOf node
decreasing_by exact Node.sizeOf_child_lt ‹_›

end ScriptSharp
