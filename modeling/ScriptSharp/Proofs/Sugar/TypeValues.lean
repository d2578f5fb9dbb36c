import Mathlib.Algebra.BigOperators.Group.Multiset.Basic
import ScriptSharp.Proofs.NormalForm.Desugared

/-!
# Types that are used as values

The removal of sugar makes type tokens of the types that stand where a value is wanted. It does so
construct by construct, and some constructs are left out. `namesKept` says which: above all the
initializers of fields, and the operands of casts and indexing. `unit_typeNames` compares the whole
trees: the types that still stand as values in the result are those that stood at such places in the
source, each as often as there.
-/

namespace ScriptSharp

open Outcome

/-- The type that an expression names, up to parentheses. -/
def Expr.typeName? (expr : Expr) : Option Ty :=
  match expr.stripParens with
  | .typeRef _ named => some named
  | _ => none

/-- An expression names a type if it is a type reference, up to parentheses. -/
theorem Expr.typeName?_eq_some_iff {expr : Expr} {named : Ty} :
    expr.typeName? = some named ↔ ∃ note, expr.stripParens = .typeRef note named := by
  unfold typeName?
  split
  case h_1 isRef => simp [isRef]
  case h_2 other => simpa using fun note => other note named

/-- Other expressions name no type. -/
theorem Expr.typeName?_eq_none_iff {expr : Expr} :
    expr.typeName? = none ↔ ∀ note named, expr.stripParens ≠ .typeRef note named := by
  rw [Option.eq_none_iff_forall_ne_some]
  simp only [ne_eq, typeName?_eq_some_iff, not_exists]
  exact forall_comm

namespace Node

/-- The type that a node names. -/
def typeName? : Node → Option Ty
  | .expr root => root.typeName?
  | _ => none

/-- What `own` gives for a node and for all nodes below it. -/
def total (own : Node → Multiset Ty) (node : Node) : Multiset Ty :=
  own node + (node.children.attach.map fun child => total own child.1).sum
termination_by sizeOf node
decreasing_by exact Node.sizeOf_child_lt child.2

/-- What is counted below a node is what is counted at the node and below its parts. -/
theorem total_eq (own : Node → Multiset Ty) (node : Node) :
    total own node = own node + (node.children.map (total own)).sum := by
  rw [total]
  simp

/-- What stands in parentheses gives what they give, where these give nothing by themselves. -/
theorem total_stripParens {own : Node → Multiset Ty}
    (silent : ∀ note inner, own (.expr (.paren note inner)) = 0) (root : Expr) :
    total own (.expr root.stripParens) = total own (.expr root) := by
  induction root using Expr.stripParens.induct with
  | case1 note inner inductionHypothesis =>
    rw [Expr.stripParens.eq_1, inductionHypothesis, total_eq own (.expr (.paren note inner)),
      silent]
    simp [children, parts, Expr.parts, Part.value]
  | case2 root noParen => rw [Expr.stripParens.eq_2 root noParen]

/-- The types that the parts of a node name. -/
def partNames (node : Node) : Multiset Ty :=
  (node.children.filterMap typeName? : List Ty)

/-- The types right below a node that stand as values: all but the receivers of members. What stands
in parentheses stands where these stand. -/
def namesAsValues : Node → Multiset Ty
  | .expr (.member ..) | .expr (.paren ..) => 0
  | node => node.partNames

/-- The types right below a node that do not become type tokens. -/
def namesKept : Node → Multiset Ty
  | .expr (.ternary _ condition _ _) => condition.typeName?.toList
  | .expr (.assign _ _ target _) => target.typeName?.toList
  | node@(.expr (.index ..)) | node@(.expr (.unary ..)) | node@(.expr (.cast ..))
  | node@(.expr (.tryCast ..)) | node@(.expr (.newArray ..)) | node@(.expr (.lambda ..)) =>
    node.partNames
  | .expr _ => 0
  | .stmt (.declare ..) | .stmt (.ret ..) => 0
  | node@(.stmt _) => node.partNames
  | node@(.member (.field _)) => node.partNames
  | _ => 0

/-- Something that is the same for each part and for its replacement is the same for all of them. -/
theorem Matches.map_children {α : Type} {before after : Node → α} {source result : Node}
    (matched : Matches (fun _ child replacement => before child = after replacement)
      source result) : source.children.map before = result.children.map after := by
  have related : List.Forall₂ Eq (source.children.map before) (result.children.map after) := by
    simp only [children, List.forall₂_map_left_iff, List.forall₂_map_right_iff]
    exact matched.parts.imp fun _ _ same => same.2
  rwa [List.forall₂_eq_eq_eq] at related

/-- The types that stand as values at or below a node. -/
abbrev valueNames : Node → Multiset Ty := total namesAsValues

/-- The types at or below a node that do not become type tokens. -/
abbrev keptNames : Node → Multiset Ty := total namesKept

end Node

namespace Lowering.Sugar

open Node

variable {types : TypeTable} {context : Context}

/-! ## Lists of expressions -/

/-- The types that expressions name. -/
def named (exprs : List Expr) : List Ty := exprs.filterMap Expr.typeName?

/-- The types that stand as values below expressions. -/
def below (exprs : List Expr) : Multiset Ty := (exprs.map fun expr => valueNames (.expr expr)).sum

@[simp]
theorem named_nil : named [] = [] := rfl

/-- A type name in front is listed first. -/
@[simp]
theorem named_cons (first : Expr) (rest : List Expr) :
    named (first :: rest) = first.typeName?.toList ++ named rest := by
  cases isName : first.typeName? <;> simp [named, isName]

/-- Type names are listed in the order of the expressions. -/
@[simp]
theorem named_append (first second : List Expr) :
    named (first ++ second) = named first ++ named second :=
  List.filterMap_append

@[simp]
theorem below_nil : below [] = 0 := rfl

/-- What stands in a list of expressions stands in the first or in the others. -/
@[simp]
theorem below_cons (first : Expr) (rest : List Expr) :
    below (first :: rest) = valueNames (.expr first) + below rest := by
  simp [below]

/-- What stands in two lists stands in the first or in the second one. -/
@[simp]
theorem below_append (first second : List Expr) :
    below (first ++ second) = below first + below second := by
  simp [below]

/-! ## Nodes of expressions -/

section Expressions

variable {node : Node} {exprs : List Expr}

/-- The type names among the parts of a node are those of the expressions that are its parts. -/
theorem partNames_of_exprs (are : node.children = exprs.map .expr) :
    node.partNames = named exprs := by
  rw [partNames, are, List.filterMap_map]
  rfl

/-- What stands below a node stands in the expressions that are its parts. -/
theorem sum_of_exprs (are : node.children = exprs.map .expr) :
    (node.children.map valueNames).sum = below exprs := by
  rw [are, List.map_map]
  rfl

/-- Where all parts are values, the types that they name stand as values, and those below them. -/
theorem valueNames_of_exprs (exprs : List Expr) (are : node.children = exprs.map .expr)
    (values : namesAsValues node = node.partNames) :
    valueNames node = named exprs + below exprs := by
  rw [valueNames, total_eq, values, partNames_of_exprs are, sum_of_exprs are]

/-- A node whose parts are replaced has the types that are kept and those below the parts. -/
theorem valueNames_replaced {result : Node} (exprs replaced : List Expr)
    (are : node.children = exprs.map .expr) (become : result.children = replaced.map .expr)
    (values : namesAsValues result = result.partNames) (kept : namesKept node = named replaced)
    (same : below replaced = below exprs) :
    valueNames result = namesKept node + (node.children.map valueNames).sum := by
  rw [valueNames_of_exprs replaced become values, sum_of_exprs are, same, kept]

end Expressions

section Forms

variable {note : Note} {callee target value : Expr} {args : List Expr}
  {signature : Option Signature}

/-- In a construction, type names used as values are arguments or stand in them. -/
theorem valueNames_construct {constructed : Ty} :
    valueNames (.expr (.construct note constructed args signature)) = named args + below args := by
  refine valueNames_of_exprs args ?_ rfl
  simp [children, parts, Expr.parts, Part.value]

/-- In an array, type names used as values are items or stand in them. -/
theorem valueNames_array {element : Ty} :
    valueNames (.expr (.array note element args)) = named args + below args := by
  refine valueNames_of_exprs args ?_ rfl
  simp [children, parts, Expr.parts, Part.value]

end Forms

/-! ## Values and arguments -/

/-- Nothing stands as a value below the name of a type. -/
theorem valueNames_of_typeName {expr : Expr} {note : Note} {named : Ty}
    (isRef : expr.stripParens = .typeRef note named) : valueNames (.expr expr) = 0 := by
  rw [valueNames, ← total_stripParens fun _ _ => rfl, isRef, total_eq]
  rfl

/-- A type name that is turned into a value is no type name any more. -/
@[simp]
theorem typeName?_valueize (expr : Expr) : (valueize types expr).typeName? = none := by
  unfold valueize
  split
  · rfl
  case h_2 other => exact Expr.typeName?_eq_none_iff.2 other

/-- Turning a type name into a value changes nothing inside it. -/
@[simp]
theorem valueNames_valueize (expr : Expr) :
    valueNames (.expr (valueize types expr)) = valueNames (.expr expr) := by
  unfold valueize
  split
  case h_1 isRef =>
    rw [valueNames_of_typeName isRef, valueNames, total_eq]
    rfl
  case h_2 => rfl

/-- Arguments that are turned into values are no type names. -/
@[simp]
theorem named_map_valueize (exprs : List Expr) : named (exprs.map (valueize types)) = [] := by
  simp [named]

/-- What stands in arguments is not changed by turning them into values. -/
@[simp]
theorem below_map_valueize (exprs : List Expr) :
    below (exprs.map (valueize types)) = below exprs := by
  simp [below, Function.comp_def]

/-- Packing arguments that name no types keeps what stands below them. -/
theorem expandParams_names {signature : Option Signature} {args : List Expr}
    (unnamed : named args = []) :
    named (expandParams types signature args) = [] ∧
      below (expandParams types signature args) = below args := by
  obtain same | ⟨_, index, element, -, -, -, same⟩ := expandParams_cases types signature args
  · rw [same]
    exact ⟨unnamed, rfl⟩
  · have split := args.take_append_drop index
    rw [← split, named_append, List.append_eq_nil_iff] at unnamed
    rw [same, packed]
    constructor
    · rw [named_append, unnamed.1]
      rfl
    · rw [below_append, below_cons, valueNames_array, unnamed.2, below_nil, Multiset.coe_nil,
        zero_add, add_zero, ← below_append, split]

/-- Packed arguments are no type names. -/
@[simp]
theorem named_expandParams (signature : Option Signature) (args : List Expr) :
    named (expandParams types signature (args.map (valueize types))) = [] :=
  (expandParams_names (named_map_valueize args)).1

/-- Packing moves arguments into an array and keeps what stands in them. -/
@[simp]
theorem below_expandParams (signature : Option Signature) (args : List Expr) :
    below (expandParams types signature (args.map (valueize types))) = below args :=
  (expandParams_names (named_map_valueize args)).2.trans (below_map_valueize args)

/-! ## References and calls -/

/-- A name has no type names below it. -/
theorem valueNames_ident {note : Note} {name : Ident} {binding : Binding} :
    valueNames (.expr (.ident note name binding)) = 0 := by
  rw [valueNames, total_eq]
  rfl

/-- What a name is resolved to has no type names used as values. -/
theorem valueNames_reference {scope : Scope} {note : Note} {name : Ident} {binding : Binding}
    {result : Expr} (left : reference scope note name binding = .ok result) :
    valueNames (.expr result) = 0 := by
  cases binding with
  | unresolved => cases left
  | localVariable | parameter =>
    obtain rfl := Except.ok.inj left
    exact valueNames_ident
  | member binding =>
    simp only [reference] at left
    split_ifs at left
    · obtain rfl := Except.ok.inj left
      exact valueNames_ident
    · obtain rfl := Except.ok.inj left
      rw [valueNames, total_eq]
      simp only [namesAsValues, children, parts, Expr.parts, Part.value, List.map_cons,
        List.map_nil, List.sum_cons, List.sum_nil, total_eq namesAsValues (.expr (.selfRef _))]
      rfl

/-- A construction has what its arguments have. -/
theorem valueNames_constructed {span : Span} {target : Ty} {args : List Expr} {result : Expr}
    (left : construct types span target (args.map (valueize types)) = .ok result) :
    valueNames (.expr result) = below args := by
  unfold construct at left
  split at left
  · cases left
  · split at left
    · obtain rfl := Except.ok.inj left
      rw [valueNames_construct, named_expandParams, below_expandParams]
      exact zero_add _
    · split_ifs at left with _ noArgs noArgs
      · obtain rfl := Except.ok.inj left
        have none : args = [] := by simpa using noArgs
        rw [none, valueNames, total_eq]
        rfl
      · obtain rfl := Except.ok.inj left
        rw [valueNames_construct, named_map_valueize, below_map_valueize]
        exact zero_add _

/-- A call has what its callee and its arguments have. Where the callee names a type, it goes. -/
theorem valueNames_invoke {scope : Scope} {note : Note} {callee : Expr} {typeArgs : List Ty}
    {args : List Expr} {signature : Option Signature} {result : Expr}
    (left : leave types scope (.invoke note callee typeArgs args signature) = .ok result) :
    valueNames (.expr result) = below (callee :: args) := by
  rw [below_cons]
  simp only [leave] at left
  split at left
  case h_1 isRef => rw [valueNames_constructed left, valueNames_of_typeName isRef, zero_add]
  case h_2 => cases left
  case h_3 noName _ =>
    obtain rfl := Except.ok.inj left
    have noCallee : callee.typeName? = none := Expr.typeName?_eq_none_iff.2 noName
    rw [valueNames_of_exprs (callee :: expandParams types signature (args.map (valueize types)))]
    · simp [noCallee]
    · simp [children, parts, Expr.parts, Part.value]
    · rfl

/-- After an expression is left, the types right below it are those that do not become tokens, and
its parts are as before. -/
theorem valueNames_leave {scope : Scope} {expr result : Expr}
    (left : leave types scope expr = .ok result) :
    valueNames (.expr result) =
      namesKept (.expr expr) + ((Node.expr expr).children.map valueNames).sum := by
  -- Each form is told by its parts and by those of them that become values.
  cases expr
  case ident =>
    rw [valueNames_reference left]
    rfl
  case invoke note callee typeArgs args signature =>
    have are : (Node.expr (.invoke note callee typeArgs args signature)).children =
        (callee :: args).map .expr := by
      simp [children, parts, Expr.parts, Part.value]
    rw [sum_of_exprs are, valueNames_invoke left]
    exact (zero_add _).symm
  case construct note constructed args signature =>
    obtain rfl := Except.ok.inj left
    let found := resolve types constructed.typeId? (args.map (valueize types)) signature
    refine valueNames_replaced args (expandParams types found (args.map (valueize types))) ?_ ?_ rfl
      (by simp [namesKept]) (by simp)
    · simp [children, parts, Expr.parts, Part.value]
    · simp [found, children, parts, Expr.parts, Part.value]
  case member =>
    obtain rfl := Except.ok.inj left
    rw [valueNames, total_eq]
    rfl
  case assign note op target value =>
    obtain rfl := Except.ok.inj left
    exact valueNames_replaced [target, value] [target, valueize types value] rfl rfl rfl
      (by simp [namesKept]) (by simp)
  case binary note op first second =>
    obtain rfl := Except.ok.inj left
    exact valueNames_replaced [first, second] [valueize types first, valueize types second] rfl rfl
      rfl (by simp [namesKept]) (by simp)
  case ternary note condition first second =>
    obtain rfl := Except.ok.inj left
    exact valueNames_replaced [condition, first, second]
      [condition, valueize types first, valueize types second] rfl rfl rfl (by simp [namesKept])
      (by simp)
  case array note element items =>
    obtain rfl := Except.ok.inj left
    refine valueNames_replaced items (items.map (valueize types)) ?_ ?_ rfl (by simp [namesKept])
      (by simp)
    · simp [children, parts, Expr.parts, Part.value]
    · simp [children, parts, Expr.parts, Part.value]
  case map note entries =>
    obtain rfl := Except.ok.inj left
    let exprs : List Expr := entries.flatMap fun entry => [entry.1, entry.2]
    refine valueNames_replaced exprs (exprs.map (valueize types)) ?_ ?_ rfl (by simp [namesKept])
      (by simp)
    · simp [exprs, children, parts, Expr.parts, Part.entry, Part.value, List.map_flatMap]
    · simp [exprs, children, parts, Expr.parts, Part.entry, Part.value, List.map_flatMap,
        List.flatMap_map]
  all_goals
    obtain rfl := Except.ok.inj left
    rw [valueNames, total_eq]
    rfl

/-! ## Statements and declarations -/

/-- A literal has no type names below it. -/
theorem valueNames_literal {note : Note} {value : Literal} :
    valueNames (.expr (.literal note value)) = 0 := by
  rw [valueNames, total_eq]
  rfl

/-- A default value has no type names in it. -/
theorem default_names (types : TypeTable) (ty : Ty) :
    (defaultValue types ty).typeName? = none ∧ valueNames (.expr (defaultValue types ty)) = 0 := by
  unfold defaultValue
  split
  all_goals try exact ⟨rfl, valueNames_literal⟩
  split_ifs
  · refine ⟨rfl, ?_⟩
    rw [valueNames, total_eq]
    rfl
  · exact ⟨rfl, valueNames_literal⟩

/-- The same is true of a statement. -/
theorem valueNames_leaveStmt (stmt : Stmt) : valueNames (.stmt (leaveStmt types stmt)) =
    namesKept (.stmt stmt) + ((Node.stmt stmt).children.map valueNames).sum := by
  cases stmt
  case declare name declared ty init span =>
    cases init with
    | none =>
      obtain ⟨unnamed, silent⟩ := default_names types ty
      refine valueNames_replaced [] [defaultValue types ty] rfl rfl rfl ?_ ?_
      · simp [namesKept, unnamed]
      · simp [silent]
    | some init =>
      exact valueNames_replaced [init] [valueize types init] rfl rfl rfl (by simp [namesKept])
        (by simp)
  case ret value span =>
    refine valueNames_replaced value.toList (value.toList.map (valueize types)) ?_ ?_ rfl
      (by simp [namesKept]) (by simp)
    · simp [children, parts, Stmt.parts, Part.value]
    · cases value <;> rfl
  all_goals
    rw [valueNames, total_eq]
    rfl

/-- The same is true of an attribute. -/
theorem valueNames_leaveAttribute {attr result : Attribute}
    (left : leaveAttribute types attr = .ok result) :
    valueNames (.attr result) =
      namesKept (.attr attr) + ((Node.attr attr).children.map valueNames).sum := by
  obtain ⟨_, -, finished⟩ := gives_bind.1 (show Gives (leaveAttribute types attr) result from left)
  obtain rfl := gives_pure.1 finished
  let values := attr.args.map (·.value)
  refine valueNames_replaced values (values.map (valueize types)) ?_ ?_ rfl (by simp [namesKept])
    (by simp)
  · simp [values, children, parts, Part.value]
  · simp [values, children, parts, Part.value]

/-! Of members and declarations it is only looked at what they consist of. -/

section Declarations

variable {own : Node → Multiset Ty}

/-- What is counted below a method is counted in its attributes and in its body. -/
theorem sum_method (method : MethodDecl) :
    ((Node.member (.method method)).children.map (total own)).sum =
      (method.attrs.map fun attr => total own (.attr attr)).sum +
        ((method.body.getD []).map fun stmt => total own (.stmt stmt)).sum := by
  simp [children, parts, Member.parts, Part.attr, Part.stmt, Function.comp_def]

/-- What is counted below a constructor is counted in the arguments of its chain and in its body. -/
theorem sum_ctor (ctor : CtorDecl) :
    ((Node.member (.ctor ctor)).children.map (total own)).sum =
      (ctor.chainArgs.map fun arg => total own (.expr arg)).sum +
        (ctor.body.map fun stmt => total own (.stmt stmt)).sum := by
  simp [children, parts, Member.parts, Part.value, Part.stmt, Function.comp_def]

/-- What is counted below a declaration is counted in its attributes and in its members. -/
theorem sum_decl (decl : TypeDecl) : ((Node.decl decl).children.map (total own)).sum =
    (decl.attrs.map fun attr => total own (.attr attr)).sum +
      (decl.members.map fun member => total own (.member member)).sum := by
  simp [children, parts, Part.attr, Part.member, Function.comp_def]

/-- What is counted below a unit is counted in its declarations and in its statements at top
level. -/
theorem sum_unit (unit : SourceUnit) : ((Node.unit unit).children.map (total own)).sum =
    (unit.decls.map fun decl => total own (.decl decl)).sum +
      (unit.globals.map fun stmt => total own (.stmt stmt)).sum := by
  simp [children, parts, Part.decl, Part.stmt, Function.comp_def]

end Declarations

/-- A method has no values of its own. -/
theorem namesAsValues_method (method : MethodDecl) :
    namesAsValues (.member (.method method)) = 0 := by
  simp [namesAsValues, partNames, children, parts, Member.parts, Part.attr, Part.stmt,
    List.filterMap_map, Function.comp_def, typeName?]

/-- The values of a constructor are the arguments of its chain. -/
theorem namesAsValues_ctor (ctor : CtorDecl) :
    namesAsValues (.member (.ctor ctor)) = named ctor.chainArgs := by
  simp [namesAsValues, partNames, children, parts, Member.parts, Part.value, Part.stmt,
    List.filterMap_map, Function.comp_def, typeName?, named]

/-- A declaration has no values of its own. -/
theorem namesAsValues_decl (decl : TypeDecl) : namesAsValues (.decl decl) = 0 := by
  simp [namesAsValues, partNames, children, parts, Part.attr, Part.member, List.filterMap_map,
    Function.comp_def, typeName?]

/-- A unit has no values of its own. -/
theorem namesAsValues_unit (unit : SourceUnit) : namesAsValues (.unit unit) = 0 := by
  simp [namesAsValues, partNames, children, parts, Part.decl, Part.stmt, List.filterMap_map,
    Function.comp_def, typeName?]

/-- The same is true of a member. -/
theorem valueNames_leaveMember {scope : Scope} (member : Member) :
    valueNames (.member (leaveMember types scope member)) =
      namesKept (.member member) + ((Node.member member).children.map valueNames).sum := by
  cases member with
  | field field =>
    rw [valueNames, total_eq]
    rfl
  | method method =>
    change valueNames (.member (.method method)) = _
    rw [valueNames, total_eq, namesAsValues_method]
    rfl
  | ctor ctor =>
    have chained : named (CtorDecl.chainArgs
          { ctor with chain := ctor.chain.map (resolveChain types scope) }) = [] ∧
        below (CtorDecl.chainArgs
          { ctor with chain := ctor.chain.map (resolveChain types scope) }) =
            below ctor.chainArgs := by
      simp only [CtorDecl.chainArgs]
      cases ctor.chain with
      | none => exact ⟨rfl, rfl⟩
      | some chain => simp [resolveChain]
    rw [leaveMember, valueNames, total_eq, namesAsValues_ctor, chained.1, sum_ctor, sum_ctor]
    exact congrArg (fun names => 0 + (names + _)) chained.2

/-- The same is true of a declaration. -/
theorem valueNames_leaveDecl (decl : TypeDecl) : valueNames (.decl (leaveDecl context decl)) =
    namesKept (.decl decl) + ((Node.decl decl).children.map valueNames).sum := by
  rw [valueNames, total_eq, namesAsValues_decl, sum_decl, sum_decl]
  refine congrArg (0 + ·) ?_
  unfold leaveDecl
  simp only
  split_ifs
  · simp only [List.map_append, List.map_cons, List.map_nil, List.sum_append, List.sum_cons,
      List.sum_nil, total_eq namesAsValues (.attr ⟨_, [], _⟩)]
    exact congrArg (· + _) (add_zero _)
  · rfl

/-! ## The walk -/

/-- An expression of another form names no type. -/
theorem typeName?_of_head {expr : Expr} (other : expr.head ≠ .typeName) :
    expr.typeName? = none := by
  refine Expr.typeName?_eq_none_iff.2 fun note named isRef => other ?_
  rw [Expr.head, isRef]

/-- Removing sugar makes no type of a value, and no value of a type. -/
theorem typeName?_leave {scope : Scope} {expr result : Expr}
    (left : leave types scope expr = .ok result) : expr.typeName? = result.typeName? := by
  cases expr
  case ident | invoke =>
    have other : result.head ≠ .typeName := by
      rw [← head_leave left]
      nofun
    exact (typeName?_of_head other).symm
  all_goals exact Except.ok.inj left ▸ rfl

/-- What is known of a node once it is left: the types that stand as values, and the type that it
names. -/
theorem names_leaveNode {scope : Scope} {node result : Node}
    (left : Gives ((traversal context).leaveNode scope node) result) :
    valueNames result = namesKept node + (node.children.map valueNames).sum ∧
      node.typeName? = result.typeName? := by
  cases node with
  | expr root =>
    obtain ⟨final, leftRoot, same⟩ := gives_bind.1 left
    obtain rfl := gives_pure.1 same
    exact ⟨valueNames_leave leftRoot, typeName?_leave leftRoot⟩
  | stmt root =>
    obtain rfl := gives_pure.1 left
    exact ⟨valueNames_leaveStmt root, rfl⟩
  | attr root =>
    obtain ⟨final, leftRoot, same⟩ := gives_bind.1 left
    obtain rfl := gives_pure.1 same
    exact ⟨valueNames_leaveAttribute leftRoot, rfl⟩
  | member root =>
    obtain rfl := gives_pure.1 left
    exact ⟨valueNames_leaveMember root, rfl⟩
  | decl root =>
    obtain rfl := gives_pure.1 left
    exact ⟨valueNames_leaveDecl root, rfl⟩
  | unit root =>
    obtain rfl := gives_pure.1 left
    refine ⟨?_, rfl⟩
    rw [valueNames, total_eq, namesAsValues_unit]
    rfl

section Matching

variable {source result : Node}
  (matched : Matches (fun _ child replacement => child.typeName? = replacement.typeName?) source
    result)

include matched

/-- Rebuilding a node from its parts does not change whether it names a type. -/
theorem typeName?_of_matches : source.typeName? = result.typeName? := by
  obtain ⟨shell, parts⟩ := matched
  cases source <;> cases result <;> simp only [Node.shell, reduceCtorEq, Node.expr.injEq] at shell
  case expr.expr left right =>
    cases left <;> cases right <;> simp only [Expr.shell, reduceCtorEq] at shell
    case paren.paren =>
      cases parts with
      | cons first _ => exact first.2
    case typeRef.typeRef => rw [shell]
    all_goals rfl
  all_goals rfl

/-- Rebuilding a node from its parts keeps the type names among them. -/
theorem partNames_of_matches : source.partNames = result.partNames := by
  have viaMap (node : Node) : node.children.filterMap typeName? =
      (node.children.map typeName?).filterMap id := by
    rw [List.filterMap_map]
    rfl
  rw [partNames, partNames, viaMap, viaMap, matched.map_children]

/-- Rebuilding a node from its parts keeps the types that do not become tokens. -/
theorem namesKept_of_matches : namesKept source = namesKept result := by
  have sameParts := partNames_of_matches matched
  obtain ⟨shell, parts⟩ := matched
  cases source <;> cases result <;>
    simp only [Node.shell, reduceCtorEq, Node.expr.injEq, Node.stmt.injEq, Node.member.injEq]
      at shell
  case expr.expr left right =>
    cases left <;> cases right <;> simp only [Expr.shell, reduceCtorEq] at shell
    case ternary.ternary | assign.assign =>
      cases parts with
      | cons first _ => exact congrArg (fun name => (name.toList : Multiset Ty)) first.2
    all_goals first | rfl | exact sameParts
  case stmt.stmt left right =>
    cases left <;> cases right <;> simp only [Stmt.shell, reduceCtorEq] at shell
    all_goals first | rfl | exact sameParts
  case member.member left right =>
    cases left <;> cases right <;> simp only [Member.shell, reduceCtorEq] at shell
    all_goals first | rfl | exact sameParts
  all_goals rfl

end Matching

/-- What stands as a value after the walk is what the walk keeps. -/
theorem names_walk (node : Node) {result : Node} (walks : (traversal context).Walks node result) :
    keptNames node = valueNames result ∧ node.typeName? = result.typeName? := by
  induction node using Node.induct generalizing result with
  | step node inductionHypothesis =>
    have thorough : (traversal context).Thorough :=
      DeclTraversal.thorough_of_enter fun _ _ skipped => by cases gives_pure.1 skipped
    obtain ⟨rebuilt, matched, scope, left⟩ := thorough.opens walks
    have done := matched.imp fun {slot child replacement} part walked =>
      inductionHypothesis child (mem_children_of_part part) walked
    have sameNames := done.imp fun _ both => both.2
    obtain ⟨names, name⟩ := names_leaveNode left
    refine ⟨?_, (typeName?_of_matches sameNames).trans name⟩
    rw [names, keptNames, total_eq, namesKept_of_matches sameNames,
      (done.imp fun _ both => both.1).map_children]

/-- The types that stand as values in walked declarations are those that are kept. -/
theorem names_decls {scope : Scope} {decls results : List TypeDecl}
    (walked : (traversal context).decls scope decls = .ok results) :
    (decls.map fun decl => keptNames (.decl decl)).sum =
      (results.map fun decl => valueNames (.decl decl)).sum := by
  -- Declarations are walked as those of a unit without statements.
  have walkedUnit : Gives ((traversal context).unit scope ⟨"", [], [], decls, [], none⟩)
      ⟨"", [], [], results, [], none⟩ :=
    gives_bind.2 ⟨results, walked, gives_bind.2 ⟨[], gives_pure.2 rfl, gives_pure.2 rfl⟩⟩
  have same := (names_walk _ (DeclTraversal.walks_unit walkedUnit)).1
  rw [keptNames, total_eq, sum_unit, valueNames, total_eq, namesAsValues_unit, sum_unit] at same
  simpa [namesKept] using same

/-- The types that stand as values in walked statements are those that are kept. -/
theorem names_stmts {scope : Scope} {stmts results : List Stmt}
    (walked : (traversal context).stmts scope stmts = .ok results) :
    (stmts.map fun stmt => keptNames (.stmt stmt)).sum =
      (results.map fun stmt => valueNames (.stmt stmt)).sum := by
  -- Statements are walked as those at top level of a unit.
  have walkedUnit : Gives ((traversal context).unit scope ⟨"", [], [], [], stmts, none⟩)
      ⟨"", [], [], [], results, none⟩ :=
    gives_bind.2 ⟨[], gives_pure.2 rfl, gives_bind.2 ⟨results, walked, gives_pure.2 rfl⟩⟩
  have same := (names_walk _ (DeclTraversal.walks_unit walkedUnit)).1
  rw [keptNames, total_eq, sum_unit, valueNames, total_eq, namesAsValues_unit, sum_unit] at same
  simpa [namesKept] using same

/-! ## Units -/

/-- The callee of a constructor chain keeps nothing. -/
theorem keptNames_callee {current : TypeId} {callee : Expr} {kind : ChainKind}
    (isChain : chainKind? current callee = some kind) : keptNames (.expr callee) = 0 := by
  rw [keptNames, ← total_stripParens fun _ _ => rfl]
  unfold chainKind? at isChain
  split at isChain
  case h_1 isRef | h_2 isRef =>
    rw [isRef, total_eq]
    rfl
  case h_3 => cases isChain

/-- The types kept in a constructor are those in its chain and in its body. -/
theorem keptNames_ctor (ctor : CtorDecl) : keptNames (.member (.ctor ctor)) =
    (ctor.chainArgs.map fun arg => keptNames (.expr arg)).sum +
      (ctor.body.map fun stmt => keptNames (.stmt stmt)).sum := by
  rw [keptNames, total_eq, sum_ctor]
  exact zero_add _

/-- The types kept in a call are those in what is called and in its arguments. -/
theorem keptNames_call {note : Note} {callee : Expr} {typeArgs : List Ty} {args : List Expr}
    {signature : Option Signature} :
    keptNames (.stmt (.expr (.invoke note callee typeArgs args signature))) =
      keptNames (.expr callee) + (args.map fun arg => keptNames (.expr arg)).sum := by
  have ofCall : keptNames (.expr (.invoke note callee typeArgs args signature)) =
      keptNames (.expr callee) + (args.map fun arg => keptNames (.expr arg)).sum := by
    rw [keptNames, total_eq]
    simp [namesKept, children, parts, Expr.parts, Part.value, Function.comp_def]
  rw [← ofCall, keptNames, total_eq]
  simp [namesKept, partNames, typeName?, Expr.typeName?, Expr.stripParens, children, parts,
    Stmt.parts, Part.value]

/-- A leading call keeps the same as a statement and as a chain. -/
theorem keptNames_liftChain (current : TypeId) (ctor : CtorDecl) :
    keptNames (.member (.ctor (liftChain current ctor))) = keptNames (.member (.ctor ctor)) := by
  unfold liftChain
  split_ifs with bound
  · rfl
  · split
    case h_1 note callee typeArgs args signature rest isBody =>
      split
      case h_1 kind isChain =>
        have unchained : ctor.chainArgs = [] := by
          have noChain : ctor.chain = none := by simp_all
          rw [CtorDecl.chainArgs, noChain]
          rfl
        rw [keptNames_ctor, keptNames_ctor, unchained, isBody, List.map_cons, List.sum_cons,
          keptNames_call, keptNames_callee isChain, zero_add]
        exact (zero_add _).symm
      case h_2 => rfl
    case h_2 => rfl

/-- Lifting constructor chains out of bodies keeps the same types. -/
theorem keptNames_liftChains (decl : TypeDecl) :
    keptNames (.decl (liftChains decl)) = keptNames (.decl decl) := by
  have sameMembers : ((liftChains decl).members.map fun member => keptNames (.member member)) =
      decl.members.map fun member => keptNames (.member member) := by
    rw [liftChains, List.map_map]
    refine List.map_congr_left fun member _ => ?_
    cases member with
    | ctor ctor => exact keptNames_liftChain decl.id ctor
    | field | method => rfl
  rw [keptNames, total_eq, total_eq, sum_decl, sum_decl, sameMembers]
  rfl

/-- The types in a method are those in its attributes and in its body. -/
theorem valueNames_method (method : MethodDecl) : valueNames (.member (.method method)) =
    (method.attrs.map fun attr => valueNames (.attr attr)).sum +
      ((method.body.getD []).map fun stmt => valueNames (.stmt stmt)).sum := by
  rw [valueNames, total_eq, namesAsValues_method, sum_method, zero_add]

/-- The types in a declaration are those in its attributes and in its members. -/
theorem valueNames_decl (decl : TypeDecl) : valueNames (.decl decl) =
    (decl.attrs.map fun attr => valueNames (.attr attr)).sum +
      (decl.members.map fun member => valueNames (.member member)).sum := by
  rw [valueNames, total_eq, namesAsValues_decl, sum_decl, zero_add]

/-- Statements that are moved in front of a method keep the types that they name. -/
theorem names_prependToStart (globals : List Stmt) (members : List Member) :
    ((prependToStart globals members).map fun member => valueNames (.member member)).sum =
      (globals.map fun stmt => valueNames (.stmt stmt)).sum +
        (members.map fun member => valueNames (.member member)).sum := by
  fun_induction prependToStart globals members with
  | case1 => simp [valueNames_method]
  | case2 method rest start =>
    simp only [List.map_cons, List.sum_cons, valueNames_method, Option.getD_some, List.map_append,
      List.sum_append]
    ac_rfl
  | case3 method rest _ inductionHypothesis | case4 member rest _ inductionHypothesis =>
    rw [List.map_cons, List.map_cons, List.sum_cons, List.sum_cons, inductionHypothesis]
    ac_rfl

/-- Statements at top level keep the types that they name when they move into the script class. -/
theorem names_moveGlobals {globals : List Stmt} {decls : List TypeDecl}
    (script : (decls.find? (·.isScript)).isSome = true) :
    ((moveGlobals globals decls).map fun decl => valueNames (.decl decl)).sum =
      (globals.map fun stmt => valueNames (.stmt stmt)).sum +
        (decls.map fun decl => valueNames (.decl decl)).sum := by
  fun_induction moveGlobals globals decls with
  | case1 => cases script
  | case2 decl rest isScript =>
    simp only [List.map_cons, List.sum_cons, valueNames_decl, names_prependToStart]
    ac_rfl
  | case3 decl rest noScript inductionHypothesis =>
    rw [List.find?_cons_of_neg noScript] at script
    rw [List.map_cons, List.map_cons, List.sum_cons, List.sum_cons, inductionHypothesis script]
    ac_rfl

/-! A class that keeps its own type, in a field and in a variable. -/

namespace Registry

/-- The context with this class only. -/
def setting : Context := ⟨.ofTypes [⟨"Registry", none, .classType, none, [], []⟩], [], false⟩

/-- The name of the class. -/
def name : Expr := .typeRef (Expr.noteOf (.named 0)) (.named 0)

/-- The type of the class as a value. -/
def token : Expr := .typeOf (Expr.noteOf (.named setting.types.wellKnown.systemType)) (.named 0)

/-- The class with the value of the field and that of the variable. -/
def script (field : Option Expr) (kept : Expr) : SourceUnit where
  fileName := "Registry.js"
  imports := []
  implicitImports := []
  decls := [{
    id := 0, name := .plain "Registry", kind := .classType, modifiers := .none, attrs := []
    base := none, interfaces := []
    members := [
      .field ⟨.plain "kind", .named setting.types.wellKnown.systemType, field, .none, [], .unknown⟩,
      .method ⟨.plain "Keep", [], .void,
        some [.declare (.plain "kept") none (.named setting.types.wellKnown.systemType) (some kept)
          .unknown], .none, [], .unknown⟩]
    enumMembers := [], isScript := true, span := .unknown }]
  globals := []
  sourceText := none

end Registry

/-- The types that stand as values after the removal of sugar are those that stood where types do
not become type tokens, each as often as there. -/
theorem unit_typeNames {source result : SourceUnit}
    (lowered : Sugar.unit context source = .ok result) :
    valueNames (.unit result) = keptNames (.unit source) := by
  obtain ⟨decls, walkedDecls, lowered⟩ := gives_bind.1
    (show Gives (Sugar.unit context source) result from lowered)
  have sameDecls : (source.decls.map fun decl => keptNames (.decl decl)).sum =
      (decls.map fun decl => valueNames (.decl decl)).sum := by
    rw [← names_decls walkedDecls, List.map_map]
    exact congrArg List.sum
      (List.map_congr_left fun decl _ => (keptNames_liftChains decl).symm)
  have kept : keptNames (.unit source) = (source.decls.map fun decl => keptNames (.decl decl)).sum +
      (source.globals.map fun stmt => keptNames (.stmt stmt)).sum := by
    rw [keptNames, total_eq, sum_unit]
    exact zero_add _
  rw [kept, sameDecls, valueNames, total_eq, namesAsValues_unit, sum_unit, zero_add]
  split_ifs at lowered with none
  · obtain rfl := gives_pure.1 lowered
    rw [List.isEmpty_iff.1 none]
    rfl
  · split at lowered
    case h_1 => cases lowered
    case h_2 script isScript =>
      obtain ⟨globals, walkedGlobals, finished⟩ := gives_bind.1 lowered
      obtain rfl := gives_pure.1 finished
      rw [names_moveGlobals (Option.isSome_of_eq_some isScript), names_stmts walkedGlobals,
        List.map_nil, List.sum_nil, add_zero, add_comm]

/-- Where a type is named only by the initializer of a variable, no name of it is left. -/
theorem unit_typeNames_registry :
    Sugar.unit Registry.setting (Registry.script none Registry.name) =
      .ok (Registry.script none Registry.token) ∧
    keptNames (.unit (Registry.script none Registry.name)) = 0 ∧
    valueNames (.unit (Registry.script none Registry.token)) = 0 := by
  have lowered : Sugar.unit Registry.setting (Registry.script none Registry.name) =
      .ok (Registry.script none Registry.token) := by
    decide +kernel
  have none : keptNames (.unit (Registry.script none Registry.name)) = 0 := by
    decide +kernel
  exact ⟨lowered, none, (unit_typeNames lowered).trans none⟩

/-- The name of a type that initializes a field stays, while the same name becomes a type token
where it initializes a variable. -/
theorem unit_field_typeName_kept :
    Sugar.unit Registry.setting (Registry.script (some Registry.name) Registry.name) =
      .ok (Registry.script (some Registry.name) Registry.token) ∧
    valueNames (.unit (Registry.script (some Registry.name) Registry.token)) = {.named 0} := by
  refine ⟨by decide +kernel, by decide +kernel⟩

end Lowering.Sugar

end ScriptSharp
