import ScriptSharp.Proofs.ValueChain.Temporaries
import ScriptSharp.Proofs.ValueChain.WriteBack

/-!
# Names of temporaries

The temporaries of a block are numbered from one on, whatever the names around them are. So they
differ from each other, but a variable of the program may have the name of one of them, and the
blocks inside a value count from one again. `Fresh` says that neither happens for a change, and
`unit_fresh_iff` that this is exactly when the change mentions none of the names and nothing in its
value is taken apart.
-/

namespace ScriptSharp

namespace Node

/-- The variables that the node itself refers to or declares. Members that are reached through a
receiver are none. -/
def ownVariables : Node → List String
  | .expr (.ident _ name _) => [name.name]
  | .expr (.lambda _ params _ _) => params.map (·.name.name)
  | .stmt (.declare name _ _ _ _) => [name.name]
  | .stmt (.forEach item _ _ _) => [item.name]
  | _ => []

/-- No variable of this name is referred to or declared in the node. -/
abbrev Unused (name : String) : Node → Prop :=
  Throughout fun node => name ∉ node.ownVariables

/-- A name is used in a node where it is used by it or below one of its parts. -/
theorem unused_iff {name : String} {node : Node} : Unused name node ↔
    name ∉ node.ownVariables ∧ ∀ child ∈ node.children, Unused name child :=
  throughout_iff

/-- The variables of a node itself are told by its shell. -/
theorem ownVariables_of_shell {left right : Node} (shell : left.shell = right.shell) :
    left.ownVariables = right.ownVariables := by
  cases left <;> cases right <;>
    simp only [Node.shell, reduceCtorEq, Node.expr.injEq, Node.stmt.injEq] at shell
  case expr.expr left right =>
    cases left <;> cases right <;> simp only [Expr.shell, reduceCtorEq] at shell
    case ident.ident =>
      obtain ⟨-, rfl, -⟩ := Expr.ident.inj shell
      rfl
    case lambda.lambda =>
      obtain ⟨-, rfl, -⟩ := Expr.lambda.inj shell
      rfl
    all_goals rfl
  case stmt.stmt left right =>
    cases left <;> cases right <;> simp only [Stmt.shell, reduceCtorEq] at shell
    case declare.declare =>
      obtain ⟨rfl, -⟩ := Stmt.declare.inj shell
      rfl
    case forEach.forEach =>
      obtain ⟨rfl, -⟩ := Stmt.forEach.inj shell
      rfl
    all_goals rfl
  all_goals rfl

section Forms

variable {name : String} {note : Note} {inner target : Expr}

/-- A node that uses no variable itself uses those of its parts. -/
theorem unused_of_plain {node : Node} (plain : node.ownVariables = []) :
    Unused name node ↔ ∀ child ∈ node.children, Unused name child := by
  rw [unused_iff, plain]
  exact and_iff_right List.not_mem_nil

/-- Parentheses use no variable. -/
theorem unused_paren : Unused name (.expr (.paren note inner)) ↔ Unused name (.expr inner) := by
  rw [unused_of_plain rfl]
  simp [children, parts, Expr.parts, Part.value]

/-- A member access uses the variables of its receiver. -/
theorem unused_member {ident : Ident} {binding : MemberBinding} :
    Unused name (.expr (.member note target ident binding)) ↔ Unused name (.expr target) := by
  rw [unused_of_plain rfl]
  simp [children, parts, Expr.parts, Part.value]

/-- An expression statement uses the variables of its expression. -/
theorem unused_exprStmt : Unused name (.stmt (.expr inner)) ↔ Unused name (.expr inner) := by
  rw [unused_of_plain rfl]
  simp [children, parts, Stmt.parts, Part.value]

/-- A declaration uses its own variable and those of its value. -/
theorem unused_declare {ident : Ident} {declared : Option Ty} {ty : Ty} {span : Span} :
    Unused name (.stmt (.declare ident declared ty (some inner) span)) ↔
      name ≠ ident.name ∧ Unused name (.expr inner) := by
  rw [unused_iff]
  simp [ownVariables, children, parts, Stmt.parts, Part.value]

/-- A block uses the variables of its statements. -/
theorem unused_block {body : List Stmt} :
    Unused name (.stmt (.block body)) ↔ ∀ stmt ∈ body, Unused name (.stmt stmt) := by
  rw [unused_of_plain rfl]
  simp [children, parts, Stmt.parts, Part.stmt]

end Forms

end Node

namespace Lowering.ValueChain

open Outcome Node

variable {types : TypeTable} {name : String}

/-! ## Blocks -/

/-- An expression uses the variables of its root, since the accesses of a run use none. -/
theorem unused_run (types : TypeTable) (expr : Expr) :
    Unused name (.expr expr) ↔ Unused name (.expr (run types expr).1) := by
  fun_induction run types expr with
  | case1 note inner inductionHypothesis => rw [unused_paren, inductionHypothesis]
  | case2 note target member binding _ inductionHypothesis =>
    rw [unused_member, inductionHypothesis]
  | case3 => rfl
  | case4 => rfl

/-- The target of a change uses the variables of its receiver. -/
theorem unused_memberTarget {target receiver : Expr} {note : Note} {member : Ident}
    {binding : MemberBinding}
    (assigned : memberTarget? target = some (note, receiver, member, binding)) :
    Unused name (.expr target) ↔ Unused name (.expr receiver) := by
  induction target using Expr.stripParens.induct with
  | case1 parenNote inner inductionHypothesis => rw [unused_paren, inductionHypothesis assigned]
  | case2 target noParen =>
    cases target
    case paren => exact (noParen _ _ rfl).elim
    case member =>
      simp only [memberTarget?, Expr.stripParens, Option.some.injEq, Prod.mk.injEq] at assigned
      obtain ⟨-, rfl, -⟩ := assigned
      exact unused_member
    all_goals cases assigned

/-- The variables of a change are those of its target and of its value. -/
theorem unused_change {change : Change} {note : Note} {target : Expr} :
    Unused name (.stmt (.expr (change.expr note target))) ↔
      Unused name (.expr target) ∧
        ∀ value, change.value? = some value → Unused name (.expr value) := by
  rw [unused_exprStmt, unused_iff, children_change]
  cases change <;> simp [ownVariables, Change.expr, Change.value?]

/-- What a run starts from stands in the block, in the first read or in the changed member. -/
theorem unused_of_steps (segments : List Segment) {number : Nat} {receiver : Expr}
    (reads : ∀ stmt ∈ (steps number receiver segments).reads, Unused name (.stmt stmt))
    (inner : Unused name (.expr (steps number receiver segments).receiver)) :
    Unused name (.expr receiver) := by
  induction segments generalizing number receiver with
  | nil => exact inner
  | cons segment rest inductionHypothesis =>
    rw [steps] at reads inner
    split at reads
    case isTrue copied =>
      have first := reads _ List.mem_cons_self
      exact unused_member.1 (unused_declare.1 first).2
    case isFalse inPlace =>
      rw [if_neg inPlace] at inner
      exact unused_member.1 (inductionHypothesis reads inner)

/-- The root of a change stands in its block. -/
theorem unused_root_of_block {change : Change} {root : Expr} {segments : List Segment} {ty : Ty}
    {span changeSpan : Span} {member : Ident} {binding : MemberBinding}
    (unused : Unused name
      (.stmt (.block (blockBody change root segments ty span changeSpan member binding)))) :
    Unused name (.expr root) := by
  simp only [unused_block, blockBody, List.forall_mem_append, List.forall_mem_singleton,
    unused_exprStmt] at unused
  obtain ⟨⟨⟨-, reads⟩, changed⟩, -⟩ := unused
  refine unused_of_steps segments reads ?_
  cases change with
  | assign op value => exact unused_member.1 (changed.inside List.mem_cons_self)
  | step op steps => exact unused_member.1 (changed.inside List.mem_cons_self)

/-- What a block declares is in use there. -/
theorem ne_of_unused_block {body : List Stmt} {declared : String}
    (unused : Unused name (.stmt (.block body))) (member : declared ∈ declaredNames body) :
    name ≠ declared := by
  obtain ⟨stmt, stands, declares⟩ := List.mem_filterMap.1 member
  have here := (unused_block.1 unused stmt stands).here
  cases stmt <;> simp only [Option.some.injEq, reduceCtorEq] at declares
  subst declares
  simpa [ownVariables] using here

/-- Every block declares the first temporary. -/
theorem first_mem_declaredNames {change : Change} {root : Expr} {segments : List Segment} {ty : Ty}
    {span changeSpan : Span} {member : Ident} {binding : MemberBinding}
    (copied : segments.any Segment.isProperty = true) :
    temporaryName 1 ∈
      declaredNames (blockBody change root segments ty span changeSpan member binding) := by
  refine mem_declaredNames_blockBody le_rfl ?_
  have some : 0 < (properties segments).length := by
    obtain ⟨segment, stands, property⟩ := List.any_eq_true.1 copied
    exact List.length_pos_of_mem (List.mem_filter.2 ⟨stands, property⟩)
  cases change <;> simp only [Change.firstCopy] <;> omega

/-- The temporaries of a block are numbered from one on. -/
theorem declaredNames_eq_range {change : Change} {root : Expr} {segments : List Segment} {ty : Ty}
    {span changeSpan : Span} {member : Ident} {binding : MemberBinding} :
    declaredNames (blockBody change root segments ty span changeSpan member binding) =
      (List.range' 1 (change.value?.toList.length + (properties segments).length)).map
        temporaryName := by
  rw [declaredNames_blockBody]
  cases change with
  | step op steps =>
    simp [Change.opening, declaredNames, Change.firstCopy, Change.value?]
  | assign op value =>
    simp [Change.opening, declaredNames, declareTemporary, Change.firstCopy, Change.value?,
      Ident.plain, Nat.add_comm 1, List.range'_succ]

/-- A block declares every name once. -/
theorem nodup_declaredNames {change : Change} {root : Expr} {segments : List Segment} {ty : Ty}
    {span changeSpan : Span} {member : Ident} {binding : MemberBinding} :
    (declaredNames (blockBody change root segments ty span changeSpan member binding)).Nodup := by
  rw [declaredNames_eq_range]
  exact List.Nodup.map temporaryName_injective List.nodup_range'

/-! ## The walk -/

/-- A name that is not used in a tree is not used in a node of it. -/
theorem unused_of_inside {tree node : Node} (stands : Inside tree node)
    (unused : Unused name tree) :
    Unused name node := by
  obtain ⟨_, everywhere⟩ := exists_scope unused stands
  exact everywhere

/-- A target that is reached through a copy has a copy in its run. -/
theorem copied_of_chained {target receiver : Expr} {note : Note} {member : Ident}
    {binding : MemberBinding}
    (assigned : memberTarget? target = some (note, receiver, member, binding))
    (chained : isChained types target = true) :
    (run types receiver).2.any Segment.isProperty = true := by
  simpa [isChained, assigned, splitChain?_isSome, crossesCopy] using chained

/-- The walk loses no variable. -/
theorem unused_of_walk (node : Node) {result : Node}
    (walked : Gives ((traversal types).node .value node) result) (unused : Unused name result) :
    Unused name node := by
  fun_induction splits types node generalizing result with
  | case1 node inductionHypothesis =>
    have inside : ∀ child ∈ visited types node, Unused name child := by
      intro child member
      obtain ⟨replacement, replaced, stands⟩ := exists_replacement walked member
      exact inductionHypothesis ⟨child, member⟩ replaced (unused_of_inside stands unused)
    cases found : split? types node with
    | none =>
      refine unused_iff.2 ⟨?_, ?_⟩
      · rw [ownVariables_of_shell (walk_kept found walked).shell]
        exact unused.here
      · simpa [visited, found] using inside
    | some split =>
      obtain ⟨change, note, memberNote, target, receiver, member, binding, rfl, assigned, chained,
        -⟩ := split?_eq_some found
      obtain ⟨walkedChange, rfl, -⟩ := walk_change_block assigned chained walked
      refine unused_change.2 ⟨?_, ?_⟩
      · rw [unused_memberTarget assigned, unused_run types]
        exact unused_root_of_block unused
      · simpa [visited, found, assignedValue_change] using inside

/-- Whatever has a statement that is taken apart uses the first temporary afterwards. -/
theorem splits_eq_nil_of_unused (node : Node) {result : Node}
    (walked : Gives ((traversal types).node .value node) result)
    (unused : Unused (temporaryName 1) result) : splits types node = [] := by
  fun_induction splits types node generalizing result with
  | case1 node inductionHypothesis =>
    rw [List.append_eq_nil_iff]
    refine ⟨?_, ?_⟩
    · cases found : split? types node with
      | none => rfl
      | some split =>
        obtain ⟨change, note, memberNote, target, receiver, member, binding, rfl, assigned, chained,
          -⟩ := split?_eq_some found
        obtain ⟨walkedChange, rfl, -⟩ := walk_change_block assigned chained walked
        refine absurd rfl (ne_of_unused_block unused ?_)
        exact first_mem_declaredNames (copied_of_chained assigned chained)
    · rw [List.flatMap_eq_nil_iff]
      rintro child -
      obtain ⟨replacement, replaced, stands⟩ := exists_replacement walked child.2
      exact inductionHypothesis child replaced (unused_of_inside stands unused)

/-- What has no statement to take apart stays as it is. -/
theorem eq_of_splits_eq_nil (node : Node) {result : Node}
    (walked : Gives ((traversal types).node .value node) result)
    (whole : splits types node = []) : node = result := by
  induction node using Node.induct generalizing result with
  | step node inductionHypothesis =>
    rw [splits_eq, List.append_eq_nil_iff] at whole
    have found : split? types node = none := Option.toList_eq_nil_iff.1 whole.1
    refine ((walk_kept found walked).imp fun {_ child replacement} part replaced => ?_).eq
    have member : child ∈ node.children := mem_children_of_part part
    refine inductionHypothesis child member replaced (List.flatMap_eq_nil_iff.1 whole.2 child ?_)
    simpa [visited, found] using member

/-- Names that the first temporary is among are unused in what became of a node exactly when they
are unused in the node and nothing in it is taken apart. -/
theorem unused_walk_iff {node result : Node} {names : List String}
    (walked : Gives ((traversal types).node .value node) result)
    (first : temporaryName 1 ∈ names) :
    (∀ name ∈ names, Unused name result) ↔
      (∀ name ∈ names, Unused name node) ∧ splits types node = [] := by
  constructor
  · intro unused
    exact ⟨fun name member => unused_of_walk node walked (unused name member),
      splits_eq_nil_of_unused node walked (unused _ first)⟩
  · rintro ⟨unused, whole⟩
    rwa [← eq_of_splits_eq_nil node walked whole]

/-! ## Statements of a unit -/

/-- The names that a block declares for a change of `target` are fresh. -/
structure Fresh (types : TypeTable) (expr target : Expr) (body : List Stmt) : Prop where
  /-- No two of them are the same. -/
  distinct : (declaredNames body).Nodup
  /-- None of them is the name of a variable of the target. -/
  target : ∀ name ∈ declaredNames body, Unused name (.expr target)
  /-- None of them is the name of a variable of what became of the value. -/
  value : ∀ value ∈ assignedValue (.stmt (.expr expr)), ∃ result,
    Gives ((traversal types).node .value value) result ∧
      ∀ name ∈ declaredNames body, Unused name result

/-- When the changes of a unit have been taken apart, the names that the block for a change declares
are distinct. They are fresh exactly when no variable of the change has one of them and nothing in
its value was taken apart. -/
theorem unit_fresh_iff {source result : SourceUnit}
    (finished : ValueChain.unit types source = .ok result) {expr target : Expr}
    (reached : Reached types (.unit source) (.stmt (.expr expr)))
    (changes : changed? expr = some target) (chained : isChained types target = true) :
    ∃ body, (traversal types).stmt .value (.expr expr) = .ok (.block body) ∧
      Inside (.unit result) (.stmt (.block body)) ∧ (declaredNames body).Nodup ∧
      (Fresh types expr target body ↔
        (∀ name ∈ declaredNames body, Unused name (.stmt (.expr expr))) ∧
          ∀ value ∈ assignedValue (.stmt (.expr expr)), splits types value = []) := by
  obtain ⟨change, walkedChange, note, memberNote, receiver, member, binding, body, rfl, assigned,
    isBody, walkedStmt, replaced, stands, -⟩ := exists_change_block finished reached changes chained
  have distinct : (declaredNames body).Nodup := by
    rw [isBody]
    exact nodup_declaredNames
  have first : temporaryName 1 ∈ declaredNames body := by
    rw [isBody]
    exact first_mem_declaredNames (copied_of_chained assigned chained)
  refine ⟨body, walkedStmt, stands, distinct, ?_⟩
  constructor
  · rintro ⟨-, onTarget, onValue⟩
    -- A statement in the value that is taken apart declares the first name too.
    have values : ∀ value ∈ assignedValue (.stmt (.expr (change.expr note target))),
        (∀ name ∈ declaredNames body, Unused name value) ∧ splits types value = [] := by
      intro value isValue
      obtain ⟨walkedValue, replacedValue, unused⟩ := onValue value isValue
      exact (unused_walk_iff replacedValue first).1 unused
    refine ⟨fun name member => ?_, fun value isValue => (values value isValue).2⟩
    refine unused_change.2 ⟨onTarget name member, fun value isValue => ?_⟩
    refine (values (.expr value) ?_).1 name member
    simp [assignedValue_change, isValue]
  · rintro ⟨unused, whole⟩
    refine ⟨distinct, fun name member => (unused_change.1 (unused name member)).1,
      fun value isValue => ?_⟩
    have isVisited : value ∈ visited types (.stmt (.expr (change.expr note target))) := by
      rwa [visited, split?_isSome, Change.changesCopy_expr, if_pos chained]
    obtain ⟨walkedValue, replacedValue, -⟩ := exists_replacement replaced isVisited
    refine ⟨walkedValue, replacedValue, ?_⟩
    refine (unused_walk_iff replacedValue first).2 ⟨fun name member => ?_, whole value isValue⟩
    rw [assignedValue_change] at isValue
    obtain ⟨assignedExpr, isAssigned, rfl⟩ := List.mem_map.1 isValue
    exact (unused_change.1 (unused name member)).2 _ (Option.mem_toList.1 isAssigned)

/-- The block of `body.position.x = next()` declares two names that are fresh. -/
theorem unit_fresh_next :
    ValueChain.unit Walker.table (Walker.script (Walker.place Walker.body Walker.next)) =
        .ok (Walker.script (Walker.placed Walker.body Walker.next)) ∧
      ∃ body, (traversal Walker.table).stmt .value (Walker.place Walker.body Walker.next) =
          .ok (.block body) ∧ declaredNames body = ["_1", "_2"] ∧
        Fresh Walker.table ((Walker.x (Walker.position Walker.body)).assignTo Walker.next)
          (Walker.x (Walker.position Walker.body)) body := by
  have finished : ValueChain.unit Walker.table
      (Walker.script (Walker.place Walker.body Walker.next)) =
        .ok (Walker.script (Walker.placed Walker.body Walker.next)) := by decide +kernel
  have reached : Reached Walker.table
      (.unit (Walker.script (Walker.place Walker.body Walker.next)))
      (.stmt (Walker.place Walker.body Walker.next)) :=
    .tail (.tail (.single (.head _)) (.head _)) (.head _)
  obtain ⟨body, walked, -, -, fresh⟩ :=
    unit_fresh_iff finished reached rfl (by decide +kernel)
  have placed : (traversal Walker.table).stmt .value (Walker.place Walker.body Walker.next) =
      .ok (Walker.placed Walker.body Walker.next) := by decide +kernel
  obtain rfl := Stmt.block.inj (Except.ok.inj (walked.symm.trans placed))
  refine ⟨finished, _, placed, by decide +kernel, fresh.2 ⟨?_, ?_⟩⟩
  · exact List.forall_mem_cons.2 ⟨.of_check 6 (by decide +kernel),
      List.forall_mem_singleton.2 (.of_check 6 (by decide +kernel))⟩
  · exact List.forall_mem_singleton.2 (by decide +kernel)

/-- The assignment `body.position.x = _2` reads a variable of the program. In its block the name
belongs to the copy of the position. -/
theorem unit_variable_captured :
    ValueChain.unit Walker.table
        (Walker.script (Walker.place Walker.body (.localRef "_2" .int))) =
        .ok (Walker.script (Walker.placed Walker.body (.localRef "_2" .int))) ∧
      ∃ body, Walker.placed Walker.body (.localRef "_2" .int) = .block body ∧
        "_2" ∈ declaredNames body ∧
        ¬Fresh Walker.table
          ((Walker.x (Walker.position Walker.body)).assignTo (.localRef "_2" .int))
          (Walker.x (Walker.position Walker.body)) body := by
  refine ⟨by decide +kernel, _, rfl, by decide +kernel, fun fresh => ?_⟩
  obtain ⟨result, walked, unused⟩ := fresh.value _ List.mem_cons_self
  obtain rfl : .expr (.localRef "_2" .int) = result := Except.ok.inj walked
  exact (unused "_2" (by decide +kernel)).here List.mem_cons_self

end Lowering.ValueChain

end ScriptSharp
