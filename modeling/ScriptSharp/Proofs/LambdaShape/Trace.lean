import ScriptSharp.Proofs.Coercion.Casts
import ScriptSharp.Proofs.LambdaShape.Inference

/-!
# Where locals are declared and used

For the locals of a unit a tree is a list of events: members are entered, scopes are opened and
closed, locals are declared, and references are met. `trace` lists them in the order of the source,
and `Locals` are what can be seen at one of them. Blocks, loops, branches and function literals are
scopes. A local is in scope from its own initializer on.

Putting in casts may repeat a reference, namely when it writes out a compound assignment, and does
nothing else to the list: `covers_walk`.
-/

namespace ScriptSharp.Lowering.LambdaShape

open Outcome Node

/-! ## Events -/

/-- How far a local is declared. -/
inductive Stage where
  /-- Its initializer is not over. -/
  | pending
  /-- A statement has declared it. Inference remembers the local if it is a function. -/
  | declared
  /-- Inference does not see the declaration: the local is the item of a loop, or it stands in an
  attribute of a field. -/
  | unseen
  deriving DecidableEq

/-- A local. -/
structure Local where
  name : String
  ty : Ty
  stage : Stage
  deriving DecidableEq

/-- Inference remembers the local. -/
def Local.isFunction (entry : Local) : Bool :=
  entry.stage = .declared && entry.ty.isDelegate

/-- What happens to locals. -/
inductive Event where
  /-- A member begins. -/
  | entered
  | opened
  | closed
  | bound (entry : Local)
  /-- A reference to a local, with the type that it has. -/
  | referred (name : String) (ty : Ty)
  deriving DecidableEq

/-- The locals at some point of a unit. -/
structure Locals where
  /-- The locals in scope. The innermost scope and the latest local come first. -/
  scopes : List (List Local)
  /-- The functions that the member has declared up to here, also those out of scope. -/
  functions : Scope

namespace Locals

/-- There are no locals yet. -/
def start : Locals := ⟨[[]], []⟩

/-- Puts a local into the innermost scope. -/
def bind (entry : Local) (scopes : List (List Local)) : List (List Local) :=
  (entry :: scopes.headD []) :: scopes.tail

/-- The local that a name stands for. -/
def visible (scopes : List (List Local)) (name : String) : Option Local :=
  scopes.flatten.find? fun entry => entry.name = name

/-- The locals after an event. -/
def advance (locals : Locals) : Event → Locals
  | .entered => start
  | .opened => { locals with scopes := [] :: locals.scopes }
  | .closed => { locals with scopes := locals.scopes.tail }
  | .bound entry =>
    ⟨bind entry locals.scopes,
      if entry.isFunction then (entry.name, entry.ty) :: locals.functions else locals.functions⟩
  | .referred .. => locals

/-- The locals after some events. -/
def after (locals : Locals) (events : List Event) : Locals :=
  events.foldl advance locals

/-- Events in a row change the locals one part after the other. -/
theorem after_append (locals : Locals) (first second : List Event) :
    locals.after (first ++ second) = (locals.after first).after second :=
  List.foldl_append

end Locals

/-- `holds` is true of every event, with the locals that are there before it. -/
def Along (holds : Locals → Event → Prop) : Locals → List Event → Prop
  | _, [] => True
  | locals, event :: rest => holds locals event ∧ Along holds (locals.advance event) rest

instance decidableAlong {holds : Locals → Event → Prop}
    [∀ locals event, Decidable (holds locals event)] :
    (locals : Locals) → (events : List Event) → Decidable (Along holds locals events)
  | _, [] => .isTrue trivial
  | locals, event :: rest =>
    have : Decidable (Along holds (locals.advance event) rest) := decidableAlong _ rest
    inferInstanceAs (Decidable (holds locals event ∧ Along holds (locals.advance event) rest))

/-- What is true along events in a row is true along both parts. -/
theorem along_append {holds : Locals → Event → Prop} {locals : Locals} {first second : List Event} :
    Along holds locals (first ++ second) ↔
      Along holds locals first ∧ Along holds (locals.after first) second := by
  induction first generalizing locals with
  | nil => simp [Along, Locals.after]
  | cons event rest inductionHypothesis =>
    rw [List.cons_append, Along, Along, inductionHypothesis, and_assoc]
    rfl

/-- The second list says nothing that the first one does not say: it leaves the same locals, and
what is true along the first is true along the second. -/
structure Covers (source result : List Event) : Prop where
  after : ∀ locals : Locals, locals.after result = locals.after source
  along : ∀ {holds : Locals → Event → Prop} {locals : Locals},
    Along holds locals source → Along holds locals result

namespace Covers

variable {source between result moreSource moreResult : List Event}

/-- Events cover themselves. -/
theorem refl (events : List Event) : Covers events events :=
  ⟨fun _ => rfl, id⟩

/-- Events cover what covering ones cover. -/
theorem trans (first : Covers source between) (second : Covers between result) :
    Covers source result :=
  ⟨fun locals => (second.after locals).trans (first.after locals), second.along ∘ first.along⟩

/-- Events in a row cover both parts. -/
theorem append (first : Covers source result) (second : Covers moreSource moreResult) :
    Covers (source ++ moreSource) (result ++ moreResult) := by
  constructor
  · intro locals
    rw [Locals.after_append, Locals.after_append, second.after, first.after]
  · intro holds locals along
    obtain ⟨along, more⟩ := along_append.1 along
    refine along_append.2 ⟨first.along along, ?_⟩
    rw [first.after]
    exact second.along more

/-- References may be repeated. -/
theorem twice {events : List Event}
    (referring : ∀ event ∈ events, ∃ name ty, event = .referred name ty) :
    Covers events (events ++ events) := by
  have same (locals : Locals) : locals.after events = locals := by
    induction events with
    | nil => rfl
    | cons event rest inductionHypothesis =>
      obtain ⟨⟨name, ty, rfl⟩, referringRest⟩ := List.forall_mem_cons.1 referring
      exact inductionHypothesis referringRest
  constructor
  · intro locals
    rw [Locals.after_append, same]
  · intro holds locals along
    refine along_append.2 ⟨along, ?_⟩
    rwa [same]

end Covers

/-! ## Traces -/

/-- The node is a scope. -/
def isScope : Node → Bool
  | .expr (.lambda ..) | .member _ => true
  | .stmt (.branch ..) | .stmt (.whileLoop ..) | .stmt (.forLoop ..) | .stmt (.forEach ..)
  | .stmt (.block _) => true
  | _ => false

/-- What happens before the parts of a node. -/
def opening (node : Node) : List Event :=
  match node with
  | .expr (.ident note name .localVariable) => [.referred name.name note.ty]
  | .stmt (.declare name _ ty _ _) => [.opened, .bound ⟨name.name, ty, .pending⟩]
  | .member _ => [.entered, .opened]
  | node => if isScope node then [.opened] else []

/-- What happens before the part at `index`. The branches of a condition are scopes of their own,
and the item of a loop is not in scope where the source of the items stands. -/
def between (node : Node) (index : Nat) : List Event :=
  match node with
  | .stmt (.branch _ thenBody _) => if index = thenBody.length + 1 then [.closed, .opened] else []
  | .stmt (.forEach item itemTy _ _) =>
    if index = 1 then [.bound ⟨item.name, itemTy, .unseen⟩] else []
  | _ => []

/-- What happens after the parts of a node. -/
def closing (seen : Bool) (node : Node) : List Event :=
  match node with
  | .stmt (.declare name _ ty _ _) =>
    [.closed, .bound ⟨name.name, ty, if seen then .declared else .unseen⟩]
  | node => if isScope node then [.closed] else []

/-- Inference sees the part at `index` if it sees the node and the part is no attribute of a
field. -/
def seenBelow (seen : Bool) (node : Node) (index : Nat) : Bool :=
  match node with
  | .member (.field decl) => seen && decide (decl.attrs.length ≤ index)
  | _ => seen

/-- The events at and below a node. Whether inference sees the node is told by `seen`. -/
def trace (seen : Bool) (node : Node) : List Event :=
  opening node ++ (node.children.zipIdx.attach.flatMap (fun entry =>
    between node entry.1.2 ++ trace (seenBelow seen node entry.1.2) entry.1.1) ++
      closing seen node)
termination_by sizeOf node
decreasing_by exact Node.sizeOf_child_lt (List.fst_mem_of_mem_zipIdx entry.2)

/-- The events below the parts of a node, where the first part has the number `start`. -/
def traceBelow (seen : Bool) (node : Node) (start : Nat) (children : List Node) : List Event :=
  (children.zipIdx start).flatMap fun entry =>
    between node entry.2 ++ trace (seenBelow seen node entry.2) entry.1

/-- The trace of a node is what happens before its parts, the traces of the parts, and what happens
after them. -/
theorem trace_eq (seen : Bool) (node : Node) :
    trace seen node =
      opening node ++ (traceBelow seen node 0 node.children ++ closing seen node) := by
  have same := List.attach_map_val (l := node.children.zipIdx)
    (f := fun entry => between node entry.2 ++ trace (seenBelow seen node entry.2) entry.1)
  rw [trace, List.flatMap, same]
  rfl

/-- The traces of parts are that of the first part and those of the others, with what happens
between them. -/
theorem traceBelow_cons (seen : Bool) (node : Node) (start : Nat) (child : Node)
    (rest : List Node) : traceBelow seen node start (child :: rest) =
      between node start ++ trace (seenBelow seen node start) child ++
        traceBelow seen node (start + 1) rest := by
  simp [traceBelow]

/-- Nothing happens between the parts of an expression. -/
theorem traceBelow_expr (seen : Bool) (expr : Expr) (start : Nat) (children : List Node) :
    traceBelow seen (.expr expr) start children = children.flatMap (trace seen) := by
  induction children generalizing start with
  | nil => rfl
  | cons first rest inductionHypothesis =>
    rw [traceBelow_cons, inductionHypothesis]
    rfl

/-- An expression that is neither a function literal nor a reference has the events of its
parts. -/
theorem trace_expr (seen : Bool) {expr : Expr} (quiet : opening (.expr expr) = [])
    (noScope : isScope (.expr expr) = false) :
    trace seen (.expr expr) = (Node.expr expr).children.flatMap (trace seen) := by
  rw [trace_eq, traceBelow_expr, quiet]
  simp [closing, noScope]

/-! Apart from its parts, the trace of a node depends on its shell only. -/

section Shell

variable {source result : Node} (shell : source.shell = result.shell)

include shell in
/-- What happens before the parts does not depend on them. -/
theorem opening_eq : opening source = opening result := by
  have ofShell (node : Node) : opening node.shell = opening node := by
    cases node with
    | expr root => cases root <;> rfl
    | stmt root => cases root <;> rfl
    | _ => rfl
  rw [← ofShell source, shell, ofShell]

include shell in
/-- What happens between the parts does not depend on them. -/
theorem between_eq (index : Nat) : between source index = between result index := by
  have ofShell (node : Node) : between node.shell index = between node index := by
    cases node with
    | stmt root => cases root <;> simp [Node.shell, Stmt.shell, between]
    | _ => rfl
  rw [← ofShell source, shell, ofShell]

include shell in
/-- What happens after the parts does not depend on them. -/
theorem closing_eq (seen : Bool) : closing seen source = closing seen result := by
  have ofShell (node : Node) : closing seen node.shell = closing seen node := by
    cases node with
    | expr root => cases root <;> rfl
    | stmt root => cases root <;> rfl
    | _ => rfl
  rw [← ofShell source, shell, ofShell]

include shell in
/-- Whether inference sees the parts does not depend on them. -/
theorem seenBelow_eq (seen : Bool) (index : Nat) :
    seenBelow seen source index = seenBelow seen result index := by
  have ofShell (node : Node) : seenBelow seen node.shell index = seenBelow seen node index := by
    cases node with
    | member root => cases root <;> simp [Node.shell, Member.shell, seenBelow]
    | _ => rfl
  rw [← ofShell source, shell, ofShell]

end Shell

/-- Nodes of the same shell cover each other if their parts do. -/
theorem covers_of_matches {source result : Node} {seen : Bool}
    (matched : Matches (fun _ child replacement =>
      ∀ seen, Covers (trace seen child) (trace seen replacement)) source result) :
    Covers (trace seen source) (trace seen result) := by
  obtain ⟨shell, parts⟩ := matched
  have below (start : Nat) : Covers (traceBelow seen source start source.children)
      (traceBelow seen result start result.children) := by
    rw [children, children]
    generalize source.parts = sources at parts ⊢
    generalize result.parts = results at parts ⊢
    induction parts generalizing start with
    | nil => exact .refl _
    | cons first _ inductionHypothesis =>
      rw [List.map_cons, List.map_cons, traceBelow_cons, traceBelow_cons, between_eq shell,
        seenBelow_eq shell]
      exact (Covers.append (.refl _) (first.2 _)).append (inductionHypothesis (start + 1))
  rw [trace_eq, trace_eq, opening_eq shell, closing_eq shell]
  exact .append (.refl _) ((below 0).append (.refl _))

/-! ## Casts -/

section Casts

variable {types : TypeTable} {returnType : Option Ty} {seen : Bool}

/-- A cast leaves no trace. -/
theorem trace_castTo (expr : Expr) (ty : Ty) :
    trace seen (.expr (expr.castTo ty)) = trace seen (.expr expr) := by
  rw [Expr.castTo, trace_expr seen rfl rfl]
  simp [children, parts, Expr.parts, Part.value]

/-- An assignment leaves the traces of its target and of its value. -/
theorem trace_assign (note : Note) (op : Option BinaryOp) (target value : Expr) :
    trace seen (.expr (.assign note op target value)) =
      trace seen (.expr target) ++ trace seen (.expr value) := by
  rw [trace_expr seen rfl rfl]
  simp [children, parts, Expr.parts, Part.value, Part.target]

/-- An operation leaves the traces of its operands. -/
theorem trace_binary (note : Note) (op : BinaryOp) (left right : Expr) :
    trace seen (.expr (.binary note op left right)) =
      trace seen (.expr left) ++ trace seen (.expr right) := by
  rw [trace_expr seen rfl rfl]
  simp [children, parts, Expr.parts, Part.value]

/-- A repeatable expression declares no locals. -/
theorem referring_of_repeatable (node : Node) {expr : Expr} (isExpr : node = .expr expr)
    (repeatable : Coercion.isRepeatable expr = true) :
    ∀ event ∈ trace seen node, ∃ name ty, event = .referred name ty := by
  induction node using Node.induct generalizing expr seen with
  | step node inductionHypothesis =>
    subst isExpr
    have noClosing : closing seen (.expr expr) = [] := by
      cases expr <;> first | rfl | cases repeatable
    intro event member
    rw [trace_eq, noClosing, List.append_nil] at member
    rcases List.mem_append.1 member with here | below
    · cases expr
      case ident note name binding =>
        cases binding <;> first | exact ⟨_, _, List.mem_singleton.1 here⟩ | cases here
      case lambda => cases noClosing
      all_goals cases here
    · obtain ⟨entry, entryOf, below⟩ := List.mem_flatMap.1 below
      have childOf := List.fst_mem_of_mem_zipIdx entryOf
      obtain ⟨inner, isInner, inside⟩ := Coercion.repeatable_child repeatable childOf
      exact inductionHypothesis _ childOf isInner inside event below

/-- An assignment that is written out only repeats references of its target. -/
theorem covers_writtenOut {note : Note} {op : BinaryOp} {target value : Expr}
    (repeatable : Coercion.isRepeatable target = true) :
    Covers (trace seen (.expr (.assign note (some op) target value)))
      (trace seen (.expr (Coercion.writtenOut note op target value))) := by
  rw [Coercion.writtenOut, Coercion.operation, trace_assign, trace_assign, trace_castTo,
    trace_binary, ← List.append_assoc]
  exact .append (.twice (referring_of_repeatable _ rfl repeatable)) (.refl _)

/-- Putting casts in only repeats references. -/
theorem covers_leaveNode {node result : Node}
    (finished : Gives ((Coercion.traversal types).leaveNode returnType node) result) :
    Covers (trace seen node) (trace seen result) := by
  rcases Coercion.leaveNode_cases finished with
    ⟨-, casts⟩ | ⟨note, op, target, value, rfl, expanded, rfl⟩
  · refine covers_of_matches (casts.imp fun _ casted seen => ?_)
    cases casted with
    | unchanged => exact .refl _
    | cast =>
      rw [trace_castTo]
      exact .refl _
  · obtain ⟨final, finishedRoot, -⟩ := gives_bind.1 finished
    exact covers_writtenOut (Coercion.repeatable_of_expands finishedRoot expanded)

/-- Putting in casts repeats references at most. -/
theorem covers_walk (node : Node) {result : Node}
    (walked : Gives ((Coercion.traversal types).node returnType node) result) :
    Covers (trace seen node) (trace seen result) := by
  induction node using Node.induct generalizing returnType result seen with
  | step node inductionHypothesis =>
    obtain ⟨rebuilt, matched, left⟩ := Coercion.walk_matches walked
    have parts : Covers (trace seen node) (trace seen rebuilt) :=
      covers_of_matches (matched.imp fun part replaced seen =>
        inductionHypothesis _ (mem_children_of_part part) replaced)
    exact parts.trans (covers_leaveNode left)

end Casts

end ScriptSharp.Lowering.LambdaShape
