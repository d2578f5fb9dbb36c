import ScriptSharp.Proofs.Tree.Matching
import ScriptSharp.Tree.Traversal

/-!
# What a walk does at one node

A walk enters a node, walks its parts, and leaves the node made of the finished parts. The
theorems here say this once for all kinds of nodes: `DeclTraversal.node_matches` takes a
finished walk apart, and `DeclTraversal.node_keeps` puts one together from parts that stay as they
are.
-/

namespace ScriptSharp

/-- A monad whose computations give one value or none. -/
class Outcome (m : Type → Type) [Monad m] where
  /-- The computation ends with this value. -/
  Gives {α : Type} (computation : m α) (value : α) : Prop
  gives_pure {α : Type} {given value : α} : Gives (pure given) value ↔ value = given
  gives_bind {α β : Type} {first : m α} {next : α → m β} {value : β} :
    Gives (first >>= next) value ↔ ∃ between, Gives first between ∧ Gives (next between) value

open Outcome

instance : Outcome Id where
  Gives computation value := computation.run = value
  gives_pure := eq_comm
  gives_bind := by simp

instance {ε : Type} : Outcome (Except ε) where
  Gives computation value := computation = .ok value
  gives_pure := by
    intro α given value
    constructor
    · rintro ⟨⟩
      rfl
    · rintro rfl
      rfl
  gives_bind := by
    intro α β first next value
    cases first with
    | error fault => simp [bind, Except.bind]
    | ok between => simp [bind, Except.bind]

variable {m : Type → Type} [Monad m] {ρ : Type}

/-- A walk of a list gives what the walks of its items give, one by one. -/
theorem Outcome.gives_mapM [Outcome m] [LawfulMonad m] {α β : Type} {step : α → m β}
    {items : List α} {results : List β} :
    Gives (items.mapM step) results ↔
      List.Forall₂ (fun item result => Gives (step item) result) items results := by
  induction items generalizing results with
  | nil => simp [gives_pure]
  | cons first rest inductionHypothesis =>
    simp only [List.mapM_cons, gives_bind, gives_pure, inductionHypothesis,
      List.forall₂_cons_left_iff]
    grind

/-- What is carried into a part of an expression. -/
def Descent.carried (below : Descent ρ) : Slot → ρ
  | .target => below.target
  | .value | .nested => below.parts

namespace Traversal

/-- Walks the parts of the body of a function literal, where `carried` is what reaches each kind
of part. -/
def withinBody (traversal : Traversal m ρ) (carried : Slot → ρ) : LambdaBody → m LambdaBody
  | .expr value => do
    let value ← traversal.expr (carried .value) value
    return .expr value
  | .block body => do
    let body ← traversal.stmts (carried .nested) body
    return .block body

/-- Walks the parts of an expression. -/
def within (traversal : Traversal m ρ) (carried : Slot → ρ) : Expr → m Expr
  | .member note target name binding => do
    let target ← traversal.expr (carried .value) target
    return .member note target name binding
  | .invoke note callee typeArgs args signature => do
    let callee ← traversal.expr (carried .value) callee
    let args ← traversal.exprs (carried .value) args
    return .invoke note callee typeArgs args signature
  | .index note target indices => do
    let target ← traversal.expr (carried .value) target
    let indices ← traversal.exprs (carried .value) indices
    return .index note target indices
  | .binary note op left right => do
    let left ← traversal.expr (carried .value) left
    let right ← traversal.expr (carried .value) right
    return .binary note op left right
  | .unary note op operand => do
    let operand ← traversal.expr (carried .value) operand
    return .unary note op operand
  | .ternary note condition thenValue elseValue => do
    let condition ← traversal.expr (carried .value) condition
    let thenValue ← traversal.expr (carried .value) thenValue
    let elseValue ← traversal.expr (carried .value) elseValue
    return .ternary note condition thenValue elseValue
  | .cast note operand target synthesized => do
    let operand ← traversal.expr (carried .value) operand
    return .cast note operand target synthesized
  | .tryCast note operand target => do
    let operand ← traversal.expr (carried .value) operand
    return .tryCast note operand target
  | .construct note constructed args signature => do
    let args ← traversal.exprs (carried .value) args
    return .construct note constructed args signature
  | .newArray note element size => do
    let size ← traversal.expr (carried .value) size
    return .newArray note element size
  | .lambda note params ret body => do
    let body ← traversal.withinBody carried body
    return .lambda note params ret body
  | .array note element items => do
    let items ← traversal.exprs (carried .value) items
    return .array note element items
  | .map note entries => do
    let entries ← traversal.entries (carried .value) entries
    return .map note entries
  | .assign note op target value => do
    let target ← traversal.expr (carried .target) target
    let value ← traversal.expr (carried .value) value
    return .assign note op target value
  | .paren note inner => do
    let inner ← traversal.expr (carried .value) inner
    return .paren note inner
  | leaf => pure leaf

/-- Walks the parts of a statement. -/
def withinStmt (traversal : Traversal m ρ) (carried : Slot → ρ) : Stmt → m Stmt
  | .expr value => do
    let value ← traversal.expr (carried .value) value
    return .expr value
  | .declare name declared ty init span => do
    let init ← traversal.optional (carried .value) init
    return .declare name declared ty init span
  | .branch condition thenBody elseBody => do
    let condition ← traversal.expr (carried .value) condition
    let thenBody ← traversal.stmts (carried .nested) thenBody
    let elseBody ← traversal.block? (carried .nested) elseBody
    return .branch condition thenBody elseBody
  | .whileLoop condition body => do
    let condition ← traversal.expr (carried .value) condition
    let body ← traversal.stmts (carried .nested) body
    return .whileLoop condition body
  | .forLoop init condition step body => do
    let init ← traversal.stmts (carried .nested) init
    let condition ← traversal.optional (carried .value) condition
    let step ← traversal.exprs (carried .value) step
    let body ← traversal.stmts (carried .nested) body
    return .forLoop init condition step body
  | .forEach item itemTy source body => do
    let source ← traversal.expr (carried .value) source
    let body ← traversal.stmts (carried .nested) body
    return .forEach item itemTy source body
  | .ret value span => do
    let value ← traversal.optional (carried .value) value
    return .ret value span
  | .throw value => do
    let value ← traversal.expr (carried .value) value
    return .throw value
  | .block body => do
    let body ← traversal.stmts (carried .nested) body
    return .block body
  | leaf => pure leaf

/-- What is carried into a part of a statement. -/
def carriedStmt (traversal : Traversal m ρ) (env : ρ) (stmt : Stmt) : Slot → ρ
  | .nested => env
  | .target | .value => traversal.enterStmt env stmt

/-- The walk of an expression is the step around what is done within it. -/
theorem expr_eq_around (traversal : Traversal m ρ) (env : ρ) (expr : Expr) :
    traversal.expr env expr = traversal.around env expr fun below =>
      traversal.within below.carried expr := by
  cases expr with
  | lambda note params ret body => cases body <;> rfl
  | _ => rfl

/-- The walk of a statement goes within it and leaves it. -/
theorem stmt_eq_within [LawfulMonad m] (traversal : Traversal m ρ) (env : ρ) (stmt : Stmt) :
    traversal.stmt env stmt =
      traversal.withinStmt (traversal.carriedStmt env stmt) stmt >>= traversal.leaveStmt env := by
  cases stmt <;> simp [Traversal.stmt, withinStmt, carriedStmt]

end Traversal

namespace DeclTraversal

/-- Walks a node. -/
def node (traversal : DeclTraversal m ρ) (env : ρ) : Node → m Node
  | .expr root => do
    let root ← traversal.expr env root
    return .expr root
  | .stmt root => do
    let root ← traversal.stmt env root
    return .stmt root
  | .attr root => do
    let root ← traversal.attr env root
    return .attr root
  | .member root => do
    let root ← traversal.member env root
    return .member root
  | .decl root => do
    let root ← traversal.decl env root
    return .decl root
  | .unit root => do
    let root ← traversal.unit env root
    return .unit root

/-- What is carried into the parts of a node, unless the walk leaves the node as it is. -/
def enterNode (traversal : DeclTraversal m ρ) (env : ρ) : Node → m (Option (Slot → ρ))
  | .expr root => do
    let below ← traversal.enter env root
    return below.map Descent.carried
  | .stmt root => pure (some (traversal.carriedStmt env root))
  | .attr _ => pure (some fun _ => env)
  | .member root => pure (some fun _ => traversal.enterMember env root)
  | .decl root => pure (some fun _ => traversal.enterDecl env root)
  | .unit _ => pure (some fun _ => env)

/-- What the walk makes of a node with finished parts. -/
def leaveNode (traversal : DeclTraversal m ρ) (env : ρ) : Node → m Node
  | .expr root => do
    let root ← traversal.leave env root
    return .expr root
  | .stmt root => do
    let root ← traversal.leaveStmt env root
    return .stmt root
  | .attr root => do
    let root ← traversal.leaveAttribute env root
    return .attr root
  | .member root => do
    let root ← traversal.leaveMember env root
    return .member root
  | .decl root => do
    let root ← traversal.leaveDecl env root
    return .decl root
  | .unit root => pure (.unit root)

variable [Outcome m]

/-- The walk of a part gives this replacement, where `carried` is what reaches each kind of
part. -/
def Replaces (traversal : DeclTraversal m ρ) (carried : Slot → ρ) (slot : Slot)
    (part replacement : Node) : Prop :=
  Gives (traversal.node (carried slot) part) replacement

variable {traversal : DeclTraversal m ρ} {env : ρ} {carried : Slot → ρ}

/-! ## The parts, list by list -/

/-- An expression is replaced by what the walk makes of it. -/
@[simp]
theorem replaces_expr {slot : Slot} {expr replacement : Expr} :
    traversal.Replaces carried slot (.expr expr) (.expr replacement) ↔
      Gives (traversal.expr (carried slot) expr) replacement := by
  simp [Replaces, node, gives_bind, gives_pure]

/-- A statement is replaced by what the walk makes of it. -/
@[simp]
theorem replaces_stmt {slot : Slot} {stmt replacement : Stmt} :
    traversal.Replaces carried slot (.stmt stmt) (.stmt replacement) ↔
      Gives (traversal.stmt (carried slot) stmt) replacement := by
  simp [Replaces, node, gives_bind, gives_pure]

/-- An attribute is replaced by what the walk makes of it. -/
@[simp]
theorem replaces_attr {slot : Slot} {attr replacement : Attribute} :
    traversal.Replaces carried slot (.attr attr) (.attr replacement) ↔
      Gives (traversal.attr (carried slot) attr) replacement := by
  simp [Replaces, node, gives_bind, gives_pure]

/-- A member is replaced by what the walk makes of it. -/
@[simp]
theorem replaces_member {slot : Slot} {member replacement : Member} :
    traversal.Replaces carried slot (.member member) (.member replacement) ↔
      Gives (traversal.member (carried slot) member) replacement := by
  simp [Replaces, node, gives_bind, gives_pure]

/-- A declaration is replaced by what the walk makes of it. -/
@[simp]
theorem replaces_decl {slot : Slot} {decl replacement : TypeDecl} :
    traversal.Replaces carried slot (.decl decl) (.decl replacement) ↔
      Gives (traversal.decl (carried slot) decl) replacement := by
  simp [Replaces, node, gives_bind, gives_pure]

/-- Expressions are replaced one by one if the walk makes one list of the other. -/
theorem related_values (carried : Slot → ρ) {exprs replacements : List Expr} :
    List.Forall₂ (Part.Related (traversal.Replaces carried)) (exprs.map .value)
      (replacements.map .value) ↔ Gives (traversal.exprs (carried .value) exprs) replacements := by
  induction exprs generalizing replacements with
  | nil => simp [Traversal.exprs, gives_pure]
  | cons first rest inductionHypothesis =>
    cases replacements with
    | nil => simp [Traversal.exprs, gives_bind, gives_pure]
    | cons other others =>
      simp [Traversal.exprs, gives_bind, gives_pure, inductionHypothesis, Part.Related, Part.value]

/-- The same is true of statements. -/
theorem related_stmts (carried : Slot → ρ) {stmts replacements : List Stmt} :
    List.Forall₂ (Part.Related (traversal.Replaces carried)) (stmts.map .stmt)
      (replacements.map .stmt) ↔ Gives (traversal.stmts (carried .nested) stmts) replacements := by
  induction stmts generalizing replacements with
  | nil => simp [Traversal.stmts, gives_pure]
  | cons first rest inductionHypothesis =>
    cases replacements with
    | nil => simp [Traversal.stmts, gives_bind, gives_pure]
    | cons other others =>
      simp [Traversal.stmts, gives_bind, gives_pure, inductionHypothesis, Part.Related, Part.stmt]

/-- The same is true of entries, keys and values in turn. -/
theorem related_entries (carried : Slot → ρ) {entries replacements : List (Expr × Expr)} :
    List.Forall₂ (Part.Related (traversal.Replaces carried)) (entries.flatMap Part.entry)
      (replacements.flatMap Part.entry) ↔
      Gives (traversal.entries (carried .value) entries) replacements := by
  induction entries generalizing replacements with
  | nil => cases replacements <;> simp [Traversal.entries, gives_pure, Part.entry]
  | cons first rest inductionHypothesis =>
    cases replacements with
    | nil => simp [Traversal.entries, gives_bind, gives_pure, Part.entry]
    | cons other others =>
      cases other
      simp [Traversal.entries, gives_bind, gives_pure, inductionHypothesis, Part.Related,
        Part.entry, Part.value]

/-- The same is true of an expression that may be absent. -/
theorem related_optional (carried : Slot → ρ) {present replacement : Option Expr} :
    List.Forall₂ (Part.Related (traversal.Replaces carried)) (present.toList.map .value)
      (replacement.toList.map .value) ↔
      Gives (traversal.optional (carried .value) present) replacement := by
  cases present <;> cases replacement <;>
    simp [Traversal.optional, gives_bind, gives_pure, Part.Related, Part.value]

/-- The same is true of a block that may be absent, and the walk adds and drops no block. -/
theorem related_block (carried : Slot → ρ) {body replacement : Option (List Stmt)} :
    body.isSome = replacement.isSome ∧
      List.Forall₂ (Part.Related (traversal.Replaces carried)) ((body.getD []).map .stmt)
        ((replacement.getD []).map .stmt) ↔
      Gives (traversal.block? (carried .nested) body) replacement := by
  cases body with
  | none => cases replacement <;> simp [Traversal.block?, gives_pure]
  | some body =>
    cases replacement with
    | none => simp [Traversal.block?, gives_bind, gives_pure]
    | some replacement =>
      simp only [Option.isSome_some, Option.getD_some, true_and, related_stmts, Traversal.block?,
        gives_bind, gives_pure, Option.some.injEq, exists_eq_right']

/-- The walk within the body of a lambda keeps its shell and replaces its parts. -/
theorem withinBody_matches {body rebuilt : LambdaBody}
    (walked : Gives (traversal.withinBody carried body) rebuilt) :
    body.shell = rebuilt.shell ∧
      List.Forall₂ (Part.Related (traversal.Replaces carried)) body.parts rebuilt.parts := by
  cases body with
  | expr value =>
    simp only [Traversal.withinBody, gives_bind, gives_pure] at walked
    obtain ⟨replacement, walkedValue, rfl⟩ := walked
    exact ⟨rfl, .cons ⟨rfl, replaces_expr.2 walkedValue⟩ .nil⟩
  | block body =>
    simp only [Traversal.withinBody, gives_bind, gives_pure] at walked
    obtain ⟨replacement, walkedBody, rfl⟩ := walked
    have parts := (related_stmts carried).2 walkedBody
    exact ⟨by simp only [LambdaBody.shell, Part.holes_eq parts], parts⟩

/-- The walk within an expression keeps its shell and replaces its parts. -/
theorem within_matches {expr rebuilt : Expr}
    (walked : Gives (traversal.within carried expr) rebuilt) :
    Node.Matches (traversal.Replaces carried) (.expr expr) (.expr rebuilt) := by
  cases expr
  case invoke note callee typeArgs args signature =>
    simp only [Traversal.within, gives_bind, gives_pure] at walked
    obtain ⟨newCallee, walkedCallee, newArgs, walkedArgs, rfl⟩ := walked
    have parts := (related_values carried).2 walkedArgs
    refine ⟨by simp only [Node.shell, Expr.shell, Part.holes_eq parts], ?_⟩
    exact .cons ⟨rfl, replaces_expr.2 walkedCallee⟩ parts
  case index note target indices =>
    simp only [Traversal.within, gives_bind, gives_pure] at walked
    obtain ⟨newTarget, walkedTarget, newIndices, walkedIndices, rfl⟩ := walked
    have parts := (related_values carried).2 walkedIndices
    refine ⟨by simp only [Node.shell, Expr.shell, Part.holes_eq parts], ?_⟩
    exact .cons ⟨rfl, replaces_expr.2 walkedTarget⟩ parts
  case construct note constructed args signature =>
    simp only [Traversal.within, gives_bind, gives_pure] at walked
    obtain ⟨newArgs, walkedArgs, rfl⟩ := walked
    have parts := (related_values carried).2 walkedArgs
    exact ⟨by simp only [Node.shell, Expr.shell, Part.holes_eq parts], parts⟩
  case array note element items =>
    simp only [Traversal.within, gives_bind, gives_pure] at walked
    obtain ⟨newItems, walkedItems, rfl⟩ := walked
    have parts := (related_values carried).2 walkedItems
    exact ⟨by simp only [Node.shell, Expr.shell, Part.holes_eq parts], parts⟩
  case map note entries =>
    simp only [Traversal.within, gives_bind, gives_pure] at walked
    obtain ⟨newEntries, walkedEntries, rfl⟩ := walked
    have parts := (related_entries carried).2 walkedEntries
    have sameLength : entries.length = newEntries.length := by
      have lengths := parts.length_eq
      simp only [List.length_flatMap, Part.entry, List.length_cons, List.length_nil,
        List.map_const', List.sum_replicate_nat] at lengths
      omega
    exact ⟨by simpa [Node.shell, Expr.shell] using sameLength, parts⟩
  case lambda note params ret body =>
    simp only [Traversal.within, gives_bind, gives_pure] at walked
    obtain ⟨newBody, walkedBody, rfl⟩ := walked
    obtain ⟨shell, parts⟩ := withinBody_matches walkedBody
    exact ⟨by simp [Node.shell, Expr.shell, shell], parts⟩
  all_goals
    revert walked
    simp only [Traversal.within, gives_bind, gives_pure, forall_exists_index, and_imp]
    intros
    subst_vars
    refine ⟨rfl, ?_⟩
    simp [Node.parts, Expr.parts, Part.value, Part.target, Part.Related, *]

/-- The walk within a statement keeps its shell and replaces its parts. -/
theorem withinStmt_matches {stmt rebuilt : Stmt}
    (walked : Gives (traversal.withinStmt carried stmt) rebuilt) :
    Node.Matches (traversal.Replaces carried) (.stmt stmt) (.stmt rebuilt) := by
  cases stmt
  case branch condition thenBody elseBody =>
    simp only [Traversal.withinStmt, gives_bind, gives_pure] at walked
    obtain ⟨newCondition, walkedCondition, newThen, walkedThen, newElse, walkedElse, rfl⟩ := walked
    have thenParts := (related_stmts carried).2 walkedThen
    obtain ⟨samePresence, elseParts⟩ := (related_block carried).2 walkedElse
    refine ⟨?_, .cons ⟨rfl, replaces_expr.2 walkedCondition⟩ (List.rel_append thenParts elseParts)⟩
    simp only [Node.shell, Stmt.shell, Part.holes_eq thenParts,
      Part.block_holes_eq samePresence elseParts]
  case forLoop init condition step body =>
    simp only [Traversal.withinStmt, gives_bind, gives_pure] at walked
    obtain ⟨newInit, walkedInit, newCondition, walkedCondition, newStep, walkedStep, newBody,
      walkedBody, rfl⟩ := walked
    have initParts := (related_stmts carried).2 walkedInit
    have conditionParts := (related_optional carried).2 walkedCondition
    have stepParts := (related_values carried).2 walkedStep
    have bodyParts := (related_stmts carried).2 walkedBody
    refine ⟨?_, List.rel_append initParts (List.rel_append conditionParts
      (List.rel_append stepParts bodyParts))⟩
    simp only [Node.shell, Stmt.shell, Part.holes_eq initParts,
      Part.optional_holes_eq conditionParts, Part.holes_eq stepParts, Part.holes_eq bodyParts]
  case declare name declared ty init span =>
    simp only [Traversal.withinStmt, gives_bind, gives_pure] at walked
    obtain ⟨newInit, walkedInit, rfl⟩ := walked
    have parts := (related_optional carried).2 walkedInit
    exact ⟨by simp only [Node.shell, Stmt.shell, Part.optional_holes_eq parts], parts⟩
  case ret value span =>
    simp only [Traversal.withinStmt, gives_bind, gives_pure] at walked
    obtain ⟨newValue, walkedValue, rfl⟩ := walked
    have parts := (related_optional carried).2 walkedValue
    exact ⟨by simp only [Node.shell, Stmt.shell, Part.optional_holes_eq parts], parts⟩
  case whileLoop condition body =>
    simp only [Traversal.withinStmt, gives_bind, gives_pure] at walked
    obtain ⟨newCondition, walkedCondition, newBody, walkedBody, rfl⟩ := walked
    have parts := (related_stmts carried).2 walkedBody
    refine ⟨by simp only [Node.shell, Stmt.shell, Part.holes_eq parts], ?_⟩
    exact .cons ⟨rfl, replaces_expr.2 walkedCondition⟩ parts
  case forEach item itemTy source body =>
    simp only [Traversal.withinStmt, gives_bind, gives_pure] at walked
    obtain ⟨newSource, walkedSource, newBody, walkedBody, rfl⟩ := walked
    have parts := (related_stmts carried).2 walkedBody
    refine ⟨by simp only [Node.shell, Stmt.shell, Part.holes_eq parts], ?_⟩
    exact .cons ⟨rfl, replaces_expr.2 walkedSource⟩ parts
  case block body =>
    simp only [Traversal.withinStmt, gives_bind, gives_pure] at walked
    obtain ⟨newBody, walkedBody, rfl⟩ := walked
    have parts := (related_stmts carried).2 walkedBody
    exact ⟨by simp only [Node.shell, Stmt.shell, Part.holes_eq parts], parts⟩
  all_goals
    revert walked
    simp only [Traversal.withinStmt, gives_bind, gives_pure, forall_exists_index, and_imp]
    intros
    subst_vars
    refine ⟨rfl, ?_⟩
    simp [Node.parts, Stmt.parts, Part.value, Part.Related, *]

/-- The walk of a constructor chain keeps all but its arguments, which are replaced. -/
theorem related_chain (carried : Slot → ρ) {chain replacement : Option CtorChain}
    (walked : Gives (traversal.chain? (carried .value) chain) replacement) :
    chain.map (fun chain => { chain with args := chain.args.map fun _ => Expr.hole }) =
        replacement.map (fun chain => { chain with args := chain.args.map fun _ => Expr.hole }) ∧
      List.Forall₂ (Part.Related (traversal.Replaces carried))
        (((chain.map (·.args)).getD []).map .value)
        (((replacement.map (·.args)).getD []).map .value) := by
  cases chain with
  | none =>
    simp only [DeclTraversal.chain?, gives_pure] at walked
    subst walked
    exact ⟨rfl, .nil⟩
  | some chain =>
    simp only [DeclTraversal.chain?, gives_bind, gives_pure] at walked
    obtain ⟨args, walkedArgs, rfl⟩ := walked
    have parts := (related_values carried).2 walkedArgs
    exact ⟨by simp only [Option.map_some, Part.holes_eq parts], parts⟩

/-! ## Declarations -/

section Declarations

variable [LawfulMonad m]

/-- Attributes are replaced one by one. -/
theorem related_attrs (carried : Slot → ρ) {attrs replacements : List Attribute} :
    List.Forall₂ (Part.Related (traversal.Replaces carried)) (attrs.map .attr)
      (replacements.map .attr) ↔ Gives (traversal.attrs (carried .nested) attrs) replacements := by
  simp [DeclTraversal.attrs, gives_mapM, Part.Related, Part.attr]

/-- Members are replaced one by one. -/
theorem related_members (carried : Slot → ρ) {members replacements : List Member} :
    List.Forall₂ (Part.Related (traversal.Replaces carried)) (members.map .member)
      (replacements.map .member) ↔
      Gives (members.mapM (traversal.member (carried .nested))) replacements := by
  simp [gives_mapM, Part.Related, Part.member]

/-- Declarations are replaced one by one. -/
theorem related_decls (carried : Slot → ρ) {decls replacements : List TypeDecl} :
    List.Forall₂ (Part.Related (traversal.Replaces carried)) (decls.map .decl)
      (replacements.map .decl) ↔ Gives (traversal.decls (carried .nested) decls) replacements := by
  simp [DeclTraversal.decls, gives_mapM, Part.Related, Part.decl]

/-- The walk of an attribute replaces its parts and leaves what it has become. -/
theorem attr_matches {attr replacement : Attribute}
    (walked : Gives (traversal.attr env attr) replacement) :
    ∃ rebuilt, Node.Matches (traversal.Replaces fun _ => env) (.attr attr) (.attr rebuilt) ∧
      Gives (traversal.leaveAttribute env rebuilt) replacement := by
  simp only [DeclTraversal.attr, gives_bind, gives_mapM, gives_pure] at walked
  obtain ⟨args, walkedArgs, left⟩ := walked
  refine ⟨_, ⟨?_, ?_⟩, left⟩
  · have holes : List.Forall₂ (fun before after : AttributeArg =>
        { before with value := .hole } = { after with value := Expr.hole }) attr.args args := by
      refine walkedArgs.imp ?_
      rintro before after ⟨value, -, rfl⟩
      rfl
    rw [← List.forall₂_map_right_iff, ← List.forall₂_map_left_iff, List.forall₂_eq_eq_eq] at holes
    simp only [Node.shell, Attribute.shell, holes]
  · simp only [Node.parts, List.forall₂_map_left_iff, List.forall₂_map_right_iff]
    refine walkedArgs.imp ?_
    rintro before after ⟨value, walkedValue, rfl⟩
    exact ⟨rfl, replaces_expr.2 walkedValue⟩

/-- The walk within a member keeps its shell and replaces its parts. -/
theorem memberParts_matches {member rebuilt : Member}
    (walked : Gives (traversal.memberParts env member) rebuilt) :
    Node.Matches (traversal.Replaces fun _ => env) (.member member) (.member rebuilt) := by
  cases member with
  | field decl =>
    simp only [DeclTraversal.memberParts, gives_bind, gives_pure] at walked
    obtain ⟨attrs, walkedAttrs, init, walkedInit, rfl⟩ := walked
    have attrParts := (related_attrs fun _ => env).2 walkedAttrs
    have initParts := (related_optional fun _ => env).2 walkedInit
    refine ⟨?_, List.rel_append attrParts initParts⟩
    simp only [Node.shell, Member.shell, Part.holes_eq attrParts, Part.optional_holes_eq initParts]
  | method decl =>
    simp only [DeclTraversal.memberParts, gives_bind, gives_pure] at walked
    obtain ⟨attrs, walkedAttrs, body, walkedBody, rfl⟩ := walked
    have attrParts := (related_attrs fun _ => env).2 walkedAttrs
    obtain ⟨samePresence, bodyParts⟩ := (related_block fun _ => env).2 walkedBody
    refine ⟨?_, List.rel_append attrParts bodyParts⟩
    simp only [Node.shell, Member.shell, Part.holes_eq attrParts,
      Part.block_holes_eq samePresence bodyParts]
  | ctor decl =>
    simp only [DeclTraversal.memberParts, gives_bind, gives_pure] at walked
    obtain ⟨chain, walkedChain, body, walkedBody, rfl⟩ := walked
    obtain ⟨sameChain, chainParts⟩ := related_chain (fun _ => env) walkedChain
    have bodyParts := (related_stmts fun _ => env).2 walkedBody
    refine ⟨?_, List.rel_append chainParts bodyParts⟩
    simp only [Node.shell, Member.shell, sameChain, Part.holes_eq bodyParts]

/-- The walk of a declaration replaces its parts and leaves what it has become. -/
theorem decl_matches {decl replacement : TypeDecl}
    (walked : Gives (traversal.decl env decl) replacement) :
    ∃ rebuilt, Node.Matches (traversal.Replaces fun _ => traversal.enterDecl env decl)
        (.decl decl) (.decl rebuilt) ∧
      Gives (traversal.leaveDecl env rebuilt) replacement := by
  simp only [DeclTraversal.decl, gives_bind] at walked
  obtain ⟨attrs, walkedAttrs, members, walkedMembers, left⟩ := walked
  have attrParts := (related_attrs fun _ => traversal.enterDecl env decl).2 walkedAttrs
  have memberParts := (related_members fun _ => traversal.enterDecl env decl).2 walkedMembers
  refine ⟨{ decl with attrs, members }, ⟨?_, List.rel_append attrParts memberParts⟩, left⟩
  simp only [Node.shell, TypeDecl.shell, Part.holes_eq attrParts]

/-- The walk of a unit keeps its shell and replaces its parts. -/
theorem unit_matches {unit replacement : SourceUnit}
    (walked : Gives (traversal.unit env unit) replacement) :
    Node.Matches (traversal.Replaces fun _ => env) (.unit unit) (.unit replacement) := by
  simp only [DeclTraversal.unit, gives_bind, gives_pure] at walked
  obtain ⟨decls, walkedDecls, globals, walkedGlobals, rfl⟩ := walked
  have declParts := (related_decls fun _ => env).2 walkedDecls
  have globalParts := (related_stmts fun _ => env).2 walkedGlobals
  refine ⟨?_, List.rel_append declParts globalParts⟩
  simp only [Node.shell, SourceUnit.shell, Part.holes_eq globalParts]

/-- A finished walk of a node: either the walk leaves the node as it is, or it walks the parts and
leaves the node made of the finished ones. -/
theorem node_matches {node replacement : Node}
    (walked : Gives (traversal.node env node) replacement) :
    Gives (traversal.enterNode env node) none ∧ replacement = node ∨
      ∃ carried rebuilt, Gives (traversal.enterNode env node) (some carried) ∧
        Node.Matches (traversal.Replaces carried) node rebuilt ∧
        Gives (traversal.leaveNode env rebuilt) replacement := by
  cases node with
  | expr root =>
    obtain ⟨final, walkedRoot, same⟩ := gives_bind.1 walked
    rw [gives_pure.1 same]
    rw [Traversal.expr_eq_around] at walkedRoot
    obtain ⟨below, entered, walkedRoot⟩ := gives_bind.1 walkedRoot
    cases below with
    | none =>
      refine .inl ⟨gives_bind.2 ⟨none, entered, gives_pure.2 rfl⟩, ?_⟩
      rw [gives_pure.1 walkedRoot]
    | some below =>
      obtain ⟨rebuilt, walkedParts, left⟩ := gives_bind.1 walkedRoot
      refine .inr ⟨below.carried, .expr rebuilt, ?_, within_matches walkedParts, ?_⟩
      · exact gives_bind.2 ⟨some below, entered, gives_pure.2 rfl⟩
      · exact gives_bind.2 ⟨final, left, gives_pure.2 rfl⟩
  | stmt root =>
    obtain ⟨final, walkedRoot, same⟩ := gives_bind.1 walked
    rw [gives_pure.1 same]
    rw [Traversal.stmt_eq_within] at walkedRoot
    obtain ⟨rebuilt, walkedParts, left⟩ := gives_bind.1 walkedRoot
    refine .inr ⟨_, .stmt rebuilt, gives_pure.2 rfl, withinStmt_matches walkedParts, ?_⟩
    exact gives_bind.2 ⟨final, left, gives_pure.2 rfl⟩
  | attr root =>
    obtain ⟨final, walkedRoot, same⟩ := gives_bind.1 walked
    rw [gives_pure.1 same]
    obtain ⟨rebuilt, matched, left⟩ := attr_matches walkedRoot
    refine .inr ⟨_, .attr rebuilt, gives_pure.2 rfl, matched, ?_⟩
    exact gives_bind.2 ⟨final, left, gives_pure.2 rfl⟩
  | member root =>
    obtain ⟨final, walkedRoot, same⟩ := gives_bind.1 walked
    rw [gives_pure.1 same]
    obtain ⟨rebuilt, walkedParts, left⟩ := gives_bind.1 walkedRoot
    refine .inr ⟨_, .member rebuilt, gives_pure.2 rfl, memberParts_matches walkedParts, ?_⟩
    exact gives_bind.2 ⟨final, left, gives_pure.2 rfl⟩
  | decl root =>
    obtain ⟨final, walkedRoot, same⟩ := gives_bind.1 walked
    rw [gives_pure.1 same]
    obtain ⟨rebuilt, matched, left⟩ := decl_matches walkedRoot
    refine .inr ⟨_, .decl rebuilt, gives_pure.2 rfl, matched, ?_⟩
    exact gives_bind.2 ⟨final, left, gives_pure.2 rfl⟩
  | unit root =>
    obtain ⟨final, walkedRoot, same⟩ := gives_bind.1 walked
    rw [gives_pure.1 same]
    exact .inr ⟨_, .unit final, gives_pure.2 rfl, unit_matches walkedRoot, gives_pure.2 rfl⟩

end Declarations

/-! ## Walks that change nothing -/

section Unchanged

/-- Every part stays as it is. -/
def Keeps (traversal : DeclTraversal m ρ) (carried : Slot → ρ) (parts : List Part) : Prop :=
  ∀ part ∈ parts, traversal.Replaces carried part.1 part.2 part.2

/-- Parts are kept if each of them is replaced by itself. -/
theorem keeps_iff_related {parts : List Part} : traversal.Keeps carried parts ↔
    List.Forall₂ (Part.Related (traversal.Replaces carried)) parts parts := by
  rw [List.forall₂_same]
  simp [Keeps, Part.Related]

@[simp]
theorem keeps_nil : traversal.Keeps carried [] := by
  simp [Keeps]

@[simp]
theorem keeps_cons {part : Part} {parts : List Part} :
    traversal.Keeps carried (part :: parts) ↔
      traversal.Replaces carried part.1 part.2 part.2 ∧ traversal.Keeps carried parts :=
  List.forall_mem_cons

@[simp]
theorem keeps_append {first second : List Part} :
    traversal.Keeps carried (first ++ second) ↔
      traversal.Keeps carried first ∧ traversal.Keeps carried second :=
  List.forall_mem_append

/-- Expressions are kept if the walk makes the same list of them. -/
@[simp]
theorem keeps_values {exprs : List Expr} : traversal.Keeps carried (exprs.map .value) ↔
    Gives (traversal.exprs (carried .value) exprs) exprs := by
  rw [keeps_iff_related, related_values]

/-- The same is true of entries. -/
@[simp]
theorem keeps_entries {entries : List (Expr × Expr)} :
    traversal.Keeps carried (entries.flatMap Part.entry) ↔
      Gives (traversal.entries (carried .value) entries) entries := by
  rw [keeps_iff_related, related_entries]

/-- The same is true of statements. -/
@[simp]
theorem keeps_stmts {stmts : List Stmt} : traversal.Keeps carried (stmts.map .stmt) ↔
    Gives (traversal.stmts (carried .nested) stmts) stmts := by
  rw [keeps_iff_related, related_stmts]

/-- A value that may be absent is kept like a list of at most one. -/
@[simp]
theorem optional_keeps {present : Option Expr} :
    Gives (traversal.optional env present) present ↔
      Gives (traversal.exprs env present.toList) present.toList := by
  cases present <;> simp [Traversal.optional, Traversal.exprs, gives_bind, gives_pure]

/-- A block that may be absent is kept if its statements are. -/
@[simp]
theorem block_keeps {body : Option (List Stmt)} :
    Gives (traversal.block? env body) body ↔
      Gives (traversal.stmts env (body.getD [])) (body.getD []) := by
  cases body <;> simp [Traversal.block?, Traversal.stmts, gives_bind, gives_pure]

/-- The body of a lambda is kept if its parts are. -/
@[simp]
theorem body_keeps {body : LambdaBody} :
    Gives (traversal.withinBody carried body) body ↔ traversal.Keeps carried body.parts := by
  cases body <;>
    simp [LambdaBody.parts, Part.value, Traversal.withinBody, gives_bind, gives_pure]

/-- An expression whose parts are kept is given back by the walk within it. -/
theorem within_keeps {expr : Expr} (keeps : traversal.Keeps carried expr.parts) :
    Gives (traversal.within carried expr) expr := by
  cases expr <;>
    simp_all [Expr.parts, Part.value, Part.target, Traversal.within, gives_bind, gives_pure]

/-- A statement whose parts are kept is given back by the walk within it. -/
theorem withinStmt_keeps {stmt : Stmt} (keeps : traversal.Keeps carried stmt.parts) :
    Gives (traversal.withinStmt carried stmt) stmt := by
  cases stmt <;>
    simp_all [Stmt.parts, Part.value, Traversal.withinStmt, gives_bind, gives_pure]

/-- A constructor chain is kept if its arguments are. -/
theorem chain_keeps {chain : Option CtorChain} :
    Gives (traversal.chain? env chain) chain ↔
      Gives (traversal.exprs env ((chain.map (·.args)).getD []))
        ((chain.map (·.args)).getD []) := by
  cases chain with
  | none => simp [DeclTraversal.chain?, Traversal.exprs, gives_pure]
  | some chain =>
    cases chain
    simp [DeclTraversal.chain?, gives_bind, gives_pure]

variable [LawfulMonad m]

/-- Where the parts of an attribute are kept, its walk comes to leaving it. -/
theorem attr_keeps {attr replacement : Attribute}
    (keeps : traversal.Keeps (fun _ => env) (Node.attr attr).parts)
    (left : Gives (traversal.leaveAttribute env attr) replacement) :
    Gives (traversal.attr env attr) replacement := by
  refine gives_bind.2 ⟨attr.args, gives_mapM.2 (List.forall₂_same.2 fun arg member => ?_), left⟩
  refine gives_bind.2 ⟨arg.value, ?_, gives_pure.2 rfl⟩
  exact replaces_expr.1 (keeps (.value arg.value) (List.mem_map_of_mem member))

/-- A member whose parts are kept is given back by the walk within it. -/
theorem memberParts_keeps {member : Member}
    (keeps : traversal.Keeps (fun _ => env) member.parts) :
    Gives (traversal.memberParts env member) member := by
  cases member with
  | field decl =>
    obtain ⟨attrs, init⟩ := keeps_append.1 keeps
    refine gives_bind.2 ⟨decl.attrs, (related_attrs _).1 (keeps_iff_related.1 attrs), ?_⟩
    refine gives_bind.2 ⟨decl.init, optional_keeps.2 (keeps_values.1 init), gives_pure.2 rfl⟩
  | method decl =>
    obtain ⟨attrs, body⟩ := keeps_append.1 keeps
    refine gives_bind.2 ⟨decl.attrs, (related_attrs _).1 (keeps_iff_related.1 attrs), ?_⟩
    refine gives_bind.2 ⟨decl.body, block_keeps.2 (keeps_stmts.1 body), gives_pure.2 rfl⟩
  | ctor decl =>
    obtain ⟨args, body⟩ := keeps_append.1 keeps
    refine gives_bind.2 ⟨decl.chain, chain_keeps.2 (keeps_values.1 args), ?_⟩
    refine gives_bind.2 ⟨decl.body, keeps_stmts.1 body, gives_pure.2 rfl⟩

/-- Where the parts of a declaration are kept, its walk comes to leaving it. -/
theorem decl_keeps {decl replacement : TypeDecl}
    (keeps : traversal.Keeps (fun _ => traversal.enterDecl env decl) (Node.decl decl).parts)
    (left : Gives (traversal.leaveDecl env decl) replacement) :
    Gives (traversal.decl env decl) replacement := by
  obtain ⟨attrs, members⟩ := keeps_append.1 keeps
  refine gives_bind.2 ⟨decl.attrs, (related_attrs _).1 (keeps_iff_related.1 attrs), ?_⟩
  refine gives_bind.2 ⟨decl.members, (related_members _).1 (keeps_iff_related.1 members), left⟩

/-- A unit whose parts are kept is given back. -/
theorem unit_keeps {unit : SourceUnit}
    (keeps : traversal.Keeps (fun _ => env) (Node.unit unit).parts) :
    Gives (traversal.unit env unit) unit := by
  obtain ⟨decls, globals⟩ := keeps_append.1 keeps
  refine gives_bind.2 ⟨unit.decls, (related_decls _).1 (keeps_iff_related.1 decls), ?_⟩
  refine gives_bind.2 ⟨unit.globals, keeps_stmts.1 globals, gives_pure.2 rfl⟩

/-- A node whose parts stay as they are becomes what leaving it makes of it. -/
theorem node_keeps {node replacement : Node}
    (entered : Gives (traversal.enterNode env node) (some carried))
    (keeps : traversal.Keeps carried node.parts)
    (left : Gives (traversal.leaveNode env node) replacement) :
    Gives (traversal.node env node) replacement := by
  cases node with
  | expr root =>
    obtain ⟨below, enteredRoot, same⟩ := gives_bind.1 entered
    obtain ⟨final, leftRoot, rfl⟩ : ∃ final, Gives (traversal.leave env root) final ∧
      replacement = .expr final := by simpa only [leaveNode, gives_bind, gives_pure] using left
    obtain ⟨below, rfl, rfl⟩ := Option.map_eq_some_iff.1 (gives_pure.1 same).symm
    refine gives_bind.2 ⟨final, ?_, gives_pure.2 rfl⟩
    rw [Traversal.expr_eq_around]
    exact gives_bind.2 ⟨some below, enteredRoot, gives_bind.2 ⟨root, within_keeps keeps, leftRoot⟩⟩
  | stmt root =>
    obtain rfl := Option.some.inj (gives_pure.1 entered)
    obtain ⟨final, leftRoot, same⟩ := gives_bind.1 left
    refine gives_bind.2 ⟨final, ?_, same⟩
    rw [Traversal.stmt_eq_within]
    exact gives_bind.2 ⟨root, withinStmt_keeps keeps, leftRoot⟩
  | attr root =>
    obtain rfl := Option.some.inj (gives_pure.1 entered)
    obtain ⟨final, leftRoot, same⟩ := gives_bind.1 left
    exact gives_bind.2 ⟨final, attr_keeps keeps leftRoot, same⟩
  | member root =>
    obtain rfl := Option.some.inj (gives_pure.1 entered)
    obtain ⟨final, leftRoot, same⟩ := gives_bind.1 left
    exact gives_bind.2 ⟨final, gives_bind.2 ⟨root, memberParts_keeps keeps, leftRoot⟩, same⟩
  | decl root =>
    obtain rfl := Option.some.inj (gives_pure.1 entered)
    obtain ⟨final, leftRoot, same⟩ := gives_bind.1 left
    exact gives_bind.2 ⟨final, decl_keeps keeps leftRoot, same⟩
  | unit root =>
    obtain rfl := Option.some.inj (gives_pure.1 entered)
    exact gives_bind.2 ⟨root, unit_keeps keeps, left⟩

end Unchanged

end DeclTraversal

end ScriptSharp
