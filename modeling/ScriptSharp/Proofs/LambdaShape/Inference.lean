import ScriptSharp.Lowering.LambdaShape
import ScriptSharp.Proofs.Tree.Walk

/-!
# Inference at one node

Inference carries a place and the types of parameters down, and the types of locals along. `opens`
says what it does at a single node: the parts are inferred from left to right, each at the place
that `placeAt` gives it and with the locals that the parts before it left, and then the node with
its new parts is finished. `Finishes` lists what can become of it there. Everything else about
inference follows from this by induction over the tree.
-/

namespace ScriptSharp

open Outcome Node

/-! ## Computations with a state -/

section Ends

variable {n : Type → Type} [Monad n] [Outcome n] {σ α β : Type} {before after : σ}

/-- The computation ends with `value`, and takes the state from `before` to `after`. -/
def Ends (computation : StateT σ n α) (before : σ) (value : α) (after : σ) : Prop :=
  Gives (computation.run before) (value, after)

/-- What is returned at once leaves the state alone. -/
theorem ends_pure {given value : α} :
    Ends (pure given : StateT σ n α) before value after ↔ value = given ∧ after = before := by
  simp [Ends, gives_pure]

/-- One computation after another passes on its state. -/
theorem ends_bind {first : StateT σ n α} {next : α → StateT σ n β} {value : β} :
    Ends (first >>= next) before value after ↔ ∃ between state,
      Ends first before between state ∧ Ends (next between) state value after := by
  simp [Ends, gives_bind]

/-- Reading the state gives it and leaves it alone. -/
theorem ends_get {value : σ} :
    Ends (get : StateT σ n σ) before value after ↔ value = before ∧ after = before := by
  simp [Ends, gives_pure]

/-- A change of the state gives the changed state. -/
theorem ends_modify {change : σ → σ} {value : PUnit} :
    Ends (modify change : StateT σ n PUnit) before value after ↔ after = change before := by
  simp [Ends, modify, modifyGet, MonadStateOf.modifyGet, StateT.modifyGet, StateT.run, gives_pure]

/-- Items in a row are computed one by one, each from some state. -/
theorem ends_mapM [LawfulMonad n] {step : α → StateT σ n β} {items : List α} {results : List β}
    (ends : Ends (items.mapM step) before results after) :
    List.Forall₂ (fun item result => ∃ start stop, Ends (step item) start result stop)
      items results := by
  induction items generalizing before results with
  | nil =>
    rw [List.mapM_nil, ends_pure] at ends
    rw [ends.1]
    exact .nil
  | cons first rest inductionHypothesis =>
    simp only [List.mapM_cons, ends_bind, ends_pure] at ends
    obtain ⟨result, state, firstEnds, results, stop, restEnds, rfl, rfl⟩ := ends
    exact .cons ⟨before, state, firstEnds⟩ (inductionHypothesis restEnds)

end Ends

/-- An import that is required changes no declaration. -/
theorem SourceUnit.requireImport_decls (unit : SourceUnit) (space : String) :
    (unit.requireImport space).decls = unit.decls := by
  unfold requireImport
  split <;> rfl

/-- An import that is required changes no statement at top level. -/
theorem SourceUnit.requireImport_globals (unit : SourceUnit) (space : String) :
    (unit.requireImport space).globals = unit.globals := by
  unfold requireImport
  split <;> rfl

namespace Lowering.LambdaShape

variable {params : Scope} {place : Place} {before between after : Scope}

/-! ## Parts in a row -/

/-- The parts of a list are replaced one by one. Each step starts with the locals that the one
before it ended with. -/
inductive Threads (step : Nat → Scope → Node → Node → Scope → Prop) :
    Nat → Scope → List Part → List Part → Scope → Prop where
  | nil {index : Nat} {locals : Scope} : Threads step index locals [] [] locals
  | cons {index : Nat} {before between after : Scope} {slot : Slot} {source result : Node}
      {sources results : List Part} (first : step index before source result between)
      (rest : Threads step (index + 1) between sources results after) :
      Threads step index before ((slot, source) :: sources) ((slot, result) :: results) after

section Threads

variable {step : Nat → Scope → Node → Node → Scope → Prop} {index : Nat}

/-- Parts in a row pass the state on from the first ones to the others. -/
theorem Threads.append {sources results moreSources moreResults : List Part}
    (threads : Threads step index before sources results between)
    (more : Threads step (index + sources.length) between moreSources moreResults after) :
    Threads step index before (sources ++ moreSources) (results ++ moreResults) after := by
  induction threads with
  | nil => exact more
  | cons first _ inductionHypothesis =>
    refine .cons first (inductionHypothesis ?_)
    rwa [List.length_cons, ← Nat.add_assoc, Nat.add_right_comm] at more

/-- Parts that pass a state on are related one by one. -/
theorem Threads.related {sources results : List Part}
    (threads : Threads step index before sources results after) :
    List.Forall₂ (Part.Related fun _ source result =>
      ∃ index before after, step index before source result after) sources results := by
  induction threads with
  | nil => exact .nil
  | cons first _ inductionHypothesis => exact .cons ⟨rfl, _, _, _, first⟩ inductionHypothesis

end Threads

/-! ## One node -/

/-- The body of a function literal as statements. -/
def asBlock (span : Span) : LambdaBody → List Stmt
  | .expr value => [.ret (some value) span]
  | .block body => body

/-- What inference makes of a node at a place. Where there is no place the node is not looked at. -/
def InfersAt (params : Scope) : Option Place → Scope → Node → Node → Scope → Prop
  | none, before, source, result, after => result = source ∧ after = before
  | some place, before, .expr source, .expr result, after =>
    Ends (expr params place source) before result after
  | some _, before, .stmt source, .stmt result, after =>
    Ends (stmt params source) before result after
  | some _, before, .attr source, .attr result, after =>
    Ends (attrs [source]) before [result] after
  | some _, before, .member source, .member result, after =>
    Ends (memberParts source) before result after
  | _, _, _, _, _ => False

/-- The parameters that are known inside a node. -/
def innerParams (params : Scope) (place : Place) : Node → Scope
  | .expr (.lambda _ lambdaParams _ _) => extend params (settleParams place.shape? 0 lambdaParams)
  | .attr _ | .member _ => []
  | _ => params

/-- The place of the part at `index`. What an assigned value and the arguments of a call are
wanted as is told by the target and by the callee after inference, which `rebuilt` has. -/
def placeAt (place : Place) (source rebuilt : Node) (index : Nat) : Option Place :=
  match source, rebuilt with
  | .expr (.paren _ inner), _ => some (if inner.isLambda then place else .free)
  | .expr (.assign ..), .expr (.assign _ _ target _) =>
    some (if index = 0 then .free else .consumed (some target.ty))
  | .expr (.invoke ..), .expr (.invoke _ callee _ _ signature) =>
    some (if index = 0 then .free
      else .consumed (requiredArg signature callee.ty.delegate? (index - 1)))
  | .expr (.construct _ _ _ signature), _ => some (.consumed (requiredArg signature none index))
  | .stmt (.declare _ declared ty _ _), _ => some (.consumed (some (declared.getD ty)))
  | .member (.field decl), _ =>
    if index < decl.attrs.length then none else some (.consumed (some decl.ty))
  | _, _ => some .free

/-- Expressions and statements. -/
def isCode : Node → Bool
  | .expr _ | .stmt _ => true
  | _ => false

/-- Inside of expressions and statements there are only such. -/
theorem isCode_child {node child : Node} (code : isCode node = true)
    (member : child ∈ node.children) : isCode child = true := by
  cases node
  case expr root =>
    cases root
    case lambda note params ret body =>
      cases body <;> simp [children, parts, Expr.parts, LambdaBody.parts, Part.value,
        Part.stmt] at member
      all_goals grind [isCode]
    all_goals simp [children, parts, Expr.parts, Part.value, Part.target, Part.entry] at member
    all_goals grind [isCode]
  case stmt root =>
    cases root <;> simp [children, parts, Stmt.parts, Part.value, Part.stmt] at member
    all_goals grind [isCode]
  all_goals cases code

/-- The node is a field. -/
def isField : Node → Bool
  | .member (.field _) => true
  | _ => false

/-- All parts of a node are looked at, if it is no field. -/
theorem exists_placeAt (place : Place) {source : Node} (noField : isField source = false)
    (rebuilt : Node) (index : Nat) :
    ∃ inner, placeAt place source rebuilt index = some inner := by
  unfold placeAt
  split <;> first | exact ⟨_, rfl⟩ | cases noField

/-- The type of a reference, as far as it is known. -/
def knownType (params locals : Scope) (name : Ident) : Binding → Option Ty
  | .localVariable => locals.lookup name.name
  | .parameter => params.lookup name.name
  | _ => none

/-- The type of a call, where `ty` is the one that it had. -/
def callType (ty : Ty) (callee : Expr) (signature : Option Signature) : Ty :=
  match signature, callee.ty.delegate? with
  | none, some (_, ret) => ret
  | _, _ => ty

/-- The type of a variable, where `ty` is the one that it had. -/
def variableType (declared : Option Ty) (ty : Ty) (init : Option Expr) : Ty :=
  match declared, init with
  | none, some init => if init.isLambda then init.ty else ty
  | _, _ => ty

/-- The locals that are known after a variable of this type. -/
def withVariable (name : Ident) (ty : Ty) (locals : Scope) : Scope :=
  if ty.isDelegate then (name.name, ty) :: locals else locals

/-- The node stays as its new parts make it. -/
def staysPlain : Node → Bool
  | .expr (.lambda ..) | .expr (.ident ..) | .stmt (.declare ..) => false
  | _ => true

/-- What becomes of a node whose parts are inferred, where `between` are the locals that they
left. -/
inductive Finishes (params : Scope) (place : Place) (between : Scope) :
    Node → Node → Scope → Prop where
  | same {node : Node} (plain : staysPlain node = true) :
      Finishes params place between node node between
  | ident {note : Note} {name : Ident} {binding : Binding} :
      Finishes params place between (.expr (.ident note name binding))
        (.expr (.ident { note with ty := (knownType params between name binding).getD note.ty }
          name binding)) between
  | invoke {note : Note} {callee : Expr} {typeArgs : List Ty} {args : List Expr}
      {signature : Option Signature} :
      Finishes params place between (.expr (.invoke note callee typeArgs args signature))
        (.expr (.invoke { note with ty := callType note.ty callee signature } callee typeArgs args
          signature)) between
  /-- Parentheses around a function literal that is stored or passed on are dropped. -/
  | paren {note : Note} {inner : Expr} {required : Option Ty}
      (consumed : place = .consumed required) :
      Finishes params place between (.expr (.paren note inner)) (.expr inner) between
  | lambda {note : Note} {lambdaParams : List LambdaParam} {ret : Option Ty} {body : LambdaBody}
      {span : Span} :
      Finishes params place between (.expr (.lambda note lambdaParams ret body))
        (.expr (shaped note.span (settleParams place.shape? 0 lambdaParams)
          ((ret.or (place.shape?.map (·.2))).getD (inferReturn (asBlock span body)))
          (asBlock span body))) between
  | declare {name : Ident} {declared : Option Ty} {ty : Ty} {init : Option Expr} {span : Span} :
      Finishes params place between (.stmt (.declare name declared ty init span))
        (.stmt (.declare name declared (variableType declared ty init) init span))
        (withVariable name (variableType declared ty init) between)

/-! ## Lists of parts -/

section Lists

variable {step : Nat → Scope → Node → Node → Scope → Prop} (index : Nat)

/-- Expressions are looked at one after the other. -/
theorem threads_exprs {sources results : List Expr}
    (ends : Ends (exprs params sources) before results after)
    (free : ∀ {index before after} {source result : Expr},
      InfersAt params (some .free) before (.expr source) (.expr result) after →
        step index before (.expr source) (.expr result) after) :
    Threads step index before (sources.map .value) (results.map .value) after := by
  induction sources generalizing before results index with
  | nil =>
    obtain ⟨rfl, rfl⟩ := ends_pure.1 ends
    exact .nil
  | cons first rest inductionHypothesis =>
    simp only [exprs, ends_bind, ends_pure] at ends
    obtain ⟨_, _, firstEnds, _, _, restEnds, rfl, rfl⟩ := ends
    exact .cons (free firstEnds) (inductionHypothesis _ restEnds)

/-- Arguments are looked at one after the other, each for the type that its place requires. -/
theorem threads_args (offset : Nat) {required : Nat → Option Ty} {sources results : List Expr}
    (ends : Ends (args params required index sources) before results after)
    (consumed : ∀ {index before source result after},
      InfersAt params (some (.consumed (required index))) before source result after →
        step (index + offset) before source result after) :
    Threads step (index + offset) before (sources.map .value) (results.map .value) after := by
  induction sources generalizing before results index with
  | nil =>
    obtain ⟨rfl, rfl⟩ := ends_pure.1 ends
    exact .nil
  | cons first rest inductionHypothesis =>
    simp only [args, ends_bind, ends_pure] at ends
    obtain ⟨_, _, firstEnds, _, _, restEnds, rfl, rfl⟩ := ends
    refine .cons (consumed firstEnds) ?_
    rw [Nat.add_right_comm]
    exact inductionHypothesis _ restEnds

/-- Entries are looked at one after the other, keys and values in turn. -/
theorem threads_entries {sources results : List (Expr × Expr)}
    (ends : Ends (entries params sources) before results after)
    (free : ∀ {index before source result after},
      InfersAt params (some .free) before source result after →
        step index before source result after) :
    sources.length = results.length ∧
      Threads step index before (sources.flatMap Part.entry) (results.flatMap Part.entry)
        after := by
  induction sources generalizing before results index with
  | nil =>
    obtain ⟨rfl, rfl⟩ := ends_pure.1 ends
    exact ⟨rfl, .nil⟩
  | cons first rest inductionHypothesis =>
    simp only [entries, ends_bind, ends_pure] at ends
    obtain ⟨_, _, keyEnds, _, _, valueEnds, _, _, restEnds, rfl, rfl⟩ := ends
    obtain ⟨sameLength, threads⟩ : rest.length = _ ∧ Threads step (index + 1 + 1) _ _ _ _ :=
      inductionHypothesis _ restEnds
    exact ⟨congrArg (· + 1) sameLength, .cons (free keyEnds) (.cons (free valueEnds) threads)⟩

/-- A value that may be absent is looked at where it is present. -/
theorem threads_optional {source result : Option Expr}
    (ends : Ends (optional params place source) before result after)
    (here : ∀ {index before after} {source result : Expr},
      InfersAt params (some place) before (.expr source) (.expr result) after →
        step index before (.expr source) (.expr result) after) :
    Threads step index before (source.toList.map .value) (result.toList.map .value) after := by
  cases source with
  | none =>
    obtain ⟨rfl, rfl⟩ := ends_pure.1 ends
    exact .nil
  | some source =>
    simp only [optional, ends_bind, ends_pure] at ends
    obtain ⟨_, _, sourceEnds, rfl, rfl⟩ := ends
    exact .cons (here sourceEnds) .nil

/-- Statements are looked at one after the other. -/
theorem threads_stmts {sources results : List Stmt}
    (ends : Ends (stmts params sources) before results after)
    (free : ∀ {index before after} {source result : Stmt},
      InfersAt params (some .free) before (.stmt source) (.stmt result) after →
        step index before (.stmt source) (.stmt result) after) :
    Threads step index before (sources.map .stmt) (results.map .stmt) after := by
  induction sources generalizing before results index with
  | nil =>
    obtain ⟨rfl, rfl⟩ := ends_pure.1 ends
    exact .nil
  | cons first rest inductionHypothesis =>
    simp only [stmts, ends_bind, ends_pure] at ends
    obtain ⟨_, _, firstEnds, _, _, restEnds, rfl, rfl⟩ := ends
    exact .cons (free firstEnds) (inductionHypothesis _ restEnds)

/-- A block that may be absent is looked at where it is present. -/
theorem threads_block {source result : Option (List Stmt)}
    (ends : Ends (block? params source) before result after)
    (free : ∀ {index before after} {source result : Stmt},
      InfersAt params (some .free) before (.stmt source) (.stmt result) after →
        step index before (.stmt source) (.stmt result) after) :
    source.isSome = result.isSome ∧
      Threads step index before ((source.getD []).map .stmt) ((result.getD []).map .stmt)
        after := by
  cases source with
  | none =>
    obtain ⟨rfl, rfl⟩ := ends_pure.1 ends
    exact ⟨rfl, .nil⟩
  | some source =>
    simp only [block?, ends_bind, ends_pure] at ends
    obtain ⟨_, _, sourceEnds, rfl, rfl⟩ := ends
    exact ⟨rfl, threads_stmts _ sourceEnds free⟩

/-- A body is inferred as the body that it is, and then turned into a block. -/
theorem threads_body {source : LambdaBody} {result : List Stmt}
    (ends : Ends (lambdaBody params source) before result after)
    (free : ∀ {index before source result after},
      InfersAt params (some .free) before source result after →
        step index before source result after) :
    ∃ rebuilt span, source.shell = rebuilt.shell ∧ result = asBlock span rebuilt ∧
      Threads step index before source.parts rebuilt.parts after := by
  cases source with
  | expr value =>
    simp only [lambdaBody, ends_bind, ends_pure] at ends
    obtain ⟨newValue, _, valueEnds, rfl, rfl⟩ := ends
    exact ⟨.expr newValue, value.span, rfl, rfl, .cons (free valueEnds) .nil⟩
  | block body =>
    have threads : Threads step index before (body.map .stmt) (result.map .stmt) after :=
      threads_stmts _ ends free
    refine ⟨.block result, .unknown, ?_, rfl, threads⟩
    simp only [LambdaBody.shell, Part.holes_eq threads.related]

/-- Parts that are not looked at stay as they are. -/
theorem threads_skipped (parts : List Part)
    (skips : ∀ {offset before source}, offset < parts.length →
      step (index + offset) before source source before) :
    Threads step index before parts parts before := by
  induction parts generalizing index with
  | nil => exact .nil
  | cons first rest inductionHypothesis =>
    refine .cons (skips (Nat.zero_lt_succ _)) (inductionHypothesis _ fun {offset _ _} less => ?_)
    rw [Nat.add_assoc, Nat.add_comm 1]
    exact skips (Nat.succ_lt_succ less)

/-- Attributes are looked at one after the other. -/
theorem threads_attrs {sources results : List Attribute}
    (ends : Ends (attrs sources) before results after)
    (free : ∀ {index before after} {source result : Attribute},
      InfersAt [] (some .free) before (.attr source) (.attr result) after →
        step index before (.attr source) (.attr result) after) :
    Threads step index before (sources.map .attr) (results.map .attr) after := by
  induction sources generalizing before results index with
  | nil =>
    obtain ⟨rfl, rfl⟩ := ends_pure.1 ends
    exact .nil
  | cons first rest inductionHypothesis =>
    simp only [attrs, List.mapM_cons] at ends
    obtain ⟨newFirst, between, firstEnds, ends⟩ := ends_bind.1 ends
    obtain ⟨newRest, _, restEnds, ends⟩ := ends_bind.1 ends
    obtain ⟨rfl, rfl⟩ := ends_pure.1 ends
    have infers : InfersAt [] (some .free) before (.attr first) (.attr newFirst) between := by
      simp only [InfersAt, attrs, List.mapM_cons, List.mapM_nil, pure_bind]
      exact ends_bind.2 ⟨newFirst, between, firstEnds, ends_pure.2 ⟨rfl, rfl⟩⟩
    exact .cons (free infers) (inductionHypothesis _ restEnds)

/-- The arguments of an attribute are looked at one after the other. -/
theorem threads_attributeArgs {sources results : List AttributeArg}
    (ends : Ends (sources.mapM fun arg => do
      let value ← expr [] .free arg.value
      return { arg with value }) before results after) :
    sources.map ({ · with value := Expr.hole }) = results.map ({ · with value := .hole }) ∧
      Threads (fun _ => InfersAt [] (some .free)) index before
        (sources.map fun arg => .value arg.value) (results.map fun arg => .value arg.value)
        after := by
  induction sources generalizing before results index with
  | nil =>
    obtain ⟨rfl, rfl⟩ := ends_pure.1 ends
    exact ⟨rfl, .nil⟩
  | cons first rest inductionHypothesis =>
    simp only [List.mapM_cons, ends_bind, ends_pure] at ends
    obtain ⟨_, _, ⟨_, _, valueEnds, rfl, rfl⟩, _, _, restEnds, rfl, rfl⟩ := ends
    obtain ⟨sameHoles, threads⟩ := inductionHypothesis (index + 1) restEnds
    exact ⟨congrArg (_ :: ·) sameHoles, .cons valueEnds threads⟩

end Lists

/-! ## Nodes -/

/-- What inference does at a node: the parts one after the other, and then the node. -/
def Opens (params : Scope) (place : Place) (before : Scope) (source result : Node) (after : Scope) :
    Prop :=
  ∃ rebuilt between, source.shell = rebuilt.shell ∧
    Threads (fun index => InfersAt (innerParams params place source)
      (placeAt place source rebuilt index)) 0 before source.parts rebuilt.parts between ∧
    Finishes params place between rebuilt result after

/-- A plain node stays as its parts make it. -/
theorem opens_same {source result : Node} (plain : staysPlain result = true)
    (shell : source.shell = result.shell)
    (threads : Threads (fun index => InfersAt (innerParams params place source)
      (placeAt place source result index)) 0 before source.parts result.parts after) :
    Opens params place before source result after :=
  ⟨result, after, shell, threads, .same plain⟩

/-- Inference of an expression infers its parts and finishes what it has become. -/
theorem expr_opens {source result : Expr}
    (ends : Ends (expr params place source) before result after) :
    Opens params place before (.expr source) (.expr result) after := by
  cases source
  case lambda note lambdaParams ret body =>
    simp only [expr, ends_bind, ends_pure] at ends
    obtain ⟨stmts, _, bodyEnds, rfl, rfl⟩ := ends
    obtain ⟨rebuilt, span, shell, rfl, threads⟩ := threads_body 0 bodyEnds id
    exact ⟨.expr (.lambda note lambdaParams ret rebuilt), _,
      by simp only [Node.shell, Expr.shell, shell], threads, .lambda⟩
  case paren note inner =>
    simp only [expr] at ends
    split at ends
    · -- Only a function literal that is stored or passed on loses its parentheses.
      split at ends
      case isTrue literal =>
        refine ⟨.expr (.paren note result), _, rfl, .cons ?_ .nil, .paren rfl⟩
        simp only [placeAt, if_pos literal]
        exact ends
      case isFalse other =>
        simp only [ends_bind, ends_pure] at ends
        obtain ⟨_, _, innerEnds, rfl, rfl⟩ := ends
        refine opens_same rfl rfl (.cons ?_ .nil)
        simp only [placeAt, if_neg other]
        exact innerEnds
    · simp only [ends_bind, ends_pure] at ends
      obtain ⟨_, _, innerEnds, rfl, rfl⟩ := ends
      refine opens_same rfl rfl (.cons ?_ .nil)
      simp only [placeAt, ite_self]
      exact innerEnds
  case ident note name binding =>
    simp only [expr, ends_bind, ends_get, ends_pure] at ends
    obtain ⟨_, _, ⟨rfl, rfl⟩, rfl, rfl⟩ := ends
    refine ⟨.expr (.ident note name binding), _, rfl, .nil, ?_⟩
    cases binding <;> exact .ident
  case invoke note callee typeArgs arguments signature =>
    simp only [expr, ends_bind, ends_pure] at ends
    obtain ⟨newCallee, _, calleeEnds, newArgs, _, argsEnds, rfl, rfl⟩ := ends
    have threads : Threads (fun index => InfersAt params
        (placeAt place (.expr (.invoke note callee typeArgs arguments signature))
          (.expr (.invoke note newCallee typeArgs newArgs signature)) index)) 1 _
        (arguments.map .value) (newArgs.map .value) _ := threads_args 0 1 argsEnds id
    refine ⟨.expr (.invoke note newCallee typeArgs newArgs signature), _, ?_,
      .cons calleeEnds threads, .invoke⟩
    simp only [Node.shell, Expr.shell, Part.holes_eq threads.related]
  case construct note constructed arguments signature =>
    simp only [expr, ends_bind, ends_pure] at ends
    obtain ⟨newArgs, _, argsEnds, rfl, rfl⟩ := ends
    have threads : Threads (fun index => InfersAt params
        (placeAt place (.expr (.construct note constructed arguments signature))
          (.expr (.construct note constructed newArgs signature)) index)) 0 _
        (arguments.map .value) (newArgs.map .value) _ := threads_args 0 0 argsEnds id
    exact opens_same rfl (by simp only [Node.shell, Expr.shell, Part.holes_eq threads.related])
      threads
  case index note target indices =>
    simp only [expr, ends_bind, ends_pure] at ends
    obtain ⟨_, _, targetEnds, _, _, indicesEnds, rfl, rfl⟩ := ends
    have threads := threads_exprs 1 indicesEnds id
    refine opens_same rfl ?_ (.cons targetEnds threads)
    simp only [Node.shell, Expr.shell, Part.holes_eq threads.related]
  case array note element items =>
    simp only [expr, ends_bind, ends_pure] at ends
    obtain ⟨_, _, itemsEnds, rfl, rfl⟩ := ends
    have threads := threads_exprs 0 itemsEnds id
    exact opens_same rfl (by simp only [Node.shell, Expr.shell, Part.holes_eq threads.related])
      threads
  case map note pairs =>
    simp only [expr, ends_bind, ends_pure] at ends
    obtain ⟨_, _, pairsEnds, rfl, rfl⟩ := ends
    obtain ⟨sameLength, threads⟩ := threads_entries 0 pairsEnds id
    exact opens_same rfl (by simpa [Node.shell, Expr.shell] using sameLength) threads
  case assign | binary =>
    simp only [expr, ends_bind, ends_pure] at ends
    obtain ⟨_, _, firstEnds, _, _, secondEnds, rfl, rfl⟩ := ends
    exact opens_same rfl rfl (.cons firstEnds (.cons secondEnds .nil))
  case ternary =>
    simp only [expr, ends_bind, ends_pure] at ends
    obtain ⟨_, _, firstEnds, _, _, secondEnds, _, _, thirdEnds, rfl, rfl⟩ := ends
    exact opens_same rfl rfl (.cons firstEnds (.cons secondEnds (.cons thirdEnds .nil)))
  case member | unary | cast | tryCast | newArray =>
    simp only [expr, ends_bind, ends_pure] at ends
    obtain ⟨_, _, partEnds, rfl, rfl⟩ := ends
    exact opens_same rfl rfl (.cons partEnds .nil)
  all_goals
    obtain ⟨rfl, rfl⟩ := ends_pure.1 ends
    exact opens_same rfl rfl .nil

/-- Inference of a statement infers its parts and finishes what it has become. -/
theorem stmt_opens {source result : Stmt} (ends : Ends (stmt params source) before result after) :
    Opens params place before (.stmt source) (.stmt result) after := by
  cases source
  case declare name declared ty init span =>
    simp only [stmt, ends_bind] at ends
    obtain ⟨newInit, between, initEnds, ends⟩ := ends
    have threads : Threads (fun index => InfersAt params
        (placeAt place (.stmt (.declare name declared ty init span))
          (.stmt (.declare name declared ty newInit span)) index)) 0 _
        (init.toList.map .value) (newInit.toList.map .value) _ := threads_optional 0 initEnds id
    refine ⟨.stmt (.declare name declared ty newInit span), between, ?_, threads, ?_⟩
    · simp only [Node.shell, Stmt.shell, Part.optional_holes_eq threads.related]
    · have declares : result = .declare name declared (variableType declared ty newInit) newInit
          span ∧ after = withVariable name (variableType declared ty newInit) between := by
        unfold withVariable
        change Ends (if (variableType declared ty newInit).isDelegate = true then _ else _)
          _ _ _ at ends
        split at ends
        case isTrue known =>
          simp only [ends_bind, ends_modify, ends_pure] at ends
          obtain ⟨_, _, rfl, rfl, rfl⟩ := ends
          exact ⟨rfl, (if_pos known).symm⟩
        case isFalse unknown =>
          obtain ⟨rfl, rfl⟩ := ends_pure.1 ends
          exact ⟨rfl, (if_neg unknown).symm⟩
      obtain ⟨rfl, rfl⟩ := declares
      exact .declare
  case branch condition thenBody elseBody =>
    simp only [stmt, ends_bind, ends_pure] at ends
    obtain ⟨_, _, conditionEnds, _, _, thenEnds, _, _, elseEnds, rfl, rfl⟩ := ends
    have thenThreads := threads_stmts 1 thenEnds id
    obtain ⟨samePresence, elseThreads⟩ :=
      threads_block (1 + (thenBody.map Part.stmt).length) elseEnds id
    refine opens_same rfl ?_ (.cons conditionEnds (thenThreads.append elseThreads))
    simp only [Node.shell, Stmt.shell, Part.holes_eq thenThreads.related,
      Part.block_holes_eq samePresence elseThreads.related]
  case forLoop init condition step body =>
    simp only [stmt, ends_bind, ends_pure] at ends
    obtain ⟨_, _, initEnds, _, _, conditionEnds, _, _, stepEnds, _, _, bodyEnds, rfl, rfl⟩ := ends
    have initThreads := threads_stmts 0 initEnds id
    have conditionThreads := threads_optional (0 + (init.map Part.stmt).length) conditionEnds id
    have stepThreads := threads_exprs
      (0 + (init.map Part.stmt).length + (condition.toList.map Part.value).length) stepEnds id
    have bodyThreads := threads_stmts (0 + (init.map Part.stmt).length +
      (condition.toList.map Part.value).length + (step.map Part.value).length) bodyEnds id
    refine opens_same rfl ?_ (initThreads.append
      (conditionThreads.append (stepThreads.append bodyThreads)))
    simp only [Node.shell, Stmt.shell, Part.holes_eq initThreads.related,
      Part.optional_holes_eq conditionThreads.related, Part.holes_eq stepThreads.related,
      Part.holes_eq bodyThreads.related]
  case whileLoop | forEach =>
    simp only [stmt, ends_bind, ends_pure] at ends
    obtain ⟨_, _, valueEnds, _, _, bodyEnds, rfl, rfl⟩ := ends
    have threads := threads_stmts 1 bodyEnds id
    refine opens_same rfl ?_ (.cons valueEnds threads)
    simp only [Node.shell, Stmt.shell, Part.holes_eq threads.related]
  case block body =>
    simp only [stmt, ends_bind, ends_pure] at ends
    obtain ⟨_, _, bodyEnds, rfl, rfl⟩ := ends
    have threads := threads_stmts 0 bodyEnds id
    exact opens_same rfl (by simp only [Node.shell, Stmt.shell, Part.holes_eq threads.related])
      threads
  case ret value span =>
    simp only [stmt, ends_bind, ends_pure] at ends
    obtain ⟨_, _, valueEnds, rfl, rfl⟩ := ends
    have threads := threads_optional 0 valueEnds id
    refine opens_same rfl ?_ threads
    simp only [Node.shell, Stmt.shell, Part.optional_holes_eq threads.related]
  case expr | throw =>
    simp only [stmt, ends_bind, ends_pure] at ends
    obtain ⟨_, _, valueEnds, rfl, rfl⟩ := ends
    exact opens_same rfl rfl (.cons valueEnds .nil)
  all_goals
    obtain ⟨rfl, rfl⟩ := ends_pure.1 ends
    exact opens_same rfl rfl .nil

/-- Inference of an attribute infers its parts and finishes what it has become. -/
theorem attr_opens {source result : Attribute}
    (ends : Ends (attrs [source]) before [result] after) :
    Opens params place before (.attr source) (.attr result) after := by
  simp only [attrs, List.mapM_cons, List.mapM_nil, ends_bind, ends_pure] at ends
  obtain ⟨_, _, ⟨newArgs, _, argsEnds, rfl, rfl⟩, _, _, ⟨rfl, rfl⟩, same, rfl⟩ := ends
  obtain rfl := (List.cons.inj same).1
  obtain ⟨sameHoles, threads⟩ := threads_attributeArgs 0 argsEnds
  refine opens_same rfl ?_ threads
  simp only [Node.shell, Attribute.shell, sameHoles]

/-- Inference of a member infers its parts and finishes what it has become. -/
theorem member_opens {source result : Member}
    (ends : Ends (memberParts source) before result after) :
    Opens params place before (.member source) (.member result) after := by
  cases source with
  | field decl =>
    simp only [memberParts, ends_bind, ends_pure] at ends
    obtain ⟨newInit, _, initEnds, rfl, rfl⟩ := ends
    have attrsThreads : Threads (fun index => InfersAt [] (placeAt place (.member (.field decl))
        (.member (.field { decl with init := newInit })) index)) 0 before (decl.attrs.map .attr)
        (decl.attrs.map .attr) before := by
      refine threads_skipped 0 _ fun {offset _ _} less => ?_
      rw [List.length_map] at less
      simp only [placeAt, Nat.zero_add, if_pos less]
      exact ⟨rfl, rfl⟩
    have initThreads : Threads (fun index => InfersAt [] (placeAt place (.member (.field decl))
        (.member (.field { decl with init := newInit })) index))
        (0 + (decl.attrs.map Part.attr).length) before (decl.init.toList.map .value)
        (newInit.toList.map .value) after := by
      cases isInit : decl.init with
      | none =>
        rw [isInit] at initEnds
        obtain ⟨rfl, rfl⟩ := ends_pure.1 initEnds
        exact .nil
      | some init =>
        rw [isInit] at initEnds
        simp only [optional, ends_bind, ends_pure] at initEnds
        obtain ⟨_, _, valueEnds, rfl, rfl⟩ := initEnds
        refine .cons ?_ .nil
        simp only [placeAt, List.length_map, Nat.zero_add, Nat.lt_irrefl, if_false]
        exact valueEnds
    refine opens_same rfl ?_ (attrsThreads.append initThreads)
    simp only [Node.shell, Member.shell, Part.optional_holes_eq initThreads.related]
  | method decl =>
    simp only [memberParts, ends_bind, ends_pure] at ends
    obtain ⟨newAttrs, _, attrsEnds, newBody, _, bodyEnds, rfl, rfl⟩ := ends
    have attrsThreads := threads_attrs 0 attrsEnds id
    obtain ⟨samePresence, bodyThreads⟩ :=
      threads_block (0 + (decl.attrs.map Part.attr).length) bodyEnds id
    refine opens_same rfl ?_ (attrsThreads.append bodyThreads)
    simp only [Node.shell, Member.shell, Part.holes_eq attrsThreads.related,
      Part.block_holes_eq samePresence bodyThreads.related]
  | ctor decl =>
    cases chained : decl.chain with
    | none =>
      simp only [memberParts, chained, ends_bind, ends_pure] at ends
      obtain ⟨_, _, ⟨rfl, rfl⟩, newBody, _, bodyEnds, rfl, rfl⟩ := ends
      have bodyThreads := threads_stmts 0 bodyEnds id
      refine opens_same rfl ?_ ?_
      · simp only [Node.shell, Member.shell, chained, Part.holes_eq bodyThreads.related]
      · simp only [parts, Member.parts, CtorDecl.chainArgs, chained]
        exact bodyThreads
    | some chain =>
      simp only [memberParts, chained, ends_bind, ends_pure] at ends
      obtain ⟨newArgs, _, argsEnds, _, _, ⟨rfl, rfl⟩, newBody, _, bodyEnds, rfl, rfl⟩ := ends
      have argsThreads := threads_exprs 0 argsEnds id
      have bodyThreads := threads_stmts (0 + (chain.args.map Part.value).length) bodyEnds id
      refine opens_same rfl ?_ ?_
      · simp only [Node.shell, Member.shell, chained, Option.map_some,
          Part.holes_eq argsThreads.related, Part.holes_eq bodyThreads.related]
      · simp only [parts, Member.parts, CtorDecl.chainArgs, chained]
        exact argsThreads.append bodyThreads

/-- Inference goes through a node part by part, and then finishes the node. -/
theorem InfersAt.opens {source result : Node}
    (infers : InfersAt params (some place) before source result after) :
    Opens params place before source result after := by
  cases source <;> cases result <;> first | exact infers.elim | skip
  case expr.expr => exact expr_opens infers
  case stmt.stmt => exact stmt_opens infers
  case attr.attr => exact attr_opens infers
  case member.member => exact member_opens infers

/-! ## Members, declarations and units -/

variable {types : TypeTable}

/-- What becomes of a node of a unit. Members get their casts again, and start without locals. -/
def Settles (types : TypeTable) : Scope → Node → Node → Scope → Prop
  | before, .member source, .member result, after =>
    Ends (member types source) before result after
  | before, .decl source, .decl result, after => Ends (decl types source) before result after
  | before, source, result, after => InfersAt [] (some .free) before source result after

/-- A member is inferred by itself. Then its casts are put in, or it stays as it is. -/
theorem member_settles {source result : Member}
    (ends : Ends (member types source) before result after) :
    ∃ inferred, InfersAt [] (some .free) [] (.member source) (.member inferred) after ∧
      (result = inferred ∨ Gives (Coercion.member types inferred) result) := by
  obtain ⟨inferred, locals, inferring⟩ : ∃ inferred locals,
      (memberParts source).run [] = (inferred, locals) := ⟨_, _, rfl⟩
  have settles : Gives (member types source before) (result, after) := ends
  simp only [member, inferring] at settles
  split at settles
  · obtain ⟨settled, settling, finished⟩ := gives_bind.1 settles
    obtain ⟨rfl, rfl⟩ := Prod.mk.inj (gives_pure.1 finished)
    exact ⟨inferred, inferring, .inr settling⟩
  · obtain ⟨_, same, finished⟩ := gives_bind.1 settles
    obtain ⟨rfl, rfl⟩ := Prod.mk.inj (gives_pure.1 finished)
    exact ⟨inferred, inferring, .inl (gives_pure.1 same)⟩

/-- Putting the casts into a member is a walk of it. -/
theorem walk_member {source result : Member}
    (settles : Gives (Coercion.member types source) result) :
    Gives ((Coercion.traversal types).node none (.member source)) (.member result) :=
  gives_bind.2 ⟨result, settles, gives_pure.2 rfl⟩

/-- Items whose steps settle them pass the state on one after the other. -/
theorem threads_mapM {α : Type} {part : α → Node} {computation : α → StateT Scope (Except Fault) α}
    {sources results : List α} {index : Nat}
    (settles : ∀ {source before result after}, Ends (computation source) before result after →
      Settles types before (part source) (part result) after)
    (ends : Ends (sources.mapM computation) before results after) :
    Threads (fun _ => Settles types) index before (sources.map fun item => (.nested, part item))
      (results.map fun item => (.nested, part item)) after := by
  induction sources generalizing before results index with
  | nil =>
    obtain ⟨rfl, rfl⟩ := ends_pure.1 ends
    exact .nil
  | cons first rest inductionHypothesis =>
    simp only [List.mapM_cons, ends_bind, ends_pure] at ends
    obtain ⟨_, _, firstEnds, _, _, restEnds, rfl, rfl⟩ := ends
    exact .cons (settles firstEnds) (inductionHypothesis restEnds)

/-- Inference of a declaration settles its parts one after the other. -/
theorem decl_threads {source result : TypeDecl}
    (ends : Ends (decl types source) before result after) :
    Threads (fun _ => Settles types) 0 before (Node.decl source).parts (Node.decl result).parts
      after := by
  simp only [decl, ends_bind, ends_pure] at ends
  obtain ⟨newAttrs, between, attrsEnds, members, _, membersEnds, rfl, rfl⟩ := ends
  have inferring : Ends (attrs source.attrs) before newAttrs between := Except.ok.inj attrsEnds
  have attrsThreads : Threads (fun _ => Settles types) 0 before (source.attrs.map .attr)
      (newAttrs.map .attr) between := threads_attrs 0 inferring id
  exact attrsThreads.append (threads_mapM id membersEnds)

/-- The parts of a unit are settled from left to right. -/
theorem unit_threads {source result : SourceUnit}
    (lowered : LambdaShape.unit types source = .ok result) :
    ∃ after, Threads (fun _ => Settles types) 0 [] (Node.unit source).parts
      (Node.unit result).parts after := by
  obtain ⟨⟨decls, locals⟩, declsEnds, finished⟩ := gives_bind.1
    (show Gives (LambdaShape.unit types source) result from lowered)
  obtain ⟨globals, after, inferring⟩ : ∃ globals after,
      (stmts [] source.globals).run locals = (globals, after) := ⟨_, _, rfl⟩
  have ended : Ends (stmts [] source.globals) locals globals after := inferring
  have parts : (Node.unit result).parts = decls.map .decl ++ globals.map .stmt := by
    obtain rfl := gives_pure.1 finished
    rw [inferring]
    split <;> simp [Node.parts, SourceUnit.requireImport_decls, SourceUnit.requireImport_globals]
  rw [parts]
  exact ⟨after, (threads_mapM id declsEnds).append (threads_stmts _ ended id)⟩

end Lowering.LambdaShape

end ScriptSharp
