import ScriptSharp.Proofs.LambdaShape.Shaping
import ScriptSharp.Proofs.LambdaShape.Trace

/-!
# References to locals after inference

Inference remembers the functions that the statements of a member declare, by name and until the
member is over. `Retypes` says what this does to the events of a unit: references take the type of
the function that is remembered under their name, and nothing else changes but the types of such
functions. `carries_inferred` shows it node by node.

In a unit whose references are well-formed, the functions in scope are always the ones remembered,
which is the invariant `Remembers`. So a reference to a function gets its type. A reference to
anything else may get the type of a function that is out of scope, namely when one was declared
before in the same member under the same name.
-/

namespace ScriptSharp.Lowering.LambdaShape

open Outcome Node

variable {before after : Scope}

/-! ## Events -/

/-- The local after inference. Only a function that inference sees may get another type. -/
structure Redeclared (source result : Local) : Prop where
  name : source.name = result.name
  stage : source.stage = result.stage
  ty : source.ty = result.ty ∨ source.stage ≠ .unseen ∧ result.ty.isDelegate = true

/-- What inference makes of an event, where `locals` are the locals after inference. -/
inductive Retyped (locals : Locals) : Event → Event → Prop where
  | entered : Retyped locals .entered .entered
  | opened : Retyped locals .opened .opened
  | closed : Retyped locals .closed .closed
  | bound {source result : Local} (redeclared : Redeclared source result) :
      Retyped locals (.bound source) (.bound result)
  | referred {name : String} {ty : Ty} :
      Retyped locals (.referred name ty)
        (.referred name ((locals.functions.lookup name).getD ty))

/-- What inference makes of some events. -/
inductive Retypes : Locals → List Event → List Event → Prop where
  | nil {locals : Locals} : Retypes locals [] []
  | cons {locals : Locals} {source result : Event} {sources results : List Event}
      (first : Retyped locals source result)
      (rest : Retypes (locals.advance result) sources results) :
      Retypes locals (source :: sources) (result :: results)

/-- What inference makes of events goes on with the locals that the first ones leave. -/
theorem Retypes.append {locals : Locals} {sources results moreSources moreResults : List Event}
    (first : Retypes locals sources results)
    (second : Retypes (locals.after results) moreSources moreResults) :
    Retypes locals (sources ++ moreSources) (results ++ moreResults) := by
  induction first with
  | nil => exact second
  | cons retyped _ inductionHypothesis => exact .cons retyped (inductionHypothesis second)

/-- From the events `sources` inference makes `results`, up to repeated references. It starts with
the functions `before`, and ends with `after`. -/
def Carries (before : Scope) (sources results : List Event) (after : Scope) : Prop :=
  ∀ locals : Locals, locals.functions = before →
    (∃ events, Retypes locals sources events ∧ Covers events results) ∧
      (locals.after results).functions = after

namespace Carries

variable {between : Scope} {sources results moreSources moreResults : List Event}

/-- Events in a row are carried one part after the other. -/
theorem append (first : Carries before sources results between)
    (second : Carries between moreSources moreResults after) :
    Carries before (sources ++ moreSources) (results ++ moreResults) after := by
  intro locals known
  obtain ⟨⟨events, retypes, covers⟩, knownBetween⟩ := first locals known
  obtain ⟨⟨more, retypesMore, coversMore⟩, knownAfter⟩ := second _ knownBetween
  rw [covers.after] at retypesMore
  refine ⟨⟨events ++ more, retypes.append retypesMore, covers.append coversMore⟩, ?_⟩
  rw [Locals.after_append]
  exact knownAfter

/-- What is carried may go on to events that cover the results. -/
theorem covers (carries : Carries before sources results after)
    (covers : Covers results moreResults) : Carries before sources moreResults after := by
  intro locals known
  obtain ⟨⟨events, retypes, coversResults⟩, knownAfter⟩ := carries locals known
  rw [← covers.after] at knownAfter
  exact ⟨⟨events, retypes, coversResults.trans covers⟩, knownAfter⟩

/-- A single event is carried if it is for all locals that know the same functions. -/
theorem one {source result : Event}
    (step : ∀ locals : Locals, locals.functions = before →
      Retyped locals source result ∧ (locals.advance result).functions = after) :
    Carries before [source] [result] after := by
  intro locals known
  obtain ⟨retyped, knownAfter⟩ := step locals known
  exact ⟨⟨[result], .cons retyped .nil, .refl _⟩, knownAfter⟩

end Carries

/-- Inference leaves the event as it is and learns nothing from it, where it knows the functions
`known`. -/
def Still (known : Scope) : Event → Prop
  | .opened | .closed => True
  | .bound entry => entry.isFunction = false
  | .entered | .referred .. => known = []

/-- Events that change no functions are carried as they are. -/
theorem carries_still {events : List Event} (still : ∀ event ∈ events, Still before event) :
    Carries before events events before := by
  induction events with
  | nil => exact fun _ known => ⟨⟨[], .nil, .refl _⟩, known⟩
  | cons event rest inductionHypothesis =>
    obtain ⟨here, stillRest⟩ := List.forall_mem_cons.1 still
    refine (Carries.one fun locals known => ?_).append (inductionHypothesis stillRest)
    cases event with
    | entered => exact ⟨.entered, (here : before = []) ▸ rfl⟩
    | opened => exact ⟨.opened, known⟩
    | closed => exact ⟨.closed, known⟩
    | bound entry =>
      refine ⟨.bound ⟨rfl, rfl, .inl rfl⟩, ?_⟩
      rw [Locals.advance, here]
      exact known
    | referred name ty =>
      have same : (locals.functions.lookup name).getD ty = ty := by
        rw [known, (here : before = [])]
        rfl
      refine ⟨?_, known⟩
      nth_rewrite 2 [← same]
      exact .referred

/-! ## Nodes -/

/-- Scopes and the items of loops teach inference nothing. -/
theorem still_between (node : Node) (index : Nat) :
    ∀ event ∈ between node index, Still before event := by
  unfold between
  split
  · split <;> simp [Still]
  · split <;> simp [Still, Local.isFunction]
  · simp

/-- The events below a node are carried if those of each part are. -/
theorem carries_below {step : Nat → Scope → Node → Node → Scope → Prop} {source result : Node}
    {seen : Bool} {start : Nat} {sources results : List Part}
    (sameBetween : between source = between result)
    (sameSeen : seenBelow seen source = seenBelow seen result)
    (threads : Threads step start before sources results after)
    (each : ∀ {index before after child replacement}, child ∈ sources.map (·.2) →
      step index before child replacement after →
        Carries before (trace (seenBelow seen source index) child)
          (trace (seenBelow seen source index) replacement) after) :
    Carries before (traceBelow seen source start (sources.map (·.2)))
      (traceBelow seen result start (results.map (·.2))) after := by
  induction threads with
  | nil => exact carries_still nofun
  | cons first _ inductionHypothesis =>
    rw [List.map_cons, List.map_cons, traceBelow_cons, traceBelow_cons, ← sameBetween, ← sameSeen]
    exact ((carries_still (still_between source _)).append (each List.mem_cons_self first)).append
      (inductionHypothesis fun member => each (List.mem_cons_of_mem _ member))

/-- Nothing is learned from what inference does not see. -/
theorem still_unseen (node : Node) : ∀ event ∈ trace false node, Still [] event := by
  induction node using Node.induct with
  | step node inductionHypothesis =>
    have stillOpening : ∀ event ∈ opening node, Still [] event := by
      unfold opening
      split <;> simp [Still, Local.isFunction]
    have stillClosing : ∀ event ∈ closing false node, Still [] event := by
      unfold closing
      split <;> simp [Still, Local.isFunction]
    have unseen (index : Nat) : seenBelow false node index = false := by
      unfold seenBelow
      split <;> rfl
    rw [trace_eq]
    simp only [List.forall_mem_append, traceBelow, List.forall_mem_flatMap, unseen]
    refine ⟨stillOpening, fun entry entryOf => ⟨still_between node _, ?_⟩, stillClosing⟩
    exact inductionHypothesis _ (List.fst_mem_of_mem_zipIdx entryOf)

variable {params : Scope} {place : Place}

/-- Inference keeps function literals, and makes no others. -/
theorem isLambda_inferred {source result : Expr}
    (infers : InfersAt params (some place) before (.expr source) (.expr result) after) :
    result.isLambda = source.isLambda := by
  induction source using Expr.stripParens.induct generalizing params place before result after with
  | case1 note inner inductionHypothesis =>
    obtain ⟨rebuilt, between, shell, threads, finishes⟩ := infers.opens
    cases rebuilt <;> simp only [Node.shell, reduceCtorEq, Node.expr.injEq] at shell
    case expr root =>
    cases root <;> simp only [Expr.shell, reduceCtorEq] at shell
    case paren rebuiltNote rebuiltInner =>
    cases threads with
    | cons first _ =>
      have sameInner := inductionHypothesis first
      cases finishes with
      | same => exact sameInner
      | paren => exact sameInner
  | case2 expr noParen =>
    obtain ⟨rebuilt, between, shell, threads, finishes⟩ := infers.opens
    cases rebuilt <;> simp only [Node.shell, reduceCtorEq, Node.expr.injEq] at shell
    case expr root =>
    cases expr <;> cases root <;> simp only [Expr.shell, reduceCtorEq] at shell
    case paren.paren => exact absurd rfl (noParen _ _)
    all_goals
      cases finishes <;> rfl

/-- A function literal that is stored or passed on gets a function type. -/
theorem isDelegate_inferred {required : Option Ty} {source result : Expr}
    (infers : InfersAt params (some (.consumed required)) before (.expr source) (.expr result)
      after)
    (literal : source.isLambda = true) : result.ty.isDelegate = true := by
  induction source using Expr.stripParens.induct generalizing params before result after with
  | case1 note inner inductionHypothesis =>
    have unwrapped : expr params (.consumed required) (.paren note inner) =
        expr params (.consumed required) inner := by
      rw [expr]
      exact if_pos literal
    rw [InfersAt, unwrapped] at infers
    exact inductionHypothesis infers literal
  | case2 root noParen =>
    cases root
    case lambda =>
      obtain ⟨rebuilt, between, shell, threads, finishes⟩ := infers.opens
      cases rebuilt <;> simp only [Node.shell, reduceCtorEq, Node.expr.injEq] at shell
      case expr root =>
      cases root <;> simp only [Expr.shell, reduceCtorEq] at shell
      cases finishes with
      | same plain => cases plain
      | lambda => rfl
    case paren => exact absurd rfl (noParen _ _)
    all_goals cases literal

/-! ## One node -/

/-- Parentheses leave no trace. -/
theorem trace_paren (seen : Bool) (note : Note) (inner : Expr) :
    trace seen (.expr (.paren note inner)) = trace seen (.expr inner) := by
  rw [trace_expr seen rfl rfl]
  simp [children, parts, Expr.parts, Part.value]

/-- The note of a call leaves no trace. -/
theorem trace_invoke (seen : Bool) (note other : Note) (callee : Expr) (typeArgs : List Ty)
    (args : List Expr) (signature : Option Signature) :
    trace seen (.expr (.invoke note callee typeArgs args signature)) =
      trace seen (.expr (.invoke other callee typeArgs args signature)) := by
  rw [trace_expr seen rfl rfl, trace_expr seen rfl rfl]
  rfl

/-- A name leaves the trace of its reference. -/
theorem trace_ident (seen : Bool) (note : Note) (name : Ident) (binding : Binding) :
    trace seen (.expr (.ident note name binding)) = opening (.expr (.ident note name binding)) := by
  rw [trace_eq, traceBelow_expr]
  simp [closing, isScope, children, parts, Expr.parts]

/-- A function literal has the events of its body between those of its scope. -/
theorem trace_lambda (seen : Bool) (note : Note) (lambdaParams : List LambdaParam) (ret : Option Ty)
    (body : LambdaBody) :
    trace seen (.expr (.lambda note lambdaParams ret body)) =
      .opened :: ((body.parts.flatMap fun part => trace seen part.2) ++ [.closed]) := by
  rw [trace_eq, traceBelow_expr, children, List.flatMap_map]
  rfl

/-- A body that became a block has the events of the body. -/
theorem flatMap_trace_asBlock (seen : Bool) (span : Span) (body : LambdaBody) :
    ((LambdaBody.block (asBlock span body)).parts.flatMap fun part => trace seen part.2) =
      body.parts.flatMap fun part => trace seen part.2 := by
  cases body with
  | expr value =>
    simp only [asBlock, LambdaBody.parts, Part.stmt, Part.value, List.map_cons, List.map_nil,
      List.flatMap_cons, List.flatMap_nil, List.append_nil]
    rw [trace_eq]
    simp [opening, closing, isScope, traceBelow, between, seenBelow, children, parts, Stmt.parts,
      Part.value]
  | block body => rfl

/-- The node is a member. -/
def isMember : Node → Bool
  | .member _ => true
  | _ => false

/-- Entering a plain node changes no functions. -/
theorem still_opening {node : Node} (plain : staysPlain node = true)
    (noMember : isMember node = false) : ∀ event ∈ opening node, Still before event := by
  unfold opening
  split
  case h_3 => cases noMember
  case h_4 => split <;> simp [Still]
  all_goals cases plain

/-- Leaving a plain node changes no functions. -/
theorem still_closing {node : Node} (plain : staysPlain node = true) :
    ∀ event ∈ closing true node, Still before event := by
  unfold closing
  split
  · cases plain
  · split <;> simp [Still]

/-- Inside of a node that is inferred there are no members. -/
theorem isMember_below {node result child : Node}
    (infers : InfersAt params (some place) before node result after)
    (childOf : child ∈ node.children) : isMember child = false := by
  have ofCode (code : isCode child = true) : isMember child = false := by
    cases child <;> first | rfl | cases code
  cases node with
  | expr root => exact ofCode (isCode_child rfl childOf)
  | stmt root => exact ofCode (isCode_child rfl childOf)
  | attr root => grind [children, parts, Part.value, isMember]
  | member root =>
    cases root <;> grind [children, parts, Member.parts, Part.attr, Part.value, Part.stmt, isMember]
  | decl root | unit root => exact infers.elim

/-- The parts of a node that is no field are inferred with what the parts before them taught. -/
theorem carries_parts {node rebuilt : Node} {between : Scope}
    (noField : isField node = false) (shell : node.shell = rebuilt.shell)
    (threads : Threads (fun index => InfersAt (innerParams params place node)
      (placeAt place node rebuilt index)) 0 before node.parts rebuilt.parts between)
    (each : ∀ child ∈ node.children, ∀ {inner before replacement after},
      InfersAt (innerParams params place node) (some inner) before child replacement after →
        Carries before (trace true child) (trace true replacement) after) :
    Carries before (traceBelow true node 0 node.children)
      (traceBelow true rebuilt 0 rebuilt.children) between := by
  refine carries_below (funext (between_eq shell)) (funext (seenBelow_eq shell true)) threads
    fun {index _ _ _ _} childOf inferred => ?_
  have seen : seenBelow true node index = true := by
    unfold seenBelow
    split <;> first | rfl | cases noField
  obtain ⟨inner, isPlace⟩ := exists_placeAt place noField rebuilt index
  rw [isPlace] at inferred
  rw [seen]
  exact each _ childOf inferred

/-- What a declaration says is learned after its initializer. -/
theorem carries_declare {between : Scope} {name : Ident} {declared : Option Ty} {ty newTy : Ty}
    {init newInit : Option Expr} {span : Span} (redeclared : ty = newTy ∨ newTy.isDelegate = true)
    (inside : Carries before
      (traceBelow true (.stmt (.declare name declared ty init span)) 0
        (Node.stmt (.declare name declared ty init span)).children)
      (traceBelow true (.stmt (.declare name declared newTy newInit span)) 0
        (Node.stmt (.declare name declared newTy newInit span)).children) between) :
    Carries before (trace true (.stmt (.declare name declared ty init span)))
      (trace true (.stmt (.declare name declared newTy newInit span)))
      (withVariable name newTy between) := by
  have opened : Carries before [.opened] [.opened] before := carries_still (by simp [Still])
  have pending : Carries before [.bound ⟨name.name, ty, .pending⟩]
      [.bound ⟨name.name, newTy, .pending⟩] before :=
    .one fun locals known => ⟨.bound ⟨rfl, rfl, redeclared.imp id (⟨nofun, ·⟩)⟩, known⟩
  have closed : Carries between [.closed] [.closed] between := carries_still (by simp [Still])
  have bound : Carries between [.bound ⟨name.name, ty, .declared⟩]
      [.bound ⟨name.name, newTy, .declared⟩] (withVariable name newTy between) := by
    refine .one fun locals known => ⟨.bound ⟨rfl, rfl, redeclared.imp id (⟨nofun, ·⟩)⟩, ?_⟩
    simp [Locals.advance, Local.isFunction, withVariable, known]
  rw [trace_eq, trace_eq]
  exact (opened.append pending).append (inside.append (closed.append bound))

/-- A reference to a local takes the type of the function that is known by its name. -/
theorem carries_ident (note : Note) (name : Ident) (binding : Binding) :
    Carries before (trace true (.expr (.ident note name binding)))
      (trace true (.expr (.ident
        { note with ty := (knownType params before name binding).getD note.ty } name binding)))
      before := by
  rw [trace_ident, trace_ident]
  cases binding
  case localVariable =>
    refine .one fun locals known => ⟨?_, known⟩
    rw [knownType, ← known]
    exact .referred
  all_goals exact carries_still nofun

/-- A variable keeps its type, or a function literal gives it one. -/
theorem variableType_inferred {declared : Option Ty} {ty : Ty} {required : Option Ty} {start : Nat}
    {source result : Option Expr}
    (threads : Threads (fun _ => InfersAt params (some (.consumed required))) start before
      (source.toList.map .value) (result.toList.map .value) after) :
    ty = variableType declared ty result ∨ (variableType declared ty result).isDelegate = true := by
  unfold variableType
  split
  case h_1 newValue =>
    split
    case isTrue literal =>
      cases source with
      | none => cases threads
      | some value =>
        cases threads with
        | cons first _ =>
          rw [isLambda_inferred first] at literal
          exact .inr (isDelegate_inferred first literal)
    case isFalse => exact .inl rfl
  case h_2 => exact .inl rfl

/-- What inference makes of the events of a node. -/
theorem carries_inferred (node : Node) {result : Node} (noMember : isMember node = false)
    (infers : InfersAt params (some place) before node result after) :
    Carries before (trace true node) (trace true result) after := by
  induction node using Node.induct generalizing params place before result after with
  | step node inductionHypothesis =>
    obtain ⟨rebuilt, between, shell, threads, finishes⟩ := infers.opens
    have noField : isField node = false := by
      cases node <;> first | rfl | cases noMember
    have inside : Carries before (traceBelow true node 0 node.children)
        (traceBelow true rebuilt 0 rebuilt.children) between :=
      carries_parts noField shell threads fun child childOf =>
        inductionHypothesis child childOf (isMember_below infers childOf)
    have whole (stillOpening : ∀ event ∈ opening rebuilt, Still before event)
        (stillClosing : ∀ event ∈ closing true rebuilt, Still between event) :
        Carries before (trace true node) (trace true rebuilt) between := by
      rw [trace_eq, trace_eq, opening_eq shell, closing_eq shell]
      exact (carries_still stillOpening).append (inside.append (carries_still stillClosing))
    -- The parts carry the scope on. What the node does around them changes no scope, unless it is a
    -- declaration, which may type its variable.
    cases finishes with
    | same plain =>
      have noMemberThere : isMember result = false := by
        cases node <;> cases result <;> first | rfl | cases shell | cases noMember
      exact whole (still_opening plain noMemberThere) (still_closing plain)
    | @ident note name binding =>
      obtain rfl : node = .expr (.ident note name binding) := by
        cases node <;> simp only [Node.shell, reduceCtorEq, Node.expr.injEq] at shell
        case expr root =>
        cases root <;> simp only [Expr.shell, reduceCtorEq] at shell
        exact congrArg Node.expr shell
      cases threads
      exact carries_ident note name binding
    | invoke =>
      rw [trace_invoke]
      exact whole (List.forall_mem_nil _) (List.forall_mem_nil _)
    | paren =>
      rw [← trace_paren]
      exact whole (List.forall_mem_nil _) (List.forall_mem_nil _)
    | lambda =>
      rw [shaped, trace_lambda, flatMap_trace_asBlock, ← trace_lambda]
      refine whole ?_ ?_ <;> simp [opening, closing, isScope, Still]
    | @declare name declared ty init span =>
      cases node <;> simp only [Node.shell, reduceCtorEq, Node.stmt.injEq] at shell
      case stmt root =>
      cases root <;> simp only [Stmt.shell, reduceCtorEq] at shell
      case declare sourceInit _ =>
      obtain ⟨rfl, rfl, rfl, -, rfl⟩ := Stmt.declare.inj shell
      exact carries_declare (variableType_inferred threads) inside

/-! ## Members and units -/

/-- Parts in a row leave their traces one after the other. -/
theorem traceBelow_append (seen : Bool) (node : Node) (start : Nat) (first second : List Node) :
    traceBelow seen node start (first ++ second) =
      traceBelow seen node start first ++ traceBelow seen node (start + first.length) second := by
  simp [traceBelow, List.zipIdx_append]

/-- Inference goes into the initializer of a field only. -/
theorem carries_field {decl : FieldDecl} {result : Member}
    (ends : Ends (memberParts (.field decl)) [] result after) :
    Carries [] (traceBelow true (.member (.field decl)) 0 (Node.member (.field decl)).children)
      (traceBelow true (.member result) 0 (Node.member result).children) after := by
  simp only [memberParts, ends_bind, ends_pure] at ends
  obtain ⟨newInit, _, initEnds, rfl, rfl⟩ := ends
  have unseen : ∀ event ∈ traceBelow true (.member (.field decl)) 0
      ((decl.attrs.map Part.attr).map (·.2)), Still [] event := by
    intro event member
    obtain ⟨entry, entryOf, member⟩ := List.mem_flatMap.1 member
    have less : entry.2 < decl.attrs.length := by
      simpa using List.snd_lt_of_mem_zipIdx entryOf
    have skipped : seenBelow true (.member (.field decl)) entry.2 = false := by
      simpa [seenBelow] using less
    rw [skipped] at member
    exact still_unseen _ event member
  simp only [children, parts, Member.parts, List.map_append, traceBelow_append]
  refine (carries_still unseen).append ?_
  cases isInit : decl.init with
  | none =>
    rw [isInit] at initEnds
    obtain ⟨rfl, rfl⟩ := ends_pure.1 initEnds
    exact carries_still (List.forall_mem_nil _)
  | some init =>
    rw [isInit] at initEnds
    simp only [optional, ends_bind, ends_pure] at initEnds
    obtain ⟨newValue, _, valueEnds, rfl, rfl⟩ := initEnds
    have inferred : InfersAt [] (some (.consumed (some decl.ty))) [] (.expr init) (.expr newValue)
        after := valueEnds
    simpa [traceBelow, between, seenBelow, Part.value] using
      carries_inferred (.expr init) rfl inferred

/-- What inference makes of the events of a member, which starts without known functions. -/
theorem carries_member {source result : Member}
    (infers : InfersAt [] (some .free) [] (.member source) (.member result) after) :
    Carries before (trace true (.member source)) (trace true (.member result)) after := by
  have opening : Carries before [.entered, .opened] [.entered, .opened] [] :=
    (Carries.one fun _ _ => ⟨.entered, rfl⟩).append (carries_still (by simp [Still]))
  have closing : Carries after [.closed] [.closed] after := carries_still (by simp [Still])
  have inside : Carries [] (traceBelow true (.member source) 0 (Node.member source).children)
      (traceBelow true (.member result) 0 (Node.member result).children) after := by
    cases source with
    | field decl => exact carries_field infers
    | method decl | ctor decl =>
      obtain ⟨rebuilt, between, shell, threads, finishes⟩ := infers.opens
      cases finishes
      exact carries_parts rfl shell threads fun child childOf =>
        carries_inferred child (isMember_below infers childOf)
  rw [trace_eq, trace_eq]
  exact opening.append (inside.append closing)

variable {types : TypeTable}

/-- A declaration leaves the traces of its parts. -/
theorem trace_decl (seen : Bool) (decl : TypeDecl) :
    trace seen (.decl decl) = traceBelow seen (.decl decl) 0 (Node.decl decl).children := by
  rw [trace_eq]
  simp [opening, closing, isScope]

/-- A unit leaves the traces of its parts. -/
theorem trace_unit (seen : Bool) (unit : SourceUnit) :
    trace seen (.unit unit) = traceBelow seen (.unit unit) 0 (Node.unit unit).children := by
  rw [trace_eq]
  simp [opening, closing, isScope]

/-- What becomes of the events of a part of a unit. -/
theorem carries_settled (node : Node) {result : Node}
    (settles : Settles types before node result after) :
    Carries before (trace true node) (trace true result) after := by
  induction node using Node.induct generalizing before result after with
  | step node inductionHypothesis =>
    cases node with
    | member source =>
      cases result <;> first | exact settles.elim | skip
      obtain ⟨inferred, infers, settled⟩ := member_settles settles
      rcases settled with rfl | settling
      · exact carries_member infers
      · exact (carries_member infers).covers (covers_walk _ (walk_member settling))
    | decl source =>
      cases result <;> first | exact settles.elim | skip
      rw [trace_decl, trace_decl]
      exact carries_below rfl rfl (decl_threads settles) fun member settled =>
        inductionHypothesis _ member settled
    | expr | stmt | attr | unit =>
      cases result <;> first | exact settles.elim | skip
      all_goals
        simp only [Settles] at settles
        exact carries_inferred _ rfl settles

/-- Inference carries the events of a whole unit. -/
theorem carries_unit {source result : SourceUnit}
    (lowered : LambdaShape.unit types source = .ok result) :
    ∃ after, Carries [] (trace true (.unit source)) (trace true (.unit result)) after := by
  obtain ⟨after, threads⟩ := unit_threads lowered
  rw [trace_unit, trace_unit]
  exact ⟨after, carries_below rfl rfl threads fun _ settled => carries_settled _ settled⟩

/-! ## Resolved references -/

/-- The event is well-formed: a reference stands in the scope of a local with its name and type,
and no local has the name of one in a scope around its own. -/
def WellScoped (locals : Locals) : Event → Prop
  | .referred name ty => (Locals.visible locals.scopes name).map (·.ty) = some ty
  | .bound entry =>
    entry.stage = .pending ∨
      ∀ scope ∈ locals.scopes.tail, ∀ other ∈ scope, other.name ≠ entry.name
  | _ => True

instance (locals : Locals) : (event : Event) → Decidable (WellScoped locals event)
  | .referred name ty =>
    inferInstanceAs (Decidable ((Locals.visible locals.scopes name).map (·.ty) = some ty))
  | .bound entry => inferInstanceAs (Decidable (entry.stage = .pending ∨
      ∀ scope ∈ locals.scopes.tail, ∀ other ∈ scope, other.name ≠ entry.name))
  | .entered | .opened | .closed => .isTrue trivial

/-- If the event is a reference, it stands in the scope of a local with its name. Outside of the
initializer of that local it has the type of the local exactly when no function of another type is
remembered under the name. Functions are referred to by their own type. -/
def Typed (locals : Locals) : Event → Prop
  | .referred name ty => ∃ entry, Locals.visible locals.scopes name = some entry ∧
      (entry.stage ≠ .pending →
        (ty = entry.ty ↔ ∀ other, locals.functions.lookup name = some other → other = entry.ty)) ∧
      (entry.isFunction = true → ty = entry.ty)
  | _ => True

/-- A local that is bound last is the one that is visible by its name. -/
theorem visible_bind (entry : Local) (scopes : List (List Local)) (name : String) :
    Locals.visible (Locals.bind entry scopes) name =
      if entry.name = name then some entry else Locals.visible scopes name := by
  have same : scopes.headD [] ++ scopes.tail.flatten = scopes.flatten := by
    cases scopes <;> rfl
  rw [Locals.visible, Locals.bind, List.flatten_cons, List.cons_append, same, List.find?_cons]
  by_cases here : entry.name = name <;> simp [here, Locals.visible]

/-- Names stand for the same locals before and after inference. -/
theorem exists_redeclared {sources results : List (List Local)}
    (scopes : List.Forall₂ (List.Forall₂ Redeclared) sources results) {name : String}
    {entry : Local} (found : Locals.visible sources name = some entry) :
    ∃ other, Locals.visible results name = some other ∧ Redeclared entry other := by
  have items : List.Forall₂ Redeclared sources.flatten results.flatten := List.rel_flatten scopes
  rw [Locals.visible] at found ⊢
  generalize sources.flatten = before at items found
  generalize results.flatten = after at items ⊢
  induction items with
  | nil => cases found
  | @cons first other _ _ redeclared _ inductionHypothesis =>
    rw [List.find?_cons] at found ⊢
    rw [← redeclared.name]
    split at found
    · cases found
      exact ⟨other, rfl, redeclared⟩
    · exact inductionHypothesis found

/-- Binding a local on both sides keeps the locals in step. -/
theorem redeclared_bind {sources results : List (List Local)} {before after : Local}
    (scopes : List.Forall₂ (List.Forall₂ Redeclared) sources results)
    (redeclared : Redeclared before after) :
    List.Forall₂ (List.Forall₂ Redeclared) (Locals.bind before sources)
      (Locals.bind after results) := by
  cases scopes with
  | nil => exact .cons (.cons redeclared .nil) .nil
  | cons first rest => exact .cons (.cons redeclared first) rest

/-- A name that is not in some scopes before inference is not in them afterwards. -/
theorem unused_redeclared {sources results : List (List Local)}
    (scopes : List.Forall₂ (List.Forall₂ Redeclared) sources results) {name : String}
    (unused : ∀ scope ∈ sources, ∀ other ∈ scope, other.name ≠ name) :
    ∀ scope ∈ results, ∀ other ∈ scope, other.name ≠ name := by
  intro scope scopeOf other otherOf
  obtain ⟨sourceScope, sourceScopeOf, items⟩ := exists_related scopes scopeOf
  obtain ⟨source, sourceOf, redeclared⟩ := exists_related items otherOf
  rw [← redeclared.name]
  exact unused sourceScope sourceScopeOf source sourceOf

/-- The functions in sight are those that are remembered under their names, also after some scopes
are closed. -/
def Remembers (locals : Locals) : Prop :=
  ∀ scopes, scopes <:+ locals.scopes → ∀ name entry, Locals.visible scopes name = some entry →
    entry.isFunction = true → locals.functions.lookup name = some entry.ty

/-- The locals before and after inference. -/
structure Agree (source result : Locals) : Prop where
  scopes : List.Forall₂ (List.Forall₂ Redeclared) source.scopes result.scopes
  remembers : Remembers result

namespace Agree

variable {source result : Locals}

/-- Before the first event both sides agree. -/
theorem start : Agree .start .start := by
  refine ⟨.cons .nil .nil, fun scopes suffix name entry found => ?_⟩
  rcases List.suffix_cons_iff.1 suffix with rfl | none
  · cases found
  · rw [List.suffix_nil.1 none] at found
    cases found

/-- Both sides go on to agree in a new scope. -/
theorem opened (agree : Agree source result) :
    Agree (source.advance .opened) (result.advance .opened) := by
  refine ⟨.cons .nil agree.scopes, fun scopes suffix name entry found => ?_⟩
  rcases List.suffix_cons_iff.1 suffix with rfl | suffix
  · exact agree.remembers result.scopes List.suffix_rfl name entry found
  · exact agree.remembers scopes suffix name entry found

/-- Both sides agree about the scopes further out. -/
theorem tail (agree : Agree source result) :
    List.Forall₂ (List.Forall₂ Redeclared) source.scopes.tail result.scopes.tail := by
  simpa using List.forall₂_drop 1 agree.scopes

/-- Both sides go on to agree when a scope ends. -/
theorem closed (agree : Agree source result) :
    Agree (source.advance .closed) (result.advance .closed) :=
  ⟨agree.tail, fun scopes suffix => agree.remembers scopes (suffix.trans (List.tail_suffix _))⟩

/-- Both sides go on to agree when a local is bound. -/
theorem bound (agree : Agree source result) {before after : Local}
    (redeclared : Redeclared before after) (wellScoped : WellScoped source (.bound before)) :
    Agree (source.advance (.bound before)) (result.advance (.bound after)) := by
  refine ⟨redeclared_bind agree.scopes redeclared, ?_⟩
  -- Under another name nothing new is remembered.
  have others (name : String) (different : after.name ≠ name) :
      (result.advance (.bound after)).functions.lookup name = result.functions.lookup name := by
    rw [Locals.advance]
    split
    · rw [List.lookup_cons, beq_eq_false_iff_ne.2 different.symm]
    · rfl
  intro scopes suffix name entry found isFunction
  rcases List.suffix_cons_iff.1 suffix with rfl | suffix
  · change Locals.visible (Locals.bind after result.scopes) name = some entry at found
    rw [visible_bind] at found
    split at found
    case isTrue here =>
      obtain rfl := Option.some.inj found
      simp [Locals.advance, isFunction, here]
    case isFalse different =>
      rw [others name different]
      exact agree.remembers result.scopes List.suffix_rfl name entry found isFunction
  · have known := agree.remembers scopes (suffix.trans (List.tail_suffix _)) name entry found
      isFunction
    rcases wellScoped with pending | unused
    · rw [redeclared.stage] at pending
      have unremembered : after.isFunction = false := by simp [Local.isFunction, pending]
      rw [Locals.advance, unremembered]
      exact known
    · rw [redeclared.name] at unused
      rw [others name, known]
      rintro rfl
      obtain ⟨scope, scopeOf, entryOf⟩ := List.mem_flatten.1 (List.mem_of_find?_eq_some found)
      have sameName : entry.name = after.name := by
        simpa using List.find?_some found
      exact unused_redeclared agree.tail unused scope (suffix.subset scopeOf) entry entryOf sameName

/-- A reference has the type of the local that is visible by its name. -/
theorem typed (agree : Agree source result) {name : String} {ty : Ty}
    (wellScoped : WellScoped source (.referred name ty)) :
    Typed result (.referred name ((result.functions.lookup name).getD ty)) := by
  obtain ⟨declared, found, rfl⟩ := Option.map_eq_some_iff.1 wellScoped
  obtain ⟨entry, foundEntry, redeclared⟩ := exists_redeclared agree.scopes found
  have known := agree.remembers result.scopes List.suffix_rfl name entry foundEntry
  refine ⟨entry, foundEntry, fun notPending => ?_, fun isFunction => by rw [known isFunction]; rfl⟩
  cases isFunction : entry.isFunction with
  | true => simp [known isFunction]
  | false =>
    have sameTy : declared.ty = entry.ty := by
      rcases redeclared.ty with same | ⟨seen, isDelegate⟩
      · exact same
      · rw [redeclared.stage] at seen
        cases isStage : entry.stage <;> simp_all [Local.isFunction]
    rw [sameTy]
    cases result.functions.lookup name <;> simp

/-- One event: it is typed, and the locals agree after it. -/
theorem step (agree : Agree source result) {before after : Event}
    (retyped : Retyped result before after) (wellScoped : WellScoped source before) :
    Typed result after ∧ Agree (source.advance before) (result.advance after) := by
  cases retyped with
  | entered => exact ⟨trivial, start⟩
  | opened => exact ⟨trivial, agree.opened⟩
  | closed => exact ⟨trivial, agree.closed⟩
  | bound redeclared => exact ⟨trivial, agree.bound redeclared wellScoped⟩
  | referred => exact ⟨agree.typed wellScoped, agree⟩

/-- All events. -/
theorem run (agree : Agree source result) {before after : List Event}
    (retypes : Retypes result before after) (wellScoped : Along WellScoped source before) :
    Along Typed result after := by
  induction retypes generalizing source with
  | nil => trivial
  | cons retyped _ inductionHypothesis =>
    obtain ⟨typed, agreeAfter⟩ := agree.step retyped wellScoped.1
    exact ⟨typed, inductionHypothesis agreeAfter wellScoped.2⟩

end Agree

/-! A method that keeps two functions. Inside of the first one a function is declared, inside of the
second one an `object` under the name `f` that is then read as a number. -/

namespace Listener

/-- The type of a function that takes an `object` and gives nothing. -/
def watcher : Ty := .delegate [.object] .void

/-- The local `f` where it is taken to be of type `ty`. -/
def f (ty : Ty) : Expr := .ident (Expr.noteOf ty) (.plain "f") .localVariable

/-- The class with the method. The two functions have type `ty`, and `literal` makes them. The one
that is declared inside is called `name`. -/
def nesting (ty : Ty) (literal : List Stmt → Expr) (name : String) (innerTy : Ty)
    (inner read : Expr) : SourceUnit :=
  script [
    .method ⟨.plain "Keep", [], .void, some [
      .declare (.plain "first") none ty (some (literal [
        .declare (.plain name) none innerTy (some inner) .unknown])) .unknown,
      .declare (.plain "second") none ty (some (literal [
        .declare (.plain "f") (some .object) .object
          (some (.literal (Expr.noteOf .int) (.int 3))) .unknown,
        .declare (.plain "kept") (some .int) .int (some read) .unknown])) .unknown],
      .none, [], .unknown⟩]

/-- The class before inference. -/
def source (name : String) : SourceUnit :=
  nesting .object (fun body => .lambda (Expr.noteOf .object) [] none (.block body)) name .object
    (literal (.block [])) (f .object)

/-- The class after inference. -/
def result (name : String) (read : Expr) : SourceUnit :=
  (nesting (.delegate [] .void) (shaped .unknown [] .void) name watcher (literalOf .object [])
    read).requireImport "System"

end Listener

/-- After inference the references of a unit are typed, if they were well-formed before. -/
theorem unit_references_typed {source result : SourceUnit}
    (lowered : LambdaShape.unit types source = .ok result)
    (wellScoped : Along WellScoped .start (trace true (.unit source))) :
    Along Typed .start (trace true (.unit result)) := by
  obtain ⟨_, carries⟩ := carries_unit lowered
  obtain ⟨⟨events, retypes, covers⟩, -⟩ := carries .start rfl
  exact covers.along (Agree.start.run retypes wellScoped)

/-- A function that has its name for itself does not get in the way. -/
theorem unit_references_typed_apart :
    LambdaShape.unit (.ofTypes []) (Listener.source "g") =
      .ok (Listener.result "g" ((Listener.f .object).castTo .int)) ∧
    Along WellScoped .start (trace true (.unit (Listener.source "g"))) ∧
    Along Typed .start
      (trace true (.unit (Listener.result "g" ((Listener.f .object).castTo .int)))) := by
  have lowered : LambdaShape.unit (.ofTypes []) (Listener.source "g") =
      .ok (Listener.result "g" ((Listener.f .object).castTo .int)) := by
    decide +kernel
  have wellScoped : Along WellScoped .start (trace true (.unit (Listener.source "g"))) := by
    decide +kernel
  exact ⟨lowered, wellScoped, unit_references_typed lowered wellScoped⟩

/-- A function that another function has declared takes the name: the reference to the `object` gets
its type, and the cast that is needed there is not put in. -/
theorem unit_reference_captured :
    LambdaShape.unit (.ofTypes []) (Listener.source "f") =
      .ok (Listener.result "f" (Listener.f Listener.watcher)) ∧
    Along WellScoped .start (trace true (.unit (Listener.source "f"))) ∧
    ∃ earlier later,
      trace true (.unit (Listener.result "f" (Listener.f Listener.watcher))) =
        earlier ++ .referred "f" Listener.watcher :: later ∧
      Locals.visible (Locals.start.after earlier).scopes "f" = some ⟨"f", .object, .declared⟩ := by
  refine ⟨by decide +kernel, by decide +kernel,
    (trace true (.unit (Listener.result "f" (Listener.f Listener.watcher)))).take 23,
    (trace true (.unit (Listener.result "f" (Listener.f Listener.watcher)))).drop 24,
    by decide +kernel, by decide +kernel⟩

end ScriptSharp.Lowering.LambdaShape
