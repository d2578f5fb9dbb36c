import ScriptSharp.Proofs.KnownCalls.Places

/-!
# Calls whose results are dropped

An expression that is a statement drops its result, and so does a step of a `for` loop. Such a call
needs no cast, and a cast may not even stand there. A call that is a statement stays a call, in
whatever loop or function literal it stands. A step does not: the walk reaches it as any other
expression, and a step that is known to need a cast becomes one.
-/

namespace ScriptSharp

/-- An expression whose result is dropped. -/
structure Dropped where
  /-- It is a step of a `for` loop, and a statement otherwise. -/
  isStep : Bool
  value : Expr

namespace Node

/-- The expressions right below a node whose results are dropped. -/
def droppedAt : Node → List Dropped
  | .stmt (.expr value) => [⟨false, value⟩]
  | .stmt (.forLoop _ _ step _) => step.map (Dropped.mk true)
  | _ => []

/-- The expressions in a tree whose results are dropped, in the order of the source. -/
def dropped (node : Node) : List Dropped :=
  gather (fun _ _ => ()) (fun _ => droppedAt) () node

end Node

namespace Lowering.KnownCalls

open Outcome

variable {context : Context}

/-- A dropped call loses its parentheses and nothing else. -/
theorem narrowed_settled {value : Expr} (isCall : value.isInvoke = true) :
    narrowed context .settled value = partsNarrowed context value.stripParens := by
  induction value using Expr.stripParens.induct with
  | case1 note inner inductionHypothesis => exact inductionHypothesis isCall
  | case2 value bare =>
    rw [Expr.isInvoke, Expr.stripParens.eq_2 value bare] at isCall
    rw [Expr.stripParens.eq_2 value bare]
    cases value
    case invoke note callee typeArgs args signature =>
      rw [narrowed_invoke]
      rfl
    all_goals cases isCall

/-- What is no call becomes none. -/
theorem isInvoke_narrowed_of_not (usage : Usage) {value : Expr} (noCall : value.isInvoke = false) :
    (narrowed context usage value).isInvoke = false := by
  have bare := stripParens_ne_paren value
  rw [Expr.isInvoke] at noCall ⊢
  rw [stripParens_narrowed]
  cases same : value.stripParens
  case paren note inner => exact absurd same (bare note inner)
  case invoke => simp [same] at noCall
  case cast note operand target synthesized =>
    cases usage with
    | settled => rfl
    | value => rw [narrowed_cast]
  all_goals cases usage <;> rfl

/-- What narrowing makes of an expression whose result is dropped. -/
def narrowedDropped (context : Context) : Dropped → Dropped
  | ⟨false, value⟩ => ⟨false, narrowed context (enterStmt (.expr value)) value⟩
  | ⟨true, value⟩ => ⟨true, narrowed context .value value⟩

/-- Narrowing goes over the dropped expressions one by one. -/
theorem followed_dropped (context : Context) :
    Followed context (fun _ _ => ()) (fun _ => Node.droppedAt) (narrowedDropped context) where
  scope _ := rfl
  rebuilt {env usage carried node rebuilt} reached entered matched := by
    cases node with
    | stmt stmt =>
      obtain rfl := reached.value (by rintro _ ⟨⟩)
      obtain rfl := Option.some.inj entered
      obtain rfl := rebuilt_stmt matched
      cases stmt
      case forLoop init condition step body =>
        change ((traversal context).exprs .value step).run.map (Dropped.mk true) =
          (step.map (Dropped.mk true)).map (narrowedDropped context)
        rw [exprs_eq_map, List.map_map, List.map_map]
        rfl
      all_goals rfl
    | expr | attr | member | decl | unit =>
      have shell := matched.shell
      cases rebuilt <;> simp only [Node.shell, reduceCtorEq] at shell
      rfl
  paren _ _ _ := ⟨rfl, rfl⟩
  cast _ _ _ := ⟨rfl, rfl⟩
  declared _ _ := ⟨rfl, rfl⟩

/-- What becomes of an expression whose result is dropped. -/
structure DroppedAs (context : Context) (before after : Dropped) : Prop where
  role : before.isStep = after.isStep
  /-- A call that is a statement stays a call, and loses its parentheses. -/
  statement : before.isStep = false → before.value.isInvoke = true →
    after.value = partsNarrowed context before.value.stripParens
  /-- A call that is a step stays a call when it needs no cast. -/
  step : before.isStep = true → before.value.isInvoke = true →
    castTarget? context before.value.stripParens = none →
    after.value.stripParens = partsNarrowed context before.value.stripParens
  /-- Otherwise the step is a cast now. -/
  cast {required : Ty} : before.isStep = true →
    castTarget? context before.value.stripParens = some required →
    after.value.stripParens =
      (withDeclaredType (partsNarrowed context before.value.stripParens)).castTo required
  /-- What is no call becomes none. -/
  other : before.value.isInvoke = false → after.value.isInvoke = false

/-- What is dropped becomes its narrowed form. -/
theorem droppedAs_narrowed (context : Context) (place : Dropped) :
    DroppedAs context place (narrowedDropped context place) := by
  obtain ⟨isStep, value⟩ := place
  cases isStep with
  | false =>
    refine ⟨rfl, fun _ isCall => ?_, ?_, ?_, isInvoke_narrowed_of_not _⟩
    · change narrowed context (enterStmt (.expr value)) value = _
      rw [enterStmt, if_pos isCall]
      exact narrowed_settled isCall
    · rintro ⟨⟩
    · rintro _ ⟨⟩
  | true =>
    refine ⟨rfl, ?_, fun _ isCall accepted => ?_, fun _ needed => ?_,
      isInvoke_narrowed_of_not _⟩
    · rintro ⟨⟩
    · have kept := stripParens_narrowed_call context isCall
      rwa [accepted] at kept
    · have cast := stripParens_narrowed_call context (isInvoke_of_castTarget? needed)
      rwa [needed] at cast

/-! ## Units -/

/-- Narrowing goes over the dropped expressions of a unit one by one. A call that is a statement
stays one. A call that is a step of a loop stays one if it needs no cast, and becomes that cast
otherwise. -/
theorem unit_dropped (context : Context) (source : SourceUnit) :
    List.Forall₂ (DroppedAs context) (Node.unit source).dropped
      (Node.unit (unit context source)).dropped := by
  have same : (Node.unit (unit context source)).dropped =
      (Node.unit source).dropped.map (narrowedDropped context) :=
    (followed_dropped context).unit () source
  rw [same, List.forall₂_map_right_iff, List.forall₂_same]
  exact fun place _ => droppedAs_narrowed context place

/-! ## A loop that adds bodies -/

namespace Spawner

/-- What a batch shares that knows components, bodies and the objects they are added to. -/
def batch : Context where
  types := .ofTypes [⟨"Component", some "UnityEngine", .classType, none, [], []⟩,
    ⟨"Rigidbody", some "UnityEngine", .classType, some (.named 0), [], []⟩,
    ⟨"GameObject", some "UnityEngine", .classType, none, [], []⟩]
  knownApis := KnownApi.defaults
  serializableClasses := false

/-- `pool.AddComponent(Rigidbody)`, declared to give a component. -/
def call : Expr :=
  .invoke (Expr.noteOf (.named 0))
    (.member (Expr.noteOf (.named 0)) (.localRef "pool" (.named 2)) (.plain "AddComponent")
      ⟨2, .method, false, none⟩)
    [] [.typeOf (Expr.noteOf .object) (.named 1)] (some ⟨[⟨"type", .object, .none⟩], .named 0⟩)

/-- A loop with this step, and with the call as its body. -/
def loop (step : Expr) : SourceUnit where
  fileName := "Spawner.js"
  imports := []
  implicitImports := []
  decls := []
  globals := [.forLoop [] none [step] [.expr call, .breakLoop]]
  sourceText := none

/-- The step of the loop once it is narrowed. -/
def cast : Expr := call.castTo (.named 1)

end Spawner

/-- A call that is a step of a loop becomes a cast, and the same call as a statement stays. -/
theorem unit_step_cast :
    unit Spawner.batch (Spawner.loop Spawner.call) = Spawner.loop Spawner.cast ∧
      (Node.unit (Spawner.loop Spawner.call)).dropped =
        [⟨true, Spawner.call⟩, ⟨false, Spawner.call⟩] ∧
      (Node.unit (Spawner.loop Spawner.cast)).dropped =
        [⟨true, Spawner.cast⟩, ⟨false, Spawner.call⟩] ∧
      Spawner.call.isInvoke = true ∧ Spawner.cast.isInvoke = false := by
  refine ⟨rfl, ?_, ?_, rfl, rfl⟩ <;>
    simp [Node.dropped, Node.gather_eq, Node.droppedAt, Node.children, Node.parts, Stmt.parts,
      Expr.parts, Part.value, Part.stmt, Spawner.loop, Spawner.call, Spawner.cast, Expr.castTo,
      Expr.localRef]

end Lowering.KnownCalls

end ScriptSharp
