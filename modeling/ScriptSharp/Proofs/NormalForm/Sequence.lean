import ScriptSharp.Lowering.Sequence
import ScriptSharp.Proofs.NormalForm.Desugared
import ScriptSharp.Proofs.NormalForm.Finished
import ScriptSharp.Proofs.NormalForm.Shapes

/-!
# The normal form of lowered units

Every property of the normal form is brought about by one step of the standard sequence, and kept
by all later ones. `runAll_normalForm` puts the steps together.

One kind of node is left out. Inference does not look at the attributes of fields, and the check of
attribute arguments lets a function literal pass as the receiver of an enum member, so such a
literal is emitted without a shape.
-/

namespace ScriptSharp.Lowering

open Outcome Node

/-- What is true of a unit once it is lowered. -/
structure NormalForm (unit : SourceUnit) : Prop where
  /-- No statement stands at top level. -/
  globals : unit.globals = []
  /-- Every name is bound, to a member only if it is a static one or one of an enum. Every static
  member is reached through a type, and no call calls a type or the base object. -/
  resolved : AllExprs Expr.Resolved (.unit unit)
  /-- Every function literal has its full shape, except in the attributes of fields. -/
  shaped : AllExprs Expr.Shaped (.unit unit.withoutFieldAttributes)
  /-- No field of a class or a struct has an initializer. -/
  uninitialized : Constructors.Uninitialized unit
  /-- Every name is marked exactly when it is a reserved word. -/
  marked : Throughout Node.Marked (.unit unit)

namespace Pass

/-- A sequence goes on with what its first step gives. -/
theorem runAll_cons {context : Context} {pass : Pass} {rest : List Pass}
    {unit result : SourceUnit} :
    runAll context (pass :: rest) unit = .ok result ↔ ∃ next, pass.run context unit = .ok next ∧
      runAll context rest next = .ok result :=
  (gives_bind : Gives (pass.run context unit >>= runAll context rest) result ↔ _)

/-- Whatever a unit is and whatever it is lowered with, if the standard sequence succeeds then its
result is in normal form. -/
theorem runAll_normalForm {context : Context} {unit result : SourceUnit}
    (lowered : runAll context standard unit = .ok result) : NormalForm result := by
  simp only [standard, runAll_cons, run, Except.ok.injEq] at lowered
  obtain ⟨desugared, removing, received, rfl, casted, coercing, unchained, chaining, narrowed, rfl,
    inferred, inferring, constructed, moving, escaped, rfl, last⟩ := lowered
  obtain rfl := Except.ok.inj last
  -- Sugar and receivers are settled first.
  obtain ⟨free, noGlobals⟩ := Sugar.unit_sugarFree removing
  obtain ⟨resolved, noGlobals⟩ := StaticAccess.unit_resolved context.types free noGlobals
  -- Three steps keep that.
  obtain ⟨resolved, noGlobals⟩ :=
    Coercion.unit_allExprs stable_resolved coercing resolved noGlobals
  obtain ⟨resolved, noGlobals⟩ := ValueChain.unit_resolved chaining resolved noGlobals
  obtain ⟨resolved, noGlobals⟩ := KnownCalls.unit_resolved context resolved noGlobals
  -- Then function literals get their shapes, and two more steps keep all of it.
  obtain ⟨normal, resolved, noGlobals⟩ := LambdaShape.unit_normal inferring resolved noGlobals
  obtain ⟨-, keepsNormal, -, -⟩ := Constructors.unit_finished stable_normal moving
  obtain ⟨keepsResolved, -, sameGlobals, uninitialized⟩ :=
    Constructors.unit_finished stable_resolved moving
  obtain ⟨normal, resolved, marked⟩ :=
    Escaping.unit_finished (keepsNormal normal) (keepsResolved resolved)
  exact {
    globals := DeclTraversal.unit_globals (Escaping.unit_walked _) (sameGlobals.trans noGlobals)
    resolved
    shaped := normal.mono fun _ => Expr.Normal.shaped
    uninitialized := Escaping.unit_uninitialized uninitialized
    marked }

/-! Two scripts about a garden. The first one uses most of what is lowered away: a bare member, an
open function literal in a variable with a reserved name, a call of a type, a static member that is
reached through an object, and an initialized field. The second one has a function literal in the
attribute of a field. -/

namespace Garden

/-- The types of modes, which is an enum, of the garden itself, and of an attribute. -/
def context : Context where
  types := .ofTypes [⟨"Mode", none, .enumType, none, [], []⟩,
    ⟨"Garden", none, .classType, none, [], []⟩, ⟨"Label", none, .classType, none, [], []⟩]
  knownApis := KnownApi.defaults
  serializableClasses := true

/-- The script class with its members, and statements at top level. -/
def script (members : List Member) (globals : List Stmt) : SourceUnit where
  fileName := "Garden.js"
  imports := []
  implicitImports := []
  decls := [{
    id := 1, name := .plain "Garden", kind := .classType, modifiers := .none, attrs := []
    base := none, interfaces := [], members, enumMembers := [], isScript := true
    span := .unknown }]
  globals
  sourceText := none

/-- The garden as an object. -/
def self : Expr := .selfRef (Expr.noteOf (.named 1))

/-- The garden as a type. -/
def itself : Expr := .typeRef ⟨.named 1, .unknown⟩ (.named 1)

/-- A number. -/
def number (value : Int) : Expr := .literal (Expr.noteOf .int) (.int value)

/-- The field `speed`. -/
def speed (init : Option Expr) (attrs : List Attribute) : Member :=
  .field ⟨.plain "speed", .int, init, .none, attrs, .unknown⟩

/-- What `speed` is bound to. -/
def speedBinding : MemberBinding := ⟨1, .field, false, none⟩

/-- The call of the static method `water`. -/
def water (receiver : Expr) : Stmt :=
  .expr (.invoke (Expr.noteOf .void)
    (.member (Expr.noteOf .void) receiver (.plain "water") ⟨1, .method, true, none⟩) [] [] none)

/-- A function literal that gives back its argument and leaves everything else open. -/
def identity : Expr :=
  .lambda (Expr.noteOf .void) [⟨.plain "x", none⟩] none (.expr (.localRef "x" .int))

/-- `speed = 2; object = x => x; Garden(); this.water();` with `speed` set to `1` at first. -/
def source : SourceUnit :=
  script [speed (some (number 1)) []]
    [.expr (.assign (Expr.noteOf .int) none
      (.ident (Expr.noteOf .int) (.plain "speed") (.member speedBinding)) (number 2)),
    .declare (.plain "object") none .object (some identity) .unknown,
    .expr (.invoke (Expr.noteOf (.named 1)) itself [] [] none),
    water self]

/-- The script in normal form. -/
def result : SourceUnit :=
  let speedRef : Expr := .member (Expr.noteOf .int) self (.plain "speed") speedBinding
  let shape : Ty := .delegate [.object] .int
  let start := [
    .expr (.assign (Expr.noteOf .int) none speedRef (number 2)),
    .declare ⟨"object", true⟩ none shape
      (some (.lambda ⟨shape, .unknown⟩ [⟨.plain "x", some .object⟩] (some .int)
        (.block [.ret (some (.localRef "x" .int)) .unknown]))) .unknown,
    .expr (.construct ⟨.named 1, .unknown⟩ (.named 1) [] none),
    water itself]
  { script [speed none [],
      .method ⟨.plain "Start", [], .void, some start, .none, [], .unknown⟩,
      .ctor ⟨[], none, [.expr (.assign ⟨.int, .unknown⟩ none speedRef (number 1))], .none,
        .unknown⟩] [] with implicitImports := ["System"] }

/-- The script with the field `speed`, which has `(x => x).Fast` as the argument of an attribute. -/
def labelled : SourceUnit :=
  let fast : Expr :=
    .member (Expr.noteOf (.named 0)) identity (.plain "Fast") ⟨0, .enumMember, false, none⟩
  script [speed none [⟨.named 2, [⟨none, fast⟩], .unknown⟩]] []

end Garden

/-- The passes bring the script of the garden into normal form. -/
theorem runAll_normalForm_garden :
    runAll Garden.context standard Garden.source = .ok Garden.result ∧
      NormalForm Garden.result := by
  have lowered : runAll Garden.context standard Garden.source = .ok Garden.result := by
    decide +kernel
  exact ⟨lowered, runAll_normalForm lowered⟩

/-- A function literal in the attribute of a field goes through all steps and stays open. -/
theorem runAll_field_attribute_unshaped :
    runAll Garden.context standard Garden.labelled = .ok Garden.labelled ∧
      ¬ AllExprs Expr.Shaped (.unit Garden.labelled) := by
  refine ⟨by decide +kernel, fun all => ?_⟩
  have decl := (allExprs_decl.1 ((allExprs_unit.1 all).1 _ List.mem_cons_self)).2
  have attr := (allExprs_field.1 (decl _ List.mem_cons_self)).1 _ List.mem_cons_self
  have target := (allExprs_member.1 (allExprs_attr.1 attr _ List.mem_cons_self)).2
  obtain ⟨_, _, _, _, openRet, _⟩ := target.here
  cases openRet

end Pass

end ScriptSharp.Lowering
