import ScriptSharp.Proofs.Coercion.Settled
import ScriptSharp.Proofs.ValueChain.Effects

/-!
# Temporaries of a block

When casts have been put in, every value is accepted by what it is assigned to, but for some
compound assignments: a shift count, what is appended to a string and the number that an enum is
stepped by keep their own types. The block of a change declares the temporary of the value with the
type of the target. So the temporaries of the block fit, unless the change is such a compound
assignment and the value is of another type: `unit_temporaries` says so for every statement.
-/

namespace ScriptSharp.Lowering.ValueChain

open Outcome Node Coercion

variable {types : TypeTable}

/-! ## Initializers -/

/-- The expression initializes a variable of type `declared` without a cast. -/
inductive Fits (types : TypeTable) (declared : Ty) (init : Expr) : Prop where
  | same (equal : init.ty = declared)
  | converts (converts : types.implicitlyConvertible init.ty declared = true)
  | null (null : init.ty = .null)
  | literal (literal : init.isLambda = true)
  /-- Functions are left to the inference of function literals. -/
  | function (function : init.ty.isDelegate = true ∨ declared.isDelegate = true)
  /-- There are no casts from and to `void`. -/
  | void (void : init.ty = .void ∨ declared = .void)

/-- A temporary fits its initializer when no cast is missing. -/
theorem fits_iff {declared : Ty} {init : Expr} :
    Fits types declared init ↔ needsCast types declared init = false := by
  have isVoid (ty : Ty) : ty.isVoid = true ↔ ty = .void := by cases ty <;> simp [Ty.isVoid]
  have isNull (ty : Ty) : ty.isNull = true ↔ ty = .null := by cases ty <;> simp [Ty.isNull]
  simp only [needsCast, Bool.not_eq_eq_eq_not, Bool.not_false, Bool.or_eq_true, decide_eq_true_eq,
    isVoid, isNull]
  constructor
  · rintro (equal | converts | null | literal | (function | function) | (void | void)) <;>
      simp [*]
  · rintro (((((((void | equal) | literal) | function) | function) | null) | void) | converts)
    · exact .void (.inr void)
    · exact .same equal
    · exact .literal literal
    · exact .function (.inr function)
    · exact .function (.inl function)
    · exact .null null
    · exact .void (.inl void)
    · exact .converts converts

/-- Whether a temporary fits depends on the face of its initializer only. -/
theorem fits_congr {declared : Ty} {init other : Expr}
    (same : (Node.expr init).face = (Node.expr other).face) :
    Fits types declared init ↔ Fits types declared other := by
  obtain ⟨sameNote, sameKind⟩ := face_expr.1 same
  rw [fits_iff, fits_iff, needsCast_congr (congrArg Note.ty sameNote) sameKind]

/-! ## Compound assignments -/

/-- The statement is a compound assignment that takes its value at another type than that of its
target. -/
inductive Clashes (types : TypeTable) : Stmt → Prop where
  /-- A shift by a number that does not convert to the type of the target. -/
  | shift {note : Note} {op : BinaryOp} {target value : Expr} (shifts : op = .shl ∨ op = .shr)
      (unfit : ¬Fits types target.ty value) :
      Clashes types (.expr (.assign note (some op) target value))
  /-- Something other than a string is appended to a string. -/
  | append {note : Note} {target value : Expr} (isString : target.ty = .string)
      (other : value.ty ≠ .string ∧ value.ty ≠ .null ∧ value.ty ≠ .void)
      (noFunction : value.ty.isDelegate = false ∧ value.isLambda = false) :
      Clashes types (.expr (.assign note (some .add) target value))
  /-- A step of an enum by a whole number. -/
  | step {note : Note} {op : BinaryOp} {target value : Expr} (steps : op = .add ∨ op = .sub)
      (isEnum : types.isEnum target.ty = true) (integral : value.ty.isIntegral = true)
      (noFunction : value.isLambda = false) :
      Clashes types (.expr (.assign note (some op) target value))

/-- Only strings and `null` convert to strings. -/
theorem eq_of_converts_string {source : Ty}
    (converts : types.implicitlyConvertible source .string = true) :
    source = .string ∨ source = .null := by
  cases source
  case primitive basic =>
    cases basic <;> simp_all [TypeTable.implicitlyConvertible, Ty.string, TypeTable.widens,
      Primitive.numericRank]
  all_goals simp_all [TypeTable.implicitlyConvertible, Ty.string]

/-- An enum is a nominal type. -/
theorem nominal_of_isEnum {ty : Ty} (isEnum : types.isEnum ty = true) :
    ty.isDelegate = false ∧ ty ≠ .void := by
  cases ty <;> simp_all [Ty.isDelegate, TypeTable.isEnum, TypeTable.kindOf?, Ty.typeId?]

/-- In a compound assignment with its casts, the value does not fit the target exactly when the two
clash. -/
theorem clashes_iff {returned : Option Ty} {note : Note} {op : BinaryOp} {target value : Expr}
    (settled : Settled types returned (.expr (.assign note (some op) target value))) :
    Clashes types (.expr (.assign note (some op) target value)) ↔ ¬Fits types target.ty value := by
  constructor
  -- In each clash the types rule out every way to fit.
  · intro clashes fits
    cases clashes with
    | shift _ unfit => exact unfit fits
    | append isString other noFunction =>
      rw [isString] at fits
      cases fits with
      | same equal => exact other.1 equal
      | converts converts => exact (eq_of_converts_string converts).elim other.1 other.2.1
      | null null => exact other.2.1 null
      | literal literal => simp [noFunction.2] at literal
      | function function =>
        rcases function with function | function
        · simp [noFunction.1] at function
        · cases function
      | void void => simp [other.2.2, Ty.string] at void
    | step _ isEnum integral noFunction =>
      have unconvertible := unconvertible_of_enum isEnum integral
      obtain ⟨basic, isPrimitive⟩ := Ty.exists_primitive_of_integral integral
      cases fits with
      | same equal => exact unconvertible.1 equal
      | converts converts => simp [unconvertible.2] at converts
      | null null => simp [isPrimitive] at null
      | literal literal => simp [noFunction] at literal
      | function function =>
        rcases function with function | function
        · rw [isPrimitive] at function
          cases function
        · simp [(nominal_of_isEnum isEnum).1] at function
      | void void => simp [isPrimitive, (nominal_of_isEnum isEnum).2] at void
  · intro unfit
    rcases settled.compound rfl with shifts | ⟨rfl, isString⟩ | ⟨steps, isEnum, integral⟩ | accepted
    · exact .shift shifts unfit
    · refine .append isString ⟨?_, ?_, ?_⟩ ⟨?_, ?_⟩
      · exact fun equal => unfit (.same (equal.trans isString.symm))
      · exact fun null => unfit (.null null)
      · exact fun void => unfit (.void (.inl void))
      · exact Bool.eq_false_iff.2 fun function => unfit (.function (.inl function))
      · exact Bool.eq_false_iff.2 fun literal => unfit (.literal literal)
    · exact .step steps isEnum integral
        (Bool.eq_false_iff.2 fun literal => unfit (.literal literal))
    · exact absurd (fits_iff.2 accepted) unfit

/-- The value of a plain assignment with its casts fits the target. -/
theorem fits_of_settled {returned : Option Ty} {note : Note} {target value : Expr}
    (settled : Settled types returned (.expr (.assign note none target value))) :
    Fits types target.ty value :=
  fits_iff.2 (settled.accepted .assigned)

/-! ## The temporaries of a block -/

/-- The declared types of the variables of a block, with their initializers. -/
def temporaries (body : List Stmt) : List (Ty × Expr) :=
  body.filterMap fun
    | .declare _ declared ty (some init) _ => some (declared.getD ty, init)
    | _ => none

/-- The temporaries of two lists of statements are those of one and then of the other. -/
theorem temporaries_append (first second : List Stmt) :
    temporaries (first ++ second) = temporaries first ++ temporaries second :=
  List.filterMap_append

/-- A copy has the type of the property that it is read from. -/
theorem ty_of_mem_reads (segments : List Segment) (number : Nat) (receiver : Expr) :
    ∀ temporary ∈ temporaries (steps number receiver segments).reads,
      temporary.2.ty = temporary.1 := by
  induction segments generalizing number receiver with
  | nil => nofun
  | cons segment rest inductionHypothesis =>
    rw [steps]
    split
    · exact List.forall_mem_cons.2 ⟨rfl, inductionHypothesis _ _⟩
    · exact inductionHypothesis _ _

/-- Writing copies back declares nothing. -/
theorem temporaries_writes (segments : List Segment) (number : Nat) (receiver : Expr) :
    temporaries (steps number receiver segments).writes = [] := by
  induction segments generalizing number receiver with
  | nil => rfl
  | cons segment rest inductionHypothesis =>
    rw [steps]
    split
    · rw [temporaries_append, inductionHypothesis]
      rfl
    · exact inductionHypothesis _ _

/-- The temporaries of a block are that of the value and the copies. -/
theorem temporaries_blockBody (change : Change) (root : Expr) (segments : List Segment) (ty : Ty)
    (span changeSpan : Span) (name : Ident) (binding : MemberBinding) :
    temporaries (blockBody change root segments ty span changeSpan name binding) =
      change.value?.toList.map (ty, ·) ++
        temporaries (steps change.firstCopy root segments).reads := by
  have opening : temporaries (change.opening ty) = change.value?.toList.map (ty, ·) := by
    cases change <;> rfl
  have noneIn (expr : Expr) : temporaries [.expr expr] = [] := rfl
  simp only [blockBody, temporaries_append, opening, noneIn, temporaries_writes, List.append_nil]

/-- The temporaries of a block fit when that of the value does. -/
theorem fits_blockBody_iff {change : Change} {root : Expr} {segments : List Segment} {ty : Ty}
    {span changeSpan : Span} {name : Ident} {binding : MemberBinding} :
    (∀ temporary ∈ temporaries (blockBody change root segments ty span changeSpan name binding),
        Fits types temporary.1 temporary.2) ↔
      ∀ value, change.value? = some value → Fits types ty value := by
  have copies := ty_of_mem_reads segments change.firstCopy root
  rw [temporaries_blockBody, List.forall_mem_append]
  constructor
  · rintro ⟨values, -⟩ value isValue
    exact values (ty, value) (by simp [isValue])
  · intro fits
    refine ⟨?_, fun temporary member => .same (copies temporary member)⟩
    simpa using fits

/-! ## The walk -/

/-- The walk keeps the type of an expression, and whether it is a function literal. -/
theorem face_walk (node : Node) {result : Node}
    (walked : Gives ((traversal types).node .value node) result) : node.face = result.face := by
  induction node using Node.induct generalizing result with
  | step node inductionHypothesis =>
    cases found : split? types node with
    | none =>
      refine Matches.face_eq ((walk_kept found walked).imp fun part replaced => ?_)
      exact inductionHypothesis _ (mem_children_of_part part) replaced
    | some split =>
      obtain ⟨_, _, _, _, _, _, _, rfl, assigned, chained, -⟩ := split?_eq_some found
      obtain ⟨_, rfl, -⟩ := walk_change_block assigned chained walked
      rfl

/-- What the walk comes to stands in the tree. -/
theorem inside_of_reached {tree node : Node} (reached : Reached types tree node) :
    Inside tree node := by
  induction reached with
  | refl => exact .refl
  | tail _ member inductionHypothesis =>
    refine inductionHypothesis.trans ?_
    rw [visited] at member
    split at member
    · unfold assignedValue at member
      split at member
      · obtain rfl := List.mem_singleton.1 member
        refine .tail (.single (List.mem_singleton.2 rfl)) ?_
        simp [children, parts, Expr.parts, Part.value, Part.target]
      · simp at member
    · exact .single member

/-- What holds everywhere in a tree holds of what stands in it. -/
theorem exists_scope {ρ : Type} {below : ρ → Node → ρ} {holds : ρ → Node → Prop} {env : ρ}
    {tree node : Node} (everywhere : Everywhere below holds env tree) (stands : Inside tree node) :
    ∃ scope, Everywhere below holds scope node := by
  induction stands with
  | refl => exact ⟨env, everywhere⟩
  | tail _ member inductionHypothesis =>
    obtain ⟨scope, around⟩ := inductionHypothesis
    exact ⟨_, around.inside member⟩

/-- An assigned member has the type of its access. -/
theorem memberTarget?_ty {target receiver : Expr} {note : Note} {name : Ident}
    {binding : MemberBinding}
    (assigned : memberTarget? target = some (note, receiver, name, binding)) :
    target.stripParens.ty = note.ty := by
  unfold memberTarget? at assigned
  split at assigned
  case h_1 stripped =>
    rw [stripped]
    cases assigned
    rfl
  case h_2 => cases assigned

/-! ## Statements of a unit -/

/-- When casts have been put into a unit and its changes have then been taken apart, the temporaries
of the block for a change all fit exactly when the change does not clash. The type of the target is
meant to be the same with and without its parentheses. -/
theorem unit_temporaries {source middle result : SourceUnit}
    (coerced : Coercion.unit types source = .ok middle)
    (finished : ValueChain.unit types middle = .ok result) {expr target : Expr}
    (reached : Reached types (.unit middle) (.stmt (.expr expr)))
    (changes : changed? expr = some target) (chained : isChained types target = true)
    (typed : target.stripParens.ty = target.ty) :
    ∃ body, (traversal types).stmt .value (.expr expr) = .ok (.block body) ∧
      Inside (.unit result) (.stmt (.block body)) ∧
      ((∀ temporary ∈ temporaries body, Fits types temporary.1 temporary.2) ↔
        ¬Clashes types (.expr expr)) := by
  obtain ⟨change, walkedChange, note, memberNote, receiver, name, binding, _, rfl, assigned, rfl,
    walkedStmt, -, stands, values⟩ := exists_change_block finished reached changes chained
  have sameTy : memberNote.ty = target.ty := (memberTarget?_ty assigned).symm.trans typed
  obtain ⟨scope, everywhere⟩ := exists_scope (settled_walk (.unit source) (walk_unit.2 coerced))
    (inside_of_reached reached)
  have settled := (everywhere.inside (List.mem_singleton.2 rfl)).here
  refine ⟨_, walkedStmt, stands, ?_⟩
  -- Copies are declared with their own types, so only the temporary of the value can be unfit.
  rw [fits_blockBody_iff, sameTy]
  cases change with
  | step op steps =>
    obtain isNone : walkedChange.value? = none := by
      generalize walkedChange.value? = after at values
      cases values
      rfl
    simp only [isNone, reduceCtorEq, false_implies, implies_true, true_iff]
    exact fun clash => by cases clash
  | assign op value =>
    obtain ⟨walkedValue, isWalked, replacedValue⟩ : ∃ walkedValue,
        walkedChange.value? = some walkedValue ∧
          Gives ((traversal types).node .value (.expr value)) (.expr walkedValue) := by
      generalize walkedChange.value? = after at values
      cases values with
      | some replacedValue => exact ⟨_, rfl, replacedValue⟩
    have onlyValue : (∀ other, walkedChange.value? = some other → Fits types target.ty other) ↔
        Fits types target.ty value := by
      rw [fits_congr (face_walk _ replacedValue)]
      simp [isWalked]
    rw [onlyValue]
    cases op with
    | none => exact iff_of_true (fits_of_settled settled) fun clash => by cases clash
    | some op => exact (not_iff_comm.1 (clashes_iff settled).symm).symm

/-! Two scripts that change parts of the position of a body. The first one assigns a fraction to
`x`, the second one appends a number to a string. -/

namespace Walker

/-- A local variable of type `double`. -/
def factor : Expr := .localRef "factor" .double

/-- The text of a position. -/
def label (position : Expr) : Expr :=
  .member (Expr.noteOf .string) position (.plain "label") ⟨0, .field, false, none⟩

/-- Appends a value to a text. -/
def append (text value : Expr) : Stmt :=
  .expr (.assign (Expr.noteOf .string) (some .add) text value)

/-- The block for appending a value to the text of the position of a body. -/
def appended (body value : Expr) : List Stmt :=
  let copy := Expr.localRef "_2" (.named 0)
  [declareTemporary 1 .string value, declareTemporary 2 (.named 0) (position body),
    append (label copy) (.localRef "_1" .string), .expr ((position body).assignTo copy)]

end Walker

/-- A float that is assigned to an `int` is cast before it goes into its temporary. -/
theorem unit_temporaries_factor :
    Coercion.unit Walker.table (Walker.script (Walker.place Walker.body Walker.factor)) =
        .ok (Walker.script (Walker.place Walker.body (Walker.factor.castTo .int))) ∧
      ∃ body, (traversal Walker.table).stmt .value
          (Walker.place Walker.body (Walker.factor.castTo .int)) = .ok (.block body) ∧
        ∀ temporary ∈ temporaries body, Fits Walker.table temporary.1 temporary.2 := by
  have coerced : Coercion.unit Walker.table
      (Walker.script (Walker.place Walker.body Walker.factor)) =
        .ok (Walker.script (Walker.place Walker.body (Walker.factor.castTo .int))) := by
    decide +kernel
  have finished : ValueChain.unit Walker.table
      (Walker.script (Walker.place Walker.body (Walker.factor.castTo .int))) =
        .ok (Walker.script (Walker.placed Walker.body (Walker.factor.castTo .int))) := by
    decide +kernel
  have reached : Reached Walker.table
      (.unit (Walker.script (Walker.place Walker.body (Walker.factor.castTo .int))))
      (.stmt (Walker.place Walker.body (Walker.factor.castTo .int))) :=
    .tail (.tail (.single (.head _)) (.head _)) (.head _)
  obtain ⟨body, walked, -, fits⟩ :=
    unit_temporaries coerced finished reached rfl (by decide +kernel) rfl
  exact ⟨coerced, body, walked, fits.2 nofun⟩

/-- Appending a number to a text needs no cast. The block for `body.position.label += 5` declares
a temporary of type `string` for the number. -/
theorem unit_appended_number_unfit :
    Coercion.unit Walker.table
        (Walker.script (Walker.append (Walker.label (Walker.position Walker.body)) Walker.five)) =
        .ok (Walker.script
          (Walker.append (Walker.label (Walker.position Walker.body)) Walker.five)) ∧
      ValueChain.unit Walker.table
        (Walker.script (Walker.append (Walker.label (Walker.position Walker.body)) Walker.five)) =
        .ok (Walker.script (.block (Walker.appended Walker.body Walker.five))) ∧
      (.string, Walker.five) ∈ temporaries (Walker.appended Walker.body Walker.five) ∧
      ¬Fits Walker.table .string Walker.five := by
  refine ⟨by decide +kernel, by decide +kernel, List.mem_cons_self, fun fits => ?_⟩
  cases fits_iff.1 fits

end ScriptSharp.Lowering.ValueChain
