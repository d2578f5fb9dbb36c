import ScriptSharp.Lowering.Sugar

/-!
# Packing arguments

A signature whose last parameter is marked `params` takes any number of arguments from its place
on. Packing puts them into one array, unless there is one argument that is such an array already.
What comes before stays, nothing is lost, and what is packed once stays as it is.
-/

namespace ScriptSharp.Lowering.Sugar

variable {types : TypeTable} {signature : Signature} {index : Nat} {element : Ty}
  {args : List Expr}

/-- The last parameter of the signature, and no other one, is marked `params`. It stands at `index`
and takes an array of `element`. -/
structure Variadic (signature : Signature) (index : Nat) (element : Ty) : Prop where
  length : signature.params.length = index + 1
  others : ∀ place < index, ∀ param, signature.params[place]? = some param →
    param.modifier ≠ .params
  takes : ∃ name, signature.params[index]? = some ⟨name, .array element, .params⟩

/-- The place of the last parameter is the one that packing looks for. -/
theorem Variadic.paramsIndex (variadic : Variadic signature index element) :
    signature.paramsIndex = some index := by
  obtain ⟨name, isLast⟩ := variadic.takes
  obtain ⟨inside, same⟩ := List.getElem?_eq_some_iff.1 isLast
  refine List.findIdx?_eq_some_iff_getElem.2 ⟨inside, by simp [same], fun place before => ?_⟩
  simpa using variadic.others place before _ (List.getElem?_eq_getElem (Nat.lt_trans before inside))

/-- One argument stands for the rest: it is `null`, or accepted where the array is required. -/
def PassesAsArray (types : TypeTable) (element : Ty) (arg : Expr) : Prop :=
  arg.ty.isNull = true ∨ types.implicitlyConvertible arg.ty (.array element) = true

/-! ## The cases -/

/-- Arguments that do not reach the last parameter stay as they are. -/
theorem expandParams_few (types : TypeTable) (variadic : Variadic signature index element)
    (few : args.length ≤ index) : expandParams types (some signature) args = args := by
  obtain ⟨name, isLast⟩ := variadic.takes
  simp only [expandParams, variadic.paramsIndex, isLast, List.getElem?_eq_none few]

/-- A single argument that stands for the rest is passed on as it is. -/
theorem expandParams_array {arg : Expr} (variadic : Variadic signature index element)
    (sameLength : args.length = index + 1) (isArg : args[index]? = some arg)
    (passes : PassesAsArray types element arg) :
    expandParams types (some signature) args = args := by
  obtain ⟨name, isLast⟩ := variadic.takes
  simp only [expandParams, variadic.paramsIndex, isLast, isArg]
  rw [if_neg (by simp [variadic.length]), if_pos ⟨sameLength, passes⟩]

/-- The arguments from the `params` parameter on, as one array. -/
def packed (element : Ty) (index : Nat) (args : List Expr) : List Expr :=
  args.take index ++ [.array (Expr.noteOf (.array element)) element (args.drop index)]

/-- All other arguments from the last parameter on are packed. -/
theorem expandParams_rest {arg : Expr} (variadic : Variadic signature index element)
    (isArg : args[index]? = some arg)
    (several : ¬(args.length = index + 1 ∧ PassesAsArray types element arg)) :
    expandParams types (some signature) args = packed element index args := by
  obtain ⟨name, isLast⟩ := variadic.takes
  simp only [expandParams, variadic.paramsIndex, isLast, isArg]
  rw [if_neg (by simp [variadic.length]), if_neg (by exact several)]
  rfl

/-- Packing leaves one argument for each parameter. -/
theorem length_packed (inside : index < args.length) :
    (packed element index args).length = index + 1 := by
  simp [packed]
  omega

/-- The last of packed arguments is the array of those behind the others. -/
theorem packed_getElem? (inside : index < args.length) : (packed element index args)[index]? =
    some (.array (Expr.noteOf (.array element)) element (args.drop index)) := by
  have front : (args.take index).length = index := by
    rw [List.length_take, Nat.min_eq_left (Nat.le_of_lt inside)]
  rw [packed, List.getElem?_append_right (Nat.le_of_eq front), front, Nat.sub_self]
  rfl

/-- The arguments in front of the array are not touched. -/
theorem packed_getElem?_of_lt {place : Nat} (inside : index < args.length)
    (before : place < index) :
    (packed element index args)[place]? = args[place]? := by
  rw [packed, List.getElem?_append_left (by simp; omega), List.getElem?_take_of_lt before]

/-- Packing happens only where the last parameter is the one that is marked. -/
theorem variadic_of_paramsIndex {param : Param} (isParams : signature.paramsIndex = some index)
    (isParam : signature.params[index]? = some param)
    (isLast : index + 1 = signature.params.length) (isArray : param.ty.element? = some element) :
    Variadic signature index element := by
  obtain ⟨inside, marked, others⟩ := List.findIdx?_eq_some_iff_getElem.1 isParams
  refine ⟨isLast.symm, fun place before other isOther => ?_, param.name, ?_⟩
  · obtain ⟨_, rfl⟩ := List.getElem?_eq_some_iff.1 isOther
    simpa using others place before
  · obtain ⟨_, rfl⟩ := List.getElem?_eq_some_iff.1 isParam
    have isParams : signature.params[index].modifier = .params := by simpa using marked
    have isTy : signature.params[index].ty = .array element := by
      cases same : signature.params[index].ty <;> simp_all [Ty.element?]
    rw [isParam, ← isParams, ← isTy]

/-- Arguments stay as they are, or those of a `params` parameter are packed. -/
theorem expandParams_cases (types : TypeTable) (signature : Option Signature) (args : List Expr) :
    expandParams types signature args = args ∨
      ∃ bound index element, signature = some bound ∧ Variadic bound index element ∧
        index < args.length ∧ expandParams types signature args = packed element index args := by
  fun_cases expandParams types signature args
  case case6 bound index isParams param first isFirst isParam isLast _ element isArray =>
    have variadic := variadic_of_paramsIndex isParams isParam (by simpa using isLast) isArray
    have inside := (List.getElem?_eq_some_iff.1 isFirst).1
    obtain ⟨name, isLast⟩ := variadic.takes
    obtain rfl : param = ⟨name, .array element, .params⟩ :=
      Option.some.inj (isParam.symm.trans isLast)
    exact .inr ⟨bound, index, element, rfl, variadic, inside, rfl⟩
  all_goals exact .inl rfl

/-- What is packed once stays as it is. -/
theorem expandParams_again (types : TypeTable) (signature : Option Signature) (args : List Expr) :
    expandParams types signature (expandParams types signature args) =
      expandParams types signature args := by
  rcases expandParams_cases types signature args with
    same | ⟨bound, index, element, rfl, variadic, inside, same⟩
  · rw [same, same]
  · -- The array that the arguments are packed into is passed on as it is.
    rw [same]
    refine expandParams_array variadic (length_packed inside) (packed_getElem? inside) (.inr ?_)
    simp [Expr.ty, Expr.note, Expr.noteOf, TypeTable.implicitlyConvertible]

/-! ## Packed arguments -/

/-- The second list is what the first one is packed into, for a `params` parameter at `index` that
takes an array of `element`. -/
structure Packs (types : TypeTable) (element : Ty) (index : Nat) (args results : List Expr) :
    Prop where
  /-- Arguments that do not reach the parameter stay as they are. -/
  few : args.length ≤ index → results = args
  /-- Those that do leave one argument in its place. -/
  many : index < args.length → results.length = index + 1
  /-- The arguments in front of the parameter stay as they are. -/
  front : results.take index = args.take index
  /-- The argument in the place of the parameter holds all arguments from there on. -/
  last : ∀ final, results[index]? = some final →
    args.drop index = [final] ∧ PassesAsArray types element final ∨
      ∃ note, note.ty = .array element ∧ final = .array note element (args.drop index)

/-- Packed arguments do not reach past the last parameter. -/
theorem Packs.length_le {results : List Expr} (packs : Packs types element index args results) :
    results.length ≤ index + 1 := by
  rcases Nat.lt_or_ge index args.length with inside | few
  · exact Nat.le_of_eq (packs.many inside)
  · rw [packs.few few]
    exact Nat.le_succ_of_le few

/-- Packing loses no argument and keeps their order. -/
theorem packs_expandParams (types : TypeTable) (variadic : Variadic signature index element)
    (args : List Expr) :
    Packs types element index args (expandParams types (some signature) args) := by
  cases isArg : args[index]? with
  | none =>
    have few := List.getElem?_eq_none_iff.1 isArg
    rw [expandParams_few types variadic few]
    refine ⟨fun _ => rfl, fun inside => absurd inside (Nat.not_lt.2 few), rfl,
      fun final isFinal => ?_⟩
    cases isArg.symm.trans isFinal
  | some arg =>
    have inside := (List.getElem?_eq_some_iff.1 isArg).1
    by_cases passed : args.length = index + 1 ∧ PassesAsArray types element arg
    · obtain ⟨sameLength, passes⟩ := passed
      rw [expandParams_array variadic sameLength isArg passes]
      refine ⟨fun _ => rfl, fun _ => sameLength, rfl, fun final isFinal => .inl ?_⟩
      obtain rfl := Option.some.inj (isArg.symm.trans isFinal)
      refine ⟨?_, passes⟩
      rw [List.drop_eq_getElem_cons inside, List.drop_eq_nil_of_le (Nat.le_of_eq sameLength)]
      rw [(List.getElem?_eq_some_iff.1 isArg).2]
    · rw [expandParams_rest variadic isArg passed]
      refine ⟨fun few => absurd inside (Nat.not_lt.2 few), fun _ => length_packed inside, ?_,
        fun final isFinal => .inr ?_⟩
      · simp [packed, Nat.le_of_lt inside]
      · obtain rfl := Option.some.inj ((packed_getElem? inside).symm.trans isFinal)
        exact ⟨_, rfl, rfl⟩

end ScriptSharp.Lowering.Sugar
