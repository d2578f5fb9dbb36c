import Mathlib.Data.List.Basic
import ScriptSharp.Types.Conversion

/-!
# Casts and the choice of a constructor

A constructor is found for the types of its arguments. It takes all of them, with casts at most,
and it takes them as they are whenever some constructor does. Between types of which one has no name
and is no number, such as an array, only objects are cast.
-/

namespace ScriptSharp

/-- Only `void` is void. -/
theorem Ty.isVoid_iff {ty : Ty} : ty.isVoid = true ↔ ty = .void := by
  cases ty <;> simp [Ty.isVoid]

namespace TypeTable

variable {table : TypeTable} {source target : Ty} {accepted : Ty → Ty → Bool}
  {arguments : List Ty} {chosen other : Signature} {id : TypeId} {info : TypeInfo}

/-! ## Casts that are allowed -/

/-- Every type converts to itself. -/
theorem implicitlyConvertible_refl (table : TypeTable) (ty : Ty) :
    table.implicitlyConvertible ty ty = true := by
  unfold implicitlyConvertible
  simp

/-- What converts implicitly converts explicitly. -/
theorem explicitlyConvertible_of_implicitly
    (converts : table.implicitlyConvertible source target = true) :
    table.explicitlyConvertible source target = true := by
  simp [explicitlyConvertible, converts]

/-- An object converts explicitly to every type. -/
theorem explicitlyConvertible_of_isObject (isObject : source.isObject = true) :
    table.explicitlyConvertible source target = true := by
  simp [explicitlyConvertible, isObject]

/-- A type without a declaration that is no number is no enum either. -/
theorem isNumericOrEnum_of_unnamed {ty : Ty} (unnamed : ty.typeId? = none)
    (unranked : ty.isNumeric = false) : table.isNumericOrEnum ty = false := by
  simp [isNumericOrEnum, isEnum, kindOf?, unnamed, unranked]

/-- Only an object is cast to a type without a name that is no number. -/
theorem isObject_of_cast (unnamed : target.typeId? = none) (unranked : target.isNumeric = false)
    (converts : table.explicitlyConvertible source target = true)
    (unaccepted : table.implicitlyConvertible source target = false) :
    source.isObject = true := by
  simpa [explicitlyConvertible, unaccepted, unnamed, isNumericOrEnum_of_unnamed unnamed unranked]
    using converts

/-- A type without a name that is no number is cast only if it is an object. -/
theorem implicitlyConvertible_of_unnamed (unnamed : source.typeId? = none)
    (unranked : source.isNumeric = false) (other : source.isObject = false)
    (converts : table.explicitlyConvertible source target = true) :
    table.implicitlyConvertible source target = true := by
  simpa [explicitlyConvertible, other, unnamed, isNumericOrEnum_of_unnamed unnamed unranked]
    using converts

/-! ## The constructor that is found -/

/-- A signature accepts as many arguments as it has parameters, each of them in its place. -/
theorem accepts_iff : accepts accepted arguments chosen = true ↔
    chosen.params.length = arguments.length ∧ ∀ (place : Nat) param argument,
      chosen.params[place]? = some param → arguments[place]? = some argument →
        accepted argument param.ty = true := by
  rw [accepts, Bool.and_eq_true, beq_iff_eq, List.all_eq_true]
  refine and_congr_right fun _ => ⟨fun all place param argument isParam isArgument => ?_, ?_⟩
  · refine all (param, argument) (List.mem_iff_getElem?.2 ⟨place, ?_⟩)
    exact List.getElem?_zip_eq_some.2 ⟨isParam, isArgument⟩
  · rintro all ⟨param, argument⟩ member
    obtain ⟨place, both⟩ := List.mem_iff_getElem?.1 member
    obtain ⟨isParam, isArgument⟩ := List.getElem?_zip_eq_some.1 both
    exact all place param argument isParam isArgument

/-- A wider relation accepts what a narrower one accepts. -/
theorem accepts_mono {wider : Ty → Ty → Bool}
    (follows : ∀ argument param, accepted argument param = true → wider argument param = true)
    (accepts : accepts accepted arguments chosen = true) :
    TypeTable.accepts wider arguments chosen = true := by
  obtain ⟨sameLength, all⟩ := accepts_iff.1 accepts
  exact accepts_iff.2 ⟨sameLength, fun place param argument isParam isArgument =>
    follows _ _ (all place param argument isParam isArgument)⟩

/-- The constructor that is found takes the arguments, with casts at most. -/
theorem accepts_of_found (found : table.findConstructor? id arguments = some chosen) :
    accepts table.explicitlyConvertible arguments chosen = true := by
  obtain ⟨info, -, found⟩ := Option.bind_eq_some_iff.1 found
  rcases Option.or_eq_some_iff.1 found with first | ⟨-, second⟩
  · exact accepts_mono (fun _ _ => explicitlyConvertible_of_implicitly) (List.find?_some first)
  · exact List.find?_some second

/-- Where some constructor takes the arguments as they are, the one that is found does. -/
theorem accepts_implicitly_of_found (isType : table.get? id = some info)
    (member : other ∈ info.constructors)
    (takes : accepts table.implicitlyConvertible arguments other = true)
    (found : table.findConstructor? id arguments = some chosen) :
    accepts table.implicitlyConvertible arguments chosen = true := by
  simp only [findConstructor?, isType, Option.bind_some] at found
  rcases Option.or_eq_some_iff.1 found with first | ⟨none, -⟩
  · exact List.find?_some first
  · exact absurd takes (List.find?_eq_none.1 none other member)

end TypeTable

end ScriptSharp
