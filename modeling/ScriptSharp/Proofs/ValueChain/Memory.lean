import Mathlib.Logic.Function.Basic
import Mathlib.Tactic.SplitIfs

/-!
# Records in memory

A value is a scalar or a record, and a record is copied as a whole. A place is some storage with
a path of components into the record that is stored there. Replacing the component at a place
changes no other component of the memory.
-/

namespace ScriptSharp.Lowering.ValueChain

/-- A value: a scalar, or a record with a value for each component. -/
inductive Value (Data : Type) where
  | scalar (data : Data)
  | record (component : String → Value Data)

namespace Value

variable {Data : Type}

/-- The component at the end of a path. -/
def get? : Value Data → List String → Option (Value Data)
  | value, [] => some value
  | .record component, name :: rest => (component name).get? rest
  | .scalar _, _ :: _ => none

/-- The value with the component at the end of a path replaced. -/
def put? : Value Data → List String → Value Data → Option (Value Data)
  | _, [], new => some new
  | .record component, name :: rest, new =>
    ((component name).put? rest new).map fun changed =>
      .record (Function.update component name changed)
  | .scalar _, _ :: _, _ => none

@[simp]
theorem get?_nil (value : Value Data) : value.get? [] = some value := by
  cases value <;> rfl

@[simp]
theorem put?_nil (value new : Value Data) : value.put? [] new = some new := by
  cases value <;> rfl

/-- A path is followed one part after the other. -/
theorem get?_append (value : Value Data) (first second : List String) :
    value.get? (first ++ second) = (value.get? first).bind (·.get? second) := by
  induction first generalizing value with
  | nil => simp
  | cons name rest inductionHypothesis =>
    cases value with
    | scalar data => rfl
    | record component => exact inductionHypothesis (component name)

/-- A component of a component is replaced by replacing the outer one. -/
theorem put?_append {value inner : Value Data} {first : List String} (second : List String)
    (new : Value Data) (found : value.get? first = some inner) :
    value.put? (first ++ second) new =
      (inner.put? second new).bind fun changed => value.put? first changed := by
  induction first generalizing value with
  | nil =>
    obtain rfl := Option.some.inj ((get?_nil value).symm.trans found)
    simp
  | cons name rest inductionHypothesis =>
    cases value with
    | scalar data => cases found
    | record component =>
      have foundBelow : (component name).get? rest = some inner := found
      simp only [List.cons_append, put?, inductionHypothesis foundBelow, Option.map_bind]
      rfl

/-- Whatever can be read can be replaced. -/
theorem exists_put? {value old : Value Data} {path : List String} (new : Value Data)
    (found : value.get? path = some old) : ∃ changed, value.put? path new = some changed := by
  induction path generalizing value with
  | nil => exact ⟨new, put?_nil value new⟩
  | cons name rest inductionHypothesis =>
    cases value with
    | scalar data => cases found
    | record component =>
      have foundBelow : (component name).get? rest = some old := found
      obtain ⟨changed, below⟩ := inductionHypothesis foundBelow
      exact ⟨_, by rw [put?, below]; rfl⟩

/-- What has been replaced is found again. -/
theorem get?_put? {value new changed : Value Data} {path : List String}
    (replaced : value.put? path new = some changed) : changed.get? path = some new := by
  induction path generalizing value changed with
  | nil =>
    obtain rfl := Option.some.inj ((put?_nil value new).symm.trans replaced)
    exact get?_nil new
  | cons name rest inductionHypothesis =>
    cases value with
    | scalar data => cases replaced
    | record component =>
      obtain ⟨below, belowReplaced, rfl⟩ := Option.map_eq_some_iff.1 replaced
      simpa [get?] using inductionHypothesis belowReplaced

/-- Neither path leads into what the other one leads to. -/
def Apart (first second : List String) : Prop :=
  ¬ first <+: second ∧ ¬ second <+: first

/-- Apart from what has been replaced, everything is found as before. -/
theorem get?_put?_of_apart {value new changed : Value Data} {path other : List String}
    (replaced : value.put? path new = some changed) (apart : Apart path other) :
    changed.get? other = value.get? other := by
  induction path generalizing value changed other with
  | nil => exact absurd other.nil_prefix apart.1
  | cons name rest inductionHypothesis =>
    cases other with
    | nil => exact absurd (List.nil_prefix) apart.2
    | cons otherName otherRest =>
      cases value with
      | scalar data => cases replaced
      | record component =>
        obtain ⟨below, belowReplaced, rfl⟩ := Option.map_eq_some_iff.1 replaced
        by_cases same : otherName = name
        · subst same
          have apartBelow : Apart rest otherRest := by
            simpa [Apart, List.cons_prefix_cons] using apart
          simpa [get?] using inductionHypothesis belowReplaced apartBelow
        · simp [get?, same]

end Value

/-! ## Places -/

/-- Storage that holds a value: a variable, or a cell (an object, the static members of a type, an
element of an array). -/
inductive Base (Cell : Type) where
  | named (name : String)
  | cell (cell : Cell)
  deriving DecidableEq

/-- Storage with a path into its value. -/
structure Place (Cell : Type) where
  base : Base Cell
  path : List String

namespace Place

variable {Cell : Type}

/-- The place behind a path from a place. -/
def below (place : Place Cell) (path : List String) : Place Cell :=
  ⟨place.base, place.path ++ path⟩

/-- A place behind a place is the place behind both paths. -/
@[simp]
theorem below_below (place : Place Cell) (first second : List String) :
    (place.below first).below second = place.below (first ++ second) := by
  simp [below]

@[simp]
theorem base_below (place : Place Cell) (path : List String) :
    (place.below path).base = place.base := rfl

/-- Neither place lies in the other one. -/
def Apart (first second : Place Cell) : Prop :=
  first.base = second.base → Value.Apart first.path second.path

end Place

/-! ## Memory -/

/-- The variables in scope, the innermost first, and all other storage. -/
structure Memory (Cell Data : Type) where
  locals : List (String × Value Data)
  storage : Cell → Value Data

namespace Memory

variable {Cell Data : Type}

/-- Brings variables into scope. -/
def push (entries : List (String × Value Data)) (memory : Memory Cell Data) : Memory Cell Data :=
  { memory with locals := entries ++ memory.locals }

/-- Takes the innermost variables out of scope. -/
def pop (count : Nat) (memory : Memory Cell Data) : Memory Cell Data :=
  { memory with locals := memory.locals.drop count }

/-- Changes the innermost variable with a name. -/
def assign (name : String) (value : Value Data) : List (String × Value Data) →
    List (String × Value Data)
  | [] => []
  | (other, held) :: rest =>
    if name = other then (other, value) :: rest else (other, held) :: assign name value rest

/-- What some storage holds. -/
def value? (memory : Memory Cell Data) : Base Cell → Option (Value Data)
  | .named name => memory.locals.lookup name
  | .cell cell => some (memory.storage cell)

/-- What stands at a place. -/
def get? (memory : Memory Cell Data) (place : Place Cell) : Option (Value Data) :=
  (memory.value? place.base).bind (·.get? place.path)

section Changes

variable [DecidableEq Cell]

/-- Changes what some storage holds. -/
def set (memory : Memory Cell Data) (value : Value Data) : Base Cell → Memory Cell Data
  | .named name => { memory with locals := assign name value memory.locals }
  | .cell cell => { memory with storage := Function.update memory.storage cell value }

/-- Replaces what stands at a place. -/
def put? (memory : Memory Cell Data) (place : Place Cell) (new : Value Data) :
    Option (Memory Cell Data) := do
  let whole ← memory.value? place.base
  let changed ← whole.put? place.path new
  return memory.set changed place.base

end Changes

/-! ### Scopes -/

@[simp]
theorem push_nil (memory : Memory Cell Data) : memory.push [] = memory := rfl

/-- Variables can be brought into scope in two steps. -/
@[simp]
theorem push_push (memory : Memory Cell Data) (first second : List (String × Value Data)) :
    (memory.push first).push second = memory.push (second ++ first) := by
  simp [push]

/-- Taking variables out of scope undoes bringing them in. -/
@[simp]
theorem pop_push (memory : Memory Cell Data) (entries : List (String × Value Data)) :
    (memory.push entries).pop entries.length = memory := by
  simp [push, pop]

/-- No entry holds this storage. -/
def Outside (entries : List (String × Value Data)) (base : Base Cell) : Prop :=
  ∀ entry ∈ entries, base ≠ .named entry.1

/-- A variable is looked up behind entries with other names. -/
theorem lookup_append {entries rest : List (String × Value Data)} {name : String}
    (outside : ∀ entry ∈ entries, name ≠ entry.1) :
    (entries ++ rest).lookup name = rest.lookup name := by
  induction entries with
  | nil => rfl
  | cons first others inductionHypothesis =>
    obtain ⟨here, later⟩ := List.forall_mem_cons.1 outside
    rw [List.cons_append, List.lookup_cons, beq_false_of_ne here]
    exact inductionHypothesis later

/-- A variable is changed behind entries with other names. -/
theorem assign_append {entries rest : List (String × Value Data)} {name : String}
    {value : Value Data} (outside : ∀ entry ∈ entries, name ≠ entry.1) :
    assign name value (entries ++ rest) = entries ++ assign name value rest := by
  induction entries with
  | nil => rfl
  | cons first others inductionHypothesis =>
    obtain ⟨here, later⟩ := List.forall_mem_cons.1 outside
    rw [List.cons_append, assign, if_neg here, inductionHypothesis later, List.cons_append]

/-- New variables hide no storage that they do not hold. -/
theorem value?_push {memory : Memory Cell Data} {entries : List (String × Value Data)}
    {base : Base Cell} (outside : Outside entries base) :
    (memory.push entries).value? base = memory.value? base := by
  cases base with
  | named name => exact lookup_append fun entry member same => outside entry member (by rw [same])
  | cell cell => rfl

/-- New variables hide no place outside of them. -/
theorem get?_push {memory : Memory Cell Data} {entries : List (String × Value Data)}
    {place : Place Cell} (outside : Outside entries place.base) :
    (memory.push entries).get? place = memory.get? place := by
  rw [get?, value?_push outside, get?]

/-- What stands behind a place is found in what stands at the place. -/
theorem get?_below (memory : Memory Cell Data) (place : Place Cell) (path : List String) :
    memory.get? (place.below path) = (memory.get? place).bind (·.get? path) := by
  simp only [get?, Place.below, Value.get?_append, Option.bind_assoc]

section Changes

variable [DecidableEq Cell]

/-- Storage outside of new variables can be changed before or after they are brought into scope. -/
theorem set_push {memory : Memory Cell Data} {entries : List (String × Value Data)}
    {base : Base Cell} {value : Value Data} (outside : Outside entries base) :
    (memory.push entries).set value base = (memory.set value base).push entries := by
  cases base with
  | named name =>
    have names : ∀ entry ∈ entries, name ≠ entry.1 := fun entry member same =>
      outside entry member (by rw [same])
    simp only [set, push, assign_append names]
  | cell cell => rfl

/-- What stands outside of a scope is replaced outside of it. -/
theorem put?_push {memory : Memory Cell Data} {entries : List (String × Value Data)}
    {place : Place Cell} {new : Value Data} (outside : Outside entries place.base) :
    (memory.push entries).put? place new = (memory.put? place new).map (·.push entries) := by
  simp only [put?, value?_push outside, set_push outside, Option.bind_eq_bind, Option.map_bind]
  cases memory.value? place.base with
  | none => rfl
  | some whole => cases replaced : whole.put? place.path new <;> simp [replaced]

/-! ### Replacing a component -/

/-- A changed variable has its new value. -/
theorem lookup_assign {name : String} {held : Value Data} {entries : List (String × Value Data)}
    (value : Value Data) (found : entries.lookup name = some held) :
    (assign name value entries).lookup name = some value := by
  induction entries with
  | nil => cases found
  | cons first rest inductionHypothesis =>
    by_cases same : name = first.1
    · simp [assign, same]
    · rw [List.lookup_cons, beq_false_of_ne same] at found
      rw [assign, if_neg same, List.lookup_cons, beq_false_of_ne same]
      exact inductionHypothesis found

/-- All other variables keep their values. -/
theorem lookup_assign_of_ne {name other : String} {entries : List (String × Value Data)}
    (value : Value Data) (differ : other ≠ name) :
    (assign name value entries).lookup other = entries.lookup other := by
  induction entries with
  | nil => rfl
  | cons first rest inductionHypothesis =>
    rw [assign]
    split_ifs with same
    · rw [List.lookup_cons, List.lookup_cons, beq_false_of_ne (same ▸ differ)]
    · rw [List.lookup_cons, List.lookup_cons, inductionHypothesis]

/-- Changed storage holds its new value. -/
theorem value?_set {memory : Memory Cell Data} {base : Base Cell} {held : Value Data}
    (value : Value Data) (found : memory.value? base = some held) :
    (memory.set value base).value? base = some value := by
  cases base with
  | named name => exact lookup_assign value found
  | cell cell => simp [set, value?]

/-- All other storage holds what it did. -/
theorem value?_set_of_ne {memory : Memory Cell Data} {base other : Base Cell} (value : Value Data)
    (differ : other ≠ base) : (memory.set value base).value? other = memory.value? other := by
  cases base with
  | named name =>
    cases other with
    | named other => exact lookup_assign_of_ne value fun same => differ (by rw [same])
    | cell cell => rfl
  | cell cell =>
    cases other with
    | named other => rfl
    | cell other =>
      have cells : other ≠ cell := fun same => differ (by rw [same])
      simp [set, value?, cells]

/-- The component at a place has been replaced, and no other one. -/
structure Replaced (place : Place Cell) (new : Value Data) (before after : Memory Cell Data) :
    Prop where
  here : after.get? place = some new
  elsewhere (other : Place Cell) : place.Apart other → after.get? other = before.get? other

/-- What stands at a place is replaced in the storage that holds it. -/
theorem put?_eq_some {memory changed : Memory Cell Data} {place : Place Cell} {new : Value Data} :
    memory.put? place new = some changed ↔ ∃ held value, memory.value? place.base = some held ∧
      held.put? place.path new = some value ∧ memory.set value place.base = changed := by
  simp [put?, Option.bind_eq_some_iff]

/-- A place that can be replaced is, and nothing apart from it. -/
theorem replaced_of_put? {memory changed : Memory Cell Data} {place : Place Cell}
    {new : Value Data} (put : memory.put? place new = some changed) :
    Replaced place new memory changed := by
  obtain ⟨held, value, found, replaced, rfl⟩ := put?_eq_some.1 put
  refine ⟨?_, fun other apart => ?_⟩
  · rw [get?, value?_set value found]
    exact Value.get?_put? replaced
  · by_cases same : place.base = other.base
    · rw [get?, get?, ← same, value?_set value found, found]
      exact Value.get?_put?_of_apart replaced (apart same)
    · rw [get?, value?_set_of_ne value (Ne.symm same), get?]

/-- Whatever can be read can be replaced. -/
theorem exists_put? {memory : Memory Cell Data} {place : Place Cell} {old : Value Data}
    (new : Value Data) (found : memory.get? place = some old) :
    ∃ changed, memory.put? place new = some changed := by
  obtain ⟨held, heldThere, inHeld⟩ := Option.bind_eq_some_iff.1 found
  obtain ⟨value, replaced⟩ := Value.exists_put? new inHeld
  exact ⟨_, put?_eq_some.2 ⟨held, value, heldThere, replaced, rfl⟩⟩

/-- A component of what stands at a place is replaced by replacing what stands there. -/
theorem put?_below {memory : Memory Cell Data} {place : Place Cell} {inner changed : Value Data}
    {path : List String} {new : Value Data} (found : memory.get? place = some inner)
    (replaced : inner.put? path new = some changed) :
    memory.put? (place.below path) new = memory.put? place changed := by
  obtain ⟨held, heldThere, inHeld⟩ := Option.bind_eq_some_iff.1 found
  simp [put?, Place.below, heldThere, Value.put?_append path new inHeld, replaced]

end Changes

end Memory

end ScriptSharp.Lowering.ValueChain
