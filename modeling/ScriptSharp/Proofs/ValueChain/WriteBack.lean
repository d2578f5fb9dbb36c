import ScriptSharp.Proofs.ValueChain.Machine

/-!
# Blocks change what they are made for

The block of a change reads each property of its run once, from the outside in, changes the member
in the innermost copy, and writes each property once, from the inside out. In the end the member
has its new value and everything else in memory is as before.
-/

namespace ScriptSharp.Lowering.ValueChain

open Node (Avoids)

/-! ## Temporaries -/

/-- Temporaries with different numbers have different names. -/
theorem temporaryName_injective : Function.Injective temporaryName := by
  intro first second same
  have spelling : toString first = toString second := (String.append_right_inj "_").1 same
  rw [Nat.toString_eq_ofList_toDigits, Nat.toString_eq_ofList_toDigits] at spelling
  have digits := String.ofList_injective spelling
  calc first
    _ = Nat.ofDigitChars 10 (Nat.toDigits 10 first) 0 := Nat.ofDigitChars_ten_toDigits.symm
    _ = Nat.ofDigitChars 10 (Nat.toDigits 10 second) 0 := by rw [digits]
    _ = second := Nat.ofDigitChars_ten_toDigits

/-- The properties of a run. -/
def properties (segments : List Segment) : List Segment :=
  segments.filter Segment.isProperty

/-- The names along a run. -/
def path (segments : List Segment) : List String :=
  segments.map (·.name.name)

section Declared

/-- Statements in a row declare the names of both parts. -/
theorem declaredNames_append (first second : List Stmt) :
    declaredNames (first ++ second) = declaredNames first ++ declaredNames second :=
  List.filterMap_append ..

/-- The reads of a run declare one temporary for each property. -/
theorem declaredNames_reads (segments : List Segment) (number : Nat) (receiver : Expr) :
    declaredNames (steps number receiver segments).reads =
      (List.range' number (properties segments).length).map temporaryName := by
  induction segments generalizing number receiver with
  | nil => rfl
  | cons segment rest inductionHypothesis =>
    rw [steps]
    split
    case isTrue property =>
      simp only [properties, List.filter_cons, property, if_true, List.length_cons,
        List.range'_succ, List.map_cons]
      exact congrArg _ (inductionHypothesis _ _)
    case isFalse inPlace =>
      simp only [properties, List.filter_cons, inPlace, Bool.false_eq_true, if_false]
      exact inductionHypothesis _ _

/-- Writing copies back declares nothing. -/
theorem declaredNames_writes (segments : List Segment) (number : Nat) (receiver : Expr) :
    declaredNames (steps number receiver segments).writes = [] := by
  induction segments generalizing number receiver with
  | nil => rfl
  | cons segment rest inductionHypothesis =>
    rw [steps]
    split
    · rw [declaredNames_append, inductionHypothesis]
      rfl
    · exact inductionHypothesis _ _

end Declared

/-! ## Scopes of temporaries -/

section Scopes

variable {Cell Data : Type} {types : TypeTable} {language : Language Cell Data} {low high : Nat}
  {entries others : List (String × Value Data)}

/-- The entries are temporaries with numbers from `low` on and below `high`. -/
def Temporaries (low high : Nat) (entries : List (String × Value Data)) : Prop :=
  ∀ entry ∈ entries, ∃ number, low ≤ number ∧ number < high ∧ entry.1 = temporaryName number

/-- Entries in a row are temporaries if both parts are. -/
theorem Temporaries.append (first : Temporaries low high entries)
    (second : Temporaries low high others) : Temporaries low high (entries ++ others) :=
  List.forall_mem_append.2 ⟨first, second⟩

/-- Temporaries are among those of a wider range. -/
theorem Temporaries.widen {lower higher : Nat} (temporaries : Temporaries low high entries)
    (below : lower ≤ low) (above : high ≤ higher) : Temporaries lower higher entries := by
  intro entry member
  obtain ⟨number, atLeast, less, same⟩ := temporaries entry member
  exact ⟨number, Nat.le_trans below atLeast, Nat.lt_of_lt_of_le less above, same⟩

/-- A single temporary is among those from its number on. -/
theorem Temporaries.single {value : Value Data} (less : low < high) :
    Temporaries low high [(temporaryName low, value)] :=
  List.forall_mem_singleton.2 ⟨low, Nat.le_refl low, less, rfl⟩

/-- Temporaries with larger numbers have other names. -/
theorem Temporaries.ne_name {number : Nat} (temporaries : Temporaries low high entries)
    (less : number < low) : ∀ entry ∈ entries, temporaryName number ≠ entry.1 := by
  intro entry member same
  obtain ⟨other, atLeast, -, named⟩ := temporaries entry member
  have equal := temporaryName_injective (same.trans named)
  omega

/-- The receiver denotes a place that lies in no temporary with these numbers, and goes on to do so
when they are declared. -/
structure Anchored (types : TypeTable) (language : Language Cell Data) (low high : Nat)
    (memory : Memory Cell Data) (receiver : Expr) (origin : Place Cell) : Prop where
  located : ∀ entries, Temporaries low high entries →
    place types language (memory.push entries) receiver = some origin
  outside : ∀ number, low ≤ number → number < high → origin.base ≠ .named (temporaryName number)

variable {memory : Memory Cell Data} {receiver : Expr} {origin : Place Cell}

/-- An anchored receiver denotes its place at once. -/
theorem Anchored.here (anchored : Anchored types language low high memory receiver origin) :
    place types language memory receiver = some origin :=
  anchored.located [] nofun

/-- No temporary holds what an anchored receiver denotes. -/
theorem Anchored.outside_entries
    (anchored : Anchored types language low high memory receiver origin)
    (temporaries : Temporaries low high entries) : Memory.Outside entries origin.base := by
  intro entry member
  obtain ⟨number, atLeast, less, same⟩ := temporaries entry member
  rw [same]
  exact anchored.outside number atLeast less

/-- An expression that mentions no temporary is anchored. -/
theorem anchored_of_avoids
    (avoids : ∀ number, low ≤ number → number < high →
      Avoids (temporaryName number) (.expr receiver))
    (denotes : place types language memory receiver = some origin) :
    Anchored types language low high memory receiver origin where
  located entries temporaries := by
    rw [place_push, denotes]
    intro entry member
    obtain ⟨number, atLeast, less, same⟩ := temporaries entry member
    rw [same]
    exact avoids number atLeast less
  outside number atLeast less := base_ne_named (avoids number atLeast less) denotes

/-- What is anchored stays so when the first temporaries have been declared. -/
theorem Anchored.push {middle : Nat}
    (anchored : Anchored types language low high memory receiver origin)
    (temporaries : Temporaries low middle entries) (above : low ≤ middle) (fits : middle ≤ high) :
    Anchored types language middle high (memory.push entries) receiver origin where
  located others othersTemporaries := by
    rw [Memory.push_push]
    exact anchored.located _ ((othersTemporaries.widen above (Nat.le_refl high)).append
      (temporaries.widen (Nat.le_refl low) fits))
  outside number atLeast less := anchored.outside number (Nat.le_trans above atLeast) less

/-- A temporary is anchored before the temporaries behind it. -/
theorem anchored_temporary {number : Nat} {ty : Ty} (copied : types.isValueType ty = true)
    (less : number < low) : Anchored types language low high memory
      (.localRef (temporaryName number) ty) ⟨.named (temporaryName number), []⟩ where
  located entries _ := by simp [place, Expr.localRef, Expr.noteOf, copied, Ident.plain]
  outside other atLeast _ same := by
    have equal := temporaryName_injective (Base.named.inj same)
    omega

/-- A field of an anchored record is anchored. -/
theorem Anchored.field {segment : Segment}
    (anchored : Anchored types language low high memory receiver origin)
    (copied : types.isValueType segment.note.ty = true) (inPlace : segment.isProperty = false) :
    Anchored types language low high memory
      (.member segment.note receiver segment.name segment.binding)
      (origin.below [segment.name.name]) where
  located entries temporaries := by
    have field : (segment.binding.kind != .property) = true := by
      simpa [Segment.isProperty] using inPlace
    simp [place, copied, field, anchored.located entries temporaries]
  outside := anchored.outside

end Scopes

/-! ## Running a block -/

section Running

variable {Cell Data : Type} [DecidableEq Cell] {types : TypeTable} {language : Language Cell Data}
  {machine : Machine Cell Data}

/-- Statements in a row run one part after the other. -/
theorem execAll_append (first second : List Stmt) :
    execAll types language (first ++ second) machine =
      (execAll types language first machine).bind (execAll types language second) := by
  induction first generalizing machine with
  | nil => rfl
  | cons stmt rest inductionHypothesis =>
    simp only [List.cons_append, execAll, Option.bind_eq_bind, inductionHypothesis,
      Option.bind_assoc]

/-- The new value of the member depends on its old one. -/
def Change.isDependent : Change → Bool
  | .assign op _ => op.isSome
  | .step _ _ => true

/-- Evaluates what a change assigns. Gives the new value of the target for its old one. -/
def Change.prepare (types : TypeTable) (language : Language Cell Data) (change : Change)
    (machine : Machine Cell Data) :
    Option ((Value Data → Value Data) × Machine Cell Data) :=
  match change with
  | .assign op value =>
    (eval types language value machine).map fun (operand, settled) =>
      (language.combined op operand, settled)
  | .step op _ => some (language.step op, machine)

/-- What the change assigns stands in its temporary. -/
def Change.Ready (language : Language Cell Data) (change : Change) (memory : Memory Cell Data)
    (update : Value Data → Value Data) : Prop :=
  match change with
  | .assign op _ => ∃ operand, memory.locals.lookup (temporaryName 1) = some operand ∧
      update = language.combined op operand
  | .step op _ => update = language.step op

omit [DecidableEq Cell] in
/-- What is assigned stands ready while copies are declared. -/
theorem Change.Ready.push {change : Change} {memory : Memory Cell Data}
    {update : Value Data → Value Data} {number : Nat} (ready : change.Ready language memory update)
    (later : change.firstCopy ≤ number) (value : Value Data) :
    change.Ready language (memory.push [(temporaryName number, value)]) update := by
  cases change with
  | step op steps => exact ready
  | assign op assigned =>
    obtain ⟨operand, found, same⟩ := ready
    have differ : temporaryName 1 ≠ temporaryName number := by
      intro same
      have equal := temporaryName_injective same
      simp only [Change.firstCopy] at later
      omega
    refine ⟨operand, ?_, same⟩
    rw [Memory.push, List.singleton_append, List.lookup_cons, beq_false_of_ne differ]
    exact found

/-- The change of a copy is a change at the place of the copy. -/
theorem execExpr_onCopy {change : Change} {update : Value Data → Value Data}
    {origin : Place Cell} {receiver : Expr} {name : Ident} {binding : MemberBinding} {note : Note}
    (span : Span) (ready : change.Ready language machine.memory update)
    (denotes : place types language machine.memory receiver = some origin) :
    execExpr types language (change.onCopy span (.member note receiver name binding)) machine =
      machine.change (origin.below [name.name]) ⟨name, binding⟩ change.isDependent update := by
  cases change with
  | step op steps =>
    obtain rfl := ready
    simp [Change.onCopy, execExpr, steps, memberTarget?, Expr.stripParens, denotes,
      Change.isDependent]
  | assign op assigned =>
    obtain ⟨operand, found, rfl⟩ := ready
    simp [Change.onCopy, execExpr, memberTarget?, Expr.stripParens, denotes, Change.isDependent,
      eval, Expr.localRef, Ident.plain, found]

/-- A change that can be made is made, and logged. -/
theorem change_eq (accessor : Accessor) (dependent : Bool) {place : Place Cell}
    {update : Value Data → Value Data} {old : Value Data} {changed : Memory Cell Data}
    (found : machine.memory.get? place = some old)
    (put : machine.memory.put? place (update old) = some changed) :
    machine.change place accessor dependent update =
      some ⟨changed, machine.log ++ accessor.changeEvents dependent⟩ := by
  simp [Machine.change, found, put]

/-- Reading a property into a temporary. -/
theorem exec_read {segment : Segment} {receiver : Expr} {origin : Place Cell} {copy : Value Data}
    (number : Nat) (property : segment.isProperty = true)
    (denotes : place types language machine.memory receiver = some origin)
    (found : machine.memory.get? (origin.below [segment.name.name]) = some copy) :
    exec types language (declareTemporary number segment.note.ty
        (.member segment.note receiver segment.name segment.binding)) machine =
      some ⟨machine.memory.push [(temporaryName number, copy)],
        machine.log ++ [.read segment.accessor]⟩ := by
  have isProperty : (segment.binding.kind == .property) = true := property
  simp [declareTemporary, exec, eval, denotes, found, isProperty, Ident.plain, Segment.accessor]

/-- Writing a temporary to a property. -/
theorem exec_write {segment : Segment} {receiver : Expr} {origin : Place Cell}
    {old copy : Value Data} {changed : Memory Cell Data} {number : Nat}
    (property : segment.isProperty = true)
    (denotes : place types language machine.memory receiver = some origin)
    (held : machine.memory.locals.lookup (temporaryName number) = some copy)
    (found : machine.memory.get? (origin.below [segment.name.name]) = some old)
    (put : machine.memory.put? (origin.below [segment.name.name]) copy = some changed) :
    exec types language (.expr (Expr.assignTo
        (.member segment.note receiver segment.name segment.binding)
        (.localRef (temporaryName number) segment.note.ty))) machine =
      some ⟨changed, machine.log ++ [.write segment.accessor]⟩ := by
  have isProperty : segment.accessor.isProperty = true := property
  calc exec types language _ machine
    _ = machine.change (origin.below [segment.name.name]) segment.accessor false
        (language.combined none copy) := by
      simp [exec, execExpr, Expr.assignTo, memberTarget?, Expr.stripParens, eval, Expr.localRef,
        Ident.plain, held, denotes, Segment.accessor]
    _ = some ⟨changed, machine.log ++ segment.accessor.changeEvents false⟩ :=
      change_eq segment.accessor false found put
    _ = some ⟨changed, machine.log ++ [.write segment.accessor]⟩ := by
      simp [Accessor.changeEvents, isProperty]

/-- Runs statements on a copy: a property is read into a temporary, they change the temporary and
declare others, and the temporary is written back. -/
theorem execAll_onCopy {segment : Segment} {receiver : Expr} {origin : Place Cell}
    {memory changed : Memory Cell Data} {log inside : List Event} {copy newCopy : Value Data}
    {number high : Nat} {body : List Stmt} {entries : List (String × Value Data)}
    (property : segment.isProperty = true) (fits : number < high)
    (anchored : Anchored types language number high memory receiver origin)
    (found : memory.get? (origin.below [segment.name.name]) = some copy)
    (put : memory.put? (origin.below [segment.name.name]) newCopy = some changed)
    (temporaries : Temporaries (number + 1) high entries)
    (runs : execAll types language body
        ⟨memory.push [(temporaryName number, copy)], log ++ [.read segment.accessor]⟩ =
      some ⟨(memory.push [(temporaryName number, newCopy)]).push entries, inside⟩) :
    Temporaries number high (entries ++ [(temporaryName number, newCopy)]) ∧
      execAll types language (declareTemporary number segment.note.ty
          (.member segment.note receiver segment.name segment.binding) :: body ++
          [.expr (Expr.assignTo (.member segment.note receiver segment.name segment.binding)
            (.localRef (temporaryName number) segment.note.ty))]) ⟨memory, log⟩ =
        some ⟨changed.push (entries ++ [(temporaryName number, newCopy)]),
          inside ++ [.write segment.accessor]⟩ := by
  have all : Temporaries number high (entries ++ [(temporaryName number, newCopy)]) :=
    (temporaries.widen (Nat.le_succ number) (Nat.le_refl high)).append (.single fits)
  have outside : Memory.Outside (entries ++ [(temporaryName number, newCopy)])
      (origin.below [segment.name.name]).base := anchored.outside_entries all
  -- The temporaries of the body lie over the copy, under other names.
  have held : (memory.push (entries ++ [(temporaryName number, newCopy)])).locals.lookup
      (temporaryName number) = some newCopy := by
    simp only [Memory.push, List.append_assoc,
      Memory.lookup_append (temporaries.ne_name (Nat.lt_succ_self number))]
    simp
  have read : exec types language _ ⟨memory, log⟩ = _ :=
    exec_read number property anchored.here found
  have stillFound : (memory.push (entries ++ [(temporaryName number, newCopy)])).get?
      (origin.below [segment.name.name]) = some copy := by rw [Memory.get?_push outside, found]
  have nowPut : (memory.push (entries ++ [(temporaryName number, newCopy)])).put?
      (origin.below [segment.name.name]) newCopy =
        some (changed.push (entries ++ [(temporaryName number, newCopy)])) := by
    rw [Memory.put?_push outside, put, Option.map_some]
  have written : exec types language _
      ⟨memory.push (entries ++ [(temporaryName number, newCopy)]), inside⟩ = _ :=
    exec_write property (anchored.located _ all) held stillFound nowPut
  refine ⟨all, ?_⟩
  rw [Memory.push_push] at runs
  rw [execAll_append, execAll, read, Option.bind_eq_bind, Option.bind_some, runs, Option.bind_some,
    execAll, written]
  rfl

/-- The events of the reads of a run. -/
def readEvents (segments : List Segment) : List Event :=
  (properties segments).map fun segment => .read segment.accessor

/-- The events of the writes of a run. -/
def writeEvents (segments : List Segment) : List Event :=
  (properties segments).reverse.map fun segment => .write segment.accessor

/-- Runs what is made for a run: the properties are read, the member is changed, and the properties
are written. Everything that is left in memory of it is the changed member, and the temporaries. -/
theorem execAll_steps {change : Change} {update : Value Data → Value Data} {name : Ident}
    {binding : MemberBinding} {note : Note} {span : Span} {high : Nat} (segments : List Segment)
    (copied : ∀ segment ∈ segments, types.isValueType segment.note.ty = true)
    {number : Nat} (fits : number + (properties segments).length ≤ high)
    (later : change.firstCopy ≤ number) {receiver : Expr} {origin : Place Cell}
    {memory changed : Memory Cell Data} (log : List Event)
    (anchored : Anchored types language number high memory receiver origin)
    (ready : change.Ready language memory update) {old : Value Data}
    (found : memory.get? (origin.below (path segments ++ [name.name])) = some old)
    (put : memory.put? (origin.below (path segments ++ [name.name])) (update old) = some changed) :
    ∃ entries, Temporaries number high entries ∧ entries.length = (properties segments).length ∧
      execAll types language ((steps number receiver segments).reads ++
          [.expr (change.onCopy span
            (.member note (steps number receiver segments).receiver name binding))] ++
          (steps number receiver segments).writes) ⟨memory, log⟩ =
        some ⟨changed.push entries, log ++ (readEvents segments ++
          Accessor.changeEvents ⟨name, binding⟩ change.isDependent ++ writeEvents segments)⟩ := by
  induction segments generalizing number receiver origin memory log old changed with
  | nil =>
    refine ⟨[], nofun, rfl, ?_⟩
    have onCopy : execExpr types language (change.onCopy span (.member note receiver name binding))
        ⟨memory, log⟩ = _ := execExpr_onCopy span ready anchored.here
    have changes : Machine.change ⟨memory, log⟩ (origin.below [name.name]) _ _ update = _ :=
      change_eq ⟨name, binding⟩ change.isDependent found put
    simp [steps, execAll, exec, onCopy, changes, readEvents, writeEvents, properties]
  | cons segment rest inductionHypothesis =>
    obtain ⟨copiedHere, copiedLater⟩ := List.forall_mem_cons.1 copied
    have below : origin.below (path (segment :: rest) ++ [name.name]) =
        (origin.below [segment.name.name]).below (path rest ++ [name.name]) := by simp [path]
    rw [below] at found put
    rw [steps]
    split
    case isTrue property =>
      have same : properties (segment :: rest) = segment :: properties rest := by
        simp [properties, property]
      rw [same, List.length_cons] at fits
      obtain ⟨copy, copyFound, oldInCopy⟩ : ∃ copy,
          memory.get? (origin.below [segment.name.name]) = some copy ∧
            copy.get? (path rest ++ [name.name]) = some old := by
        rw [Memory.get?_below] at found
        exact Option.bind_eq_some_iff.1 found
      obtain ⟨newCopy, copyPut⟩ := Value.exists_put? (update old) oldInCopy
      rw [Memory.put?_below copyFound copyPut] at put
      -- The rest of the run starts from the temporary, which holds the copy.
      have innerFound : (memory.push [(temporaryName number, copy)]).get?
          (Place.below ⟨.named (temporaryName number), []⟩ (path rest ++ [name.name])) =
            some old := by
        simp [Memory.get?, Memory.value?, Memory.push, Place.below, oldInCopy]
      have innerPut : (memory.push [(temporaryName number, copy)]).put?
          (Place.below ⟨.named (temporaryName number), []⟩ (path rest ++ [name.name]))
            (update old) = some (memory.push [(temporaryName number, newCopy)]) := by
        simp [Memory.put?, Memory.value?, Memory.push, Place.below, copyPut, Memory.set,
          Memory.assign]
      obtain ⟨entries, temporaries, length, inner⟩ := inductionHypothesis copiedLater
        (show number + 1 + (properties rest).length ≤ high by omega)
        (Nat.le_succ_of_le later) (log ++ [.read segment.accessor])
        (anchored_temporary copiedHere (Nat.lt_succ_self number)) (ready.push later copy)
        innerFound innerPut
      obtain ⟨all, runs⟩ := execAll_onCopy property (show number < high by omega) anchored
        copyFound put temporaries inner
      refine ⟨_, all, by simp [same, length], ?_⟩
      simpa [readEvents, writeEvents, same] using runs
    case isFalse inPlace =>
      have field : segment.isProperty = false := by simpa using inPlace
      have same : properties (segment :: rest) = properties rest := by simp [properties, field]
      have next := inductionHypothesis copiedLater (same ▸ fits) later log
        (anchored.field copiedHere field) ready found put
      simpa only [readEvents, writeEvents, same] using next

/-- What a change assigns is evaluated first, and put into a temporary. -/
theorem execAll_opening {change : Change} {update : Value Data → Value Data}
    {start settled : Machine Cell Data} (ty : Ty)
    (prepared : change.prepare types language start = some (update, settled)) :
    ∃ entries, Temporaries 1 change.firstCopy entries ∧
      entries.length = (declaredNames (change.opening ty)).length ∧
      change.Ready language (settled.memory.push entries) update ∧
      execAll types language (change.opening ty) start =
        some ⟨settled.memory.push entries, settled.log⟩ := by
  cases change with
  | step op steps =>
    obtain ⟨rfl, rfl⟩ := Prod.mk.inj (Option.some.inj prepared)
    exact ⟨[], nofun, rfl, rfl, rfl⟩
  | assign op value =>
    obtain ⟨⟨operand, after⟩, evaluated, same⟩ := Option.map_eq_some_iff.1 prepared
    obtain ⟨rfl, rfl⟩ := Prod.mk.inj same
    refine ⟨[(temporaryName 1, operand)], .single Nat.one_lt_two, rfl, ?_, ?_⟩
    · exact ⟨operand, by simp [Memory.push], rfl⟩
    · simp [Change.opening, execAll, declareTemporary, exec, evaluated, Ident.plain]

/-- The names that a block declares. -/
theorem declaredNames_blockBody {change : Change} {root : Expr} {segments : List Segment} {ty : Ty}
    {span changeSpan : Span} {name : Ident} {binding : MemberBinding} :
    declaredNames (blockBody change root segments ty span changeSpan name binding) =
      declaredNames (change.opening ty) ++
        (List.range' change.firstCopy (properties segments).length).map temporaryName := by
  simp only [blockBody, declaredNames_append, declaredNames_reads, declaredNames_writes,
    List.append_nil, List.append_assoc]
  simp [declaredNames]

/-- A block declares temporaries with all numbers from one on. -/
theorem mem_declaredNames_blockBody {change : Change} {root : Expr} {segments : List Segment}
    {ty : Ty} {span changeSpan : Span} {name : Ident} {binding : MemberBinding} {number : Nat}
    (positive : 1 ≤ number) (less : number < change.firstCopy + (properties segments).length) :
    temporaryName number ∈
      declaredNames (blockBody change root segments ty span changeSpan name binding) := by
  rw [declaredNames_blockBody, List.mem_append]
  by_cases copy : change.firstCopy ≤ number
  · exact .inr (List.mem_map_of_mem (List.mem_range'_1.2 ⟨copy, less⟩))
  · cases change with
    | step op steps => exact absurd positive copy
    | assign op value =>
      obtain rfl : number = 1 := by
        simp only [Change.firstCopy] at copy
        omega
      exact .inl List.mem_cons_self

/-- The block of a change, for a run that is given by its root and its segments. -/
theorem exec_blockBody {change : Change} {update : Value Data → Value Data}
    {start settled : Machine Cell Data} {root : Expr} {segments : List Segment} {ty : Ty}
    {span changeSpan : Span} {name : Ident} {binding : MemberBinding} {origin : Place Cell}
    {old : Value Data} {changed : Memory Cell Data}
    (copied : ∀ segment ∈ segments, types.isValueType segment.note.ty = true)
    (avoids : ∀ temporary ∈ declaredNames
      (blockBody change root segments ty span changeSpan name binding),
      Avoids temporary (.expr root))
    (prepared : change.prepare types language start = some (update, settled))
    (located : place types language settled.memory root = some origin)
    (present : settled.memory.get? (origin.below (path segments ++ [name.name])) = some old)
    (put : settled.memory.put? (origin.below (path segments ++ [name.name])) (update old) =
      some changed) :
    exec types language (.block
        (blockBody change root segments ty span changeSpan name binding)) start =
      some ⟨changed, settled.log ++ (readEvents segments ++
        Accessor.changeEvents ⟨name, binding⟩ change.isDependent ++ writeEvents segments)⟩ := by
  have anchored : Anchored types language 1 (change.firstCopy + (properties segments).length)
      settled.memory root origin :=
    anchored_of_avoids (fun number positive less =>
      avoids _ (mem_declaredNames_blockBody positive less)) located
  have positive : 1 ≤ change.firstCopy := by cases change <;> simp [Change.firstCopy]
  obtain ⟨first, firstTemporaries, firstLength, ready, opening⟩ := execAll_opening ty prepared
  have anchoredBelow := anchored.push firstTemporaries positive (Nat.le_add_right _ _)
  have outside : Memory.Outside first (origin.below (path segments ++ [name.name])).base :=
    anchored.outside_entries (firstTemporaries.widen (Nat.le_refl 1) (Nat.le_add_right _ _))
  have found := (Memory.get?_push outside).trans present
  have putBelow : (settled.memory.push first).put? (origin.below (path segments ++ [name.name]))
      (update old) = some (changed.push first) := by
    rw [Memory.put?_push outside, put, Option.map_some]
  obtain ⟨entries, -, length, runs⟩ := execAll_steps segments copied (Nat.le_refl _)
    (Nat.le_refl change.firstCopy) settled.log anchoredBelow ready found putBelow
  have names : (declaredNames (blockBody change root segments ty span changeSpan name
      binding)).length = (entries ++ first).length := by
    rw [declaredNames_blockBody]
    simp [firstLength, length, Nat.add_comm]
  rw [exec, names, blockBody, List.append_assoc, List.append_assoc, execAll_append, opening,
    Option.bind_some, ← List.append_assoc, runs]
  simp only [Option.bind_eq_bind, Option.bind_some, Memory.push_push, Memory.pop_push]
  rfl

end Running

/-! ## Blocks -/

/-- The block of a change evaluates what is assigned. Then it reads each property of the run from
the outermost to the innermost one, changes the member, and writes each property from the innermost
to the outermost one, and does nothing else. In the end the member at the end of the run has its new
value, and everything apart from it is as it was after the evaluation. -/
theorem block_writes_back {Cell Data : Type} [DecidableEq Cell] {types : TypeTable}
    {language : Language Cell Data} {change : Change} {note memberNote : Note}
    {target receiver root : Expr} {segments : List Segment} {name : Ident}
    {binding : MemberBinding} {body : List Stmt} {start settled : Machine Cell Data}
    {update : Value Data → Value Data} {origin : Place Cell} {old : Value Data}
    (assigned : memberTarget? target = some (memberNote, receiver, name, binding))
    (isRun : IsRun types receiver root segments)
    (taken : leaveStmt types (.expr (change.expr note target)) = .ok (.block body))
    (avoids : ∀ temporary ∈ declaredNames body, Avoids temporary (.expr root))
    (prepared : change.prepare types language start = some (update, settled))
    (located : place types language settled.memory root = some origin)
    (present : settled.memory.get? (origin.below (path segments ++ [name.name])) = some old) :
    ∃ final, exec types language (.block body) start = some final ∧
      final.log = settled.log ++ (readEvents segments ++
        Accessor.changeEvents ⟨name, binding⟩ change.isDependent ++ writeEvents segments) ∧
      Memory.Replaced (origin.below (path segments ++ [name.name])) (update old)
        settled.memory final.memory := by
  have chained : isChained types target = true := by
    rcases leaveStmt_cases taken with ⟨same, -⟩ | ⟨other, otherNote, otherTarget, same, chained⟩
    · cases same
    · have targets := congrArg changed? (Stmt.expr.inj same)
      rw [change.changed?_expr, other.changed?_expr] at targets
      rw [Option.some.inj targets]
      exact chained
  have blockOf := leaveStmt_change assigned chained taken
  rw [isRun_iff.1 isRun] at blockOf
  obtain rfl := Stmt.block.inj blockOf
  obtain ⟨changed, put⟩ := Memory.exists_put? (update old) present
  exact ⟨_, exec_blockBody isRun.copied avoids prepared located present put, rfl,
    Memory.replaced_of_put? put⟩

/-! The change `body.frame.corner.x += 5`, where `frame` is a property and `corner` a field. -/

namespace Sprite

/-- A table with the types of corners and frames, which are structs, and the type of bodies. -/
def table : TypeTable :=
  .ofTypes [⟨"Point", none, .structType, none, [], []⟩, ⟨"Frame", none, .structType, none, [], []⟩,
    ⟨"Body", none, .classType, none, [], []⟩]

/-- The variable `body`. -/
def body : Expr := .localRef "body" (.named 2)

/-- The property `frame`. -/
def frame : Segment := ⟨.plain "frame", ⟨2, .property, false, none⟩, Expr.noteOf (.named 1)⟩

/-- The field `corner`. -/
def corner : Segment := ⟨.plain "corner", ⟨1, .field, false, none⟩, Expr.noteOf (.named 0)⟩

/-- The member `x`. -/
def x : Accessor := ⟨.plain "x", ⟨0, .field, false, none⟩⟩

/-- The access of a segment. -/
def access (receiver : Expr) (segment : Segment) : Expr :=
  .member segment.note receiver segment.name segment.binding

/-- The expression `body.frame.corner`. -/
def receiver : Expr := access (access body frame) corner

/-- The expression `body.frame.corner.x`. -/
def target : Expr := .member (Expr.noteOf .int) receiver x.name x.binding

/-- The addition of five. -/
def change : Change := .assign (some .add) (.literal (Expr.noteOf .int) (.int 5))

/-- The block of the change. -/
def block : List Stmt :=
  blockBody change body [frame, corner] .int .unknown .unknown x.name x.binding

/-- The variable `body` refers to the only object. -/
def storage? : Expr → Option (Base Unit)
  | .ident _ name _ => if name.name = "body" then some (.cell ()) else none
  | _ => none

/-- A language with numbers, additions and steps. -/
def language : Language Unit Int where
  locate expr _ := storage? expr
  evaluate
    | .literal _ (.int value), machine => some (.scalar value, machine)
    | _, _ => none
  combine
    | .add, .scalar left, .scalar right => .scalar (left + right)
    | _, left, _ => left
  step
    | .preInc, .scalar value | .postInc, .scalar value => .scalar (value + 1)
    | .preDec, .scalar value | .postDec, .scalar value => .scalar (value - 1)
    | _, value => value
  locate_push _ _ _ := rfl
  locate_named := by
    intro expr memory name located
    unfold storage? at located
    split at located
    · split_ifs at located
      cases located
    · cases located

/-- A record with one component. -/
def record (name : String) (value : Value Int) : Value Int :=
  .record fun other => if other = name then value else .scalar 0

/-- The object has its corner at 1. -/
def start : Machine Unit Int :=
  ⟨⟨[], fun _ => record "frame" (record "corner" (record "x" (.scalar 1)))⟩, []⟩

end Sprite

/-- The block of `body.frame.corner.x += 5` reads the frame, adds to its corner and writes it
back. -/
theorem block_writes_back_sprite :
    leaveStmt Sprite.table (.expr (Sprite.change.expr default Sprite.target)) =
        .ok (.block Sprite.block) ∧
      IsRun Sprite.table Sprite.receiver Sprite.body [Sprite.frame, Sprite.corner] ∧
      ∃ final, exec Sprite.table Sprite.language (.block Sprite.block) Sprite.start = some final ∧
        final.log = [.read Sprite.frame.accessor, .store Sprite.x,
          .write Sprite.frame.accessor] ∧
        Memory.Replaced ⟨.cell (), ["frame", "corner", "x"]⟩ (.scalar 6) Sprite.start.memory
          final.memory := by
  have assigned : memberTarget? Sprite.target =
      some (Expr.noteOf .int, Sprite.receiver, Sprite.x.name, Sprite.x.binding) := rfl
  have taken : leaveStmt Sprite.table (.expr (Sprite.change.expr default Sprite.target)) =
      .ok (.block Sprite.block) := by rfl
  have isRun : IsRun Sprite.table Sprite.receiver Sprite.body [Sprite.frame, Sprite.corner] :=
    isRun_iff.2 rfl
  have avoids : ∀ temporary ∈ declaredNames Sprite.block,
      Avoids temporary (.expr Sprite.body) := by
    intro temporary member
    refine Node.Everywhere.of_check 5 ?_
    revert temporary
    decide +kernel
  have prepared : Sprite.change.prepare Sprite.table Sprite.language Sprite.start =
      some (Sprite.language.combined (some .add) (.scalar 5), Sprite.start) := rfl
  have located : place Sprite.table Sprite.language Sprite.start.memory Sprite.body =
      some ⟨.cell (), []⟩ := by rfl
  exact ⟨taken, isRun, block_writes_back assigned isRun taken avoids prepared located rfl⟩

end ScriptSharp.Lowering.ValueChain
