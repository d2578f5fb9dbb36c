import ScriptSharp.Proofs.Constructors.Construction

/-!
# Initializers that have been moved

What the members of a class are after its field initializers have been moved into constructors.
`decl_initializes_once` says what this means for its objects: the fields are initialized once, in
the order of their declaration, and then the bodies of the source run.
-/

namespace ScriptSharp.Lowering.Constructors

open Node

/-! ## The members of the result -/

section Members

variable {decl : TypeDecl} {members : List Member} {inits : List Stmt}

/-- The constructors of a declaration are members of it. -/
theorem mem_ctors {ctor : CtorDecl} : ctor ∈ decl.ctors ↔ .ctor ctor ∈ decl.members := by
  simp only [TypeDecl.ctors, List.mem_filterMap]
  constructor
  · rintro ⟨member, found, same⟩
    cases member <;> simp_all
  · intro found
    exact ⟨_, found, rfl⟩

/-- The fields of a declaration are members of it. -/
theorem mem_fields {field : FieldDecl} : field ∈ decl.fields ↔ .field field ∈ decl.members := by
  simp only [TypeDecl.fields, List.mem_filterMap]
  constructor
  · rintro ⟨member, found, same⟩
    cases member <;> simp_all
  · intro found
    exact ⟨_, found, rfl⟩

/-- Taking initializers away keeps the constructors. -/
theorem ctors_withoutInit :
    TypeDecl.ctors { decl with members := members.map withoutInit } =
      TypeDecl.ctors { decl with members } := by
  induction members with
  | nil => rfl
  | cons first rest inductionHypothesis =>
    cases first <;> simp_all [TypeDecl.ctors, withoutInit]

/-- A constructor behind the other members is the last one. -/
theorem ctors_append (members : List Member) (ctor : CtorDecl) :
    TypeDecl.ctors { decl with members := members ++ [.ctor ctor] } =
      TypeDecl.ctors { decl with members } ++ [ctor] := by
  simp [TypeDecl.ctors]

/-- Static initializers leave the constructors of objects alone. -/
theorem instanceCtors_prependStatic (inits : List Stmt) (members : List Member) :
    instanceCtors { decl with members := prependStatic inits members } =
      instanceCtors { decl with members } := by
  fun_induction prependStatic inits members <;>
    simp_all [instanceCtors, TypeDecl.ctors, Modifiers.shared]

/-- Static initializers stand in front of the first static constructor. -/
theorem staticBody_prependStatic (inits : List Stmt) (members : List Member) :
    staticBody { decl with members := prependStatic inits members } =
      inits ++ staticBody { decl with members } := by
  fun_induction prependStatic inits members <;>
    simp_all [staticBody, staticCtors, TypeDecl.ctors, Modifiers.shared]

/-- A constructor of objects is found among the members if there is one. -/
theorem any_isInstanceCtor (decl : TypeDecl) (members : List Member) :
    members.any isInstanceCtor = true ↔ instanceCtors { decl with members } ≠ [] := by
  induction members with
  | nil => simp [instanceCtors, TypeDecl.ctors]
  | cons first rest inductionHypothesis =>
    cases first with
    | ctor ctor =>
      cases isStatic : ctor.modifiers.isStatic <;>
        simp_all [instanceCtors, TypeDecl.ctors, isInstanceCtor]
    | field field | method method => simp_all [instanceCtors, TypeDecl.ctors, isInstanceCtor]

/-- Each constructor of objects gets its guarded initializers. -/
theorem instanceCtors_guarded (guardDecl : TypeDecl) :
    instanceCtors { decl with
      members := members.map (guardMember guardDecl inits) ++ [guardField guardDecl] } =
      (instanceCtors { decl with members }).map (guardCtor guardDecl inits) := by
  induction members with
  | nil => rfl
  | cons first rest inductionHypothesis =>
    cases first with
    | ctor ctor =>
      cases isStatic : ctor.modifiers.isStatic <;>
        cases delegates : ctor.delegatesToThis <;>
        simp_all [instanceCtors, TypeDecl.ctors, guardMember, guardCtor]
    | field field | method method => simp_all [instanceCtors, TypeDecl.ctors, guardMember]

/-- Guarded initializers leave static constructors alone. -/
theorem staticCtors_guarded (guardDecl : TypeDecl) :
    staticCtors { decl with
      members := members.map (guardMember guardDecl inits) ++ [guardField guardDecl] } =
      staticCtors { decl with members } := by
  induction members with
  | nil => rfl
  | cons first rest inductionHypothesis =>
    cases first with
    | ctor ctor =>
      cases isStatic : ctor.modifiers.isStatic <;>
        cases delegates : ctor.delegatesToThis <;>
        simp_all [staticCtors, TypeDecl.ctors, guardMember]
    | field field | method method => simp_all [staticCtors, TypeDecl.ctors, guardMember]

/-! No field keeps its initializer. -/

/-- No field among the members has an initializer. -/
def Bare (members : List Member) : Prop :=
  ∀ member ∈ members, withoutInit member = member

/-- Among bare members no field has an initializer. -/
theorem Bare.init_eq_none (bare : Bare members) {field : FieldDecl}
    (fieldOf : .field field ∈ members) : field.init = none := by
  have same : { field with init := none } = field := Member.field.inj (bare _ fieldOf)
  exact congrArg FieldDecl.init same.symm

/-- Where members are bare, no field is initialized. -/
theorem Bare.initialized_eq_nil (bare : Bare members) (decl : TypeDecl) (isStatic : Bool) :
    initialized { decl with members } isStatic = [] := by
  refine List.eq_nil_iff_forall_not_mem.2 fun (field, value) member => ?_
  obtain ⟨fieldOf, -, present⟩ := mem_initialized.1 member
  rw [bare.init_eq_none (mem_fields.1 fieldOf)] at present
  cases present

/-- Members without their initializers are bare. -/
theorem bare_withoutInit (members : List Member) : Bare (members.map withoutInit) := by
  simp only [Bare, List.forall_mem_map]
  intro member _
  cases member <;> rfl

/-- Moving static initializers brings no initializer of a field in. -/
theorem Bare.prependStatic (bare : Bare members) (inits : List Stmt) :
    Bare (Constructors.prependStatic inits members) := by
  fun_induction Constructors.prependStatic inits members with
  | case1 => simp [Bare, withoutInit]
  | case2 => exact List.forall_mem_cons.2 ⟨rfl, (List.forall_mem_cons.1 bare).2⟩
  | case3 ctor rest _ inductionHypothesis | case4 member rest _ inductionHypothesis =>
    obtain ⟨first, later⟩ := List.forall_mem_cons.1 bare
    exact List.forall_mem_cons.2 ⟨first, inductionHypothesis later⟩

/-- Guarding a bare member leaves it bare. -/
theorem withoutInit_guardMember {member : Member} (bare : withoutInit member = member) :
    withoutInit (guardMember decl inits member) = guardMember decl inits member := by
  cases member with
  | ctor ctor => simp only [guardMember]; split_ifs <;> rfl
  | field field | method method => exact bare

/-- Moving the other initializers brings no initializer of a field in. -/
theorem Bare.placeInstance (bare : Bare members) (decl : TypeDecl) (inits : List Stmt) :
    Bare (Constructors.placeInstance decl inits members) := by
  unfold Constructors.placeInstance
  split_ifs
  · refine List.forall_mem_append.2 ⟨?_, by simp [withoutInit, guardField]⟩
    exact List.forall_mem_map.2 fun member found => withoutInit_guardMember (bare member found)
  · exact List.forall_mem_append.2 ⟨bare, by simp [withoutInit]⟩

/-- A class with an initialized field of its objects has a statement to move. -/
theorem initializers_ne_nil
    (present : ∃ field ∈ decl.fields, field.modifiers.isStatic = false ∧ field.init ≠ none) :
    initializers decl false ≠ [] := by
  obtain ⟨field, member, kind, some⟩ := present
  obtain ⟨value, same⟩ := Option.ne_none_iff_exists'.1 some
  rw [initializers_eq_map]
  exact List.ne_nil_of_mem (List.mem_map_of_mem (mem_initialized.2 ⟨member, kind, same⟩))

/-! What stands in the members avoids the guard. -/

/-- Initializers are expressions, so they do not end a body. -/
theorem allExpressions_initializers (decl : TypeDecl) (isStatic : Bool) :
    AllExpressions (initializers decl isStatic) := by
  rw [initializers_eq_map]
  exact List.forall_mem_map.2 fun _ _ => ⟨_, rfl⟩

/-- Initializers mention no name that the members do not mention. -/
theorem avoids_initializers {name : String} {isStatic : Bool}
    (avoids : ∀ member ∈ decl.members, Avoids name (.member member)) :
    ∀ stmt ∈ initializers decl isStatic, Avoids name (.stmt stmt) := by
  rw [initializers_eq_map]
  refine List.forall_mem_map.2 fun (field, init) member => ?_
  obtain ⟨found, -, present⟩ := mem_initialized.1 member
  have fieldAvoids := avoids _ (mem_fields.1 found)
  have nameAvoids : field.name.name ≠ name := fieldAvoids.ident List.mem_cons_self
  have initAvoids : Avoids name (.expr init) := by
    refine fieldAvoids.child ?_
    simp [Node.children, Node.parts, Member.parts, Part.value, present]
  simp only [initializer, avoids_exprStmt, avoids_assign, avoids_member]
  refine ⟨⟨nameAvoids, ?_⟩, initAvoids⟩
  split_ifs
  · exact avoids_typeRef
  · exact avoids_selfRef

/-- The bodies of constructors mention no name that the members do not mention. -/
theorem avoids_body {name : String}
    (avoids : ∀ member ∈ decl.members, Avoids name (.member member)) :
    ∀ ctor ∈ instanceCtors decl, ∀ stmt ∈ ctor.body, Avoids name (.stmt stmt) := by
  intro ctor found stmt member
  have inMembers := mem_ctors.1 (List.mem_of_mem_filter found)
  refine (avoids _ inMembers).child ?_
  simp [Node.children, Node.parts, Member.parts, Part.stmt, member]

end Members

/-! ## Moving the initializers of a class -/

section Moving

variable {decl : TypeDecl}

/-- The members without initializers, the static ones moved. -/
def emptied (decl : TypeDecl) : List Member :=
  if (initializers decl true).isEmpty then decl.members.map withoutInit
  else prependStatic (initializers decl true) (decl.members.map withoutInit)

/-- The class with its initializers moved. -/
def placed (decl : TypeDecl) : TypeDecl :=
  { decl with members := placeInstance decl (initializers decl false) (emptied decl) }

/-- A class with statements to move gets them moved. -/
theorem decl_eq_placed (isClass : decl.kind = .classType)
    (some : initializers decl false ≠ []) : Constructors.decl decl = .ok (placed decl) := by
  simp [Constructors.decl, isClass, some, placed, emptied]

/-- Taking initializers away keeps the constructors of objects. -/
theorem instanceCtors_withoutInit (decl : TypeDecl) :
    instanceCtors { decl with members := decl.members.map withoutInit } = instanceCtors decl := by
  rw [instanceCtors, ctors_withoutInit, instanceCtors]

/-- Taking initializers away keeps the static constructors. -/
theorem staticCtors_withoutInit (decl : TypeDecl) :
    staticCtors { decl with members := decl.members.map withoutInit } = staticCtors decl := by
  rw [staticCtors, ctors_withoutInit, staticCtors]

/-- Moving static initializers keeps the constructors of objects. -/
theorem instanceCtors_emptied (decl : TypeDecl) :
    instanceCtors { decl with members := emptied decl } = instanceCtors decl := by
  unfold emptied
  split_ifs
  · exact instanceCtors_withoutInit decl
  · rw [instanceCtors_prependStatic, instanceCtors_withoutInit]

/-- The static constructor begins with the static initializers. -/
theorem staticBody_emptied (decl : TypeDecl) :
    staticBody { decl with members := emptied decl } =
      initializers decl true ++ staticBody decl := by
  unfold emptied
  split_ifs with none
  · rw [staticBody, staticCtors_withoutInit, List.isEmpty_iff.1 none]
    rfl
  · rw [staticBody_prependStatic, staticBody, staticCtors_withoutInit, staticBody]

/-- No field is left with an initializer. -/
theorem bare_emptied (decl : TypeDecl) : Bare (emptied decl) := by
  unfold emptied
  split_ifs
  · exact bare_withoutInit decl.members
  · exact (bare_withoutInit decl.members).prependStatic _

/-- The constructor of a class that has none of its own. -/
def initializingCtor (inits : List Stmt) : CtorDecl := ⟨[], none, inits, .none, .unknown⟩

/-- Each constructor of objects is guarded, and a class without one gets one. -/
theorem instanceCtors_placed (decl : TypeDecl) : instanceCtors (placed decl) =
    if instanceCtors decl = [] then [initializingCtor (initializers decl false)]
    else (instanceCtors decl).map (guardCtor decl (initializers decl false)) := by
  have present := any_isInstanceCtor decl (emptied decl)
  rw [instanceCtors_emptied] at present
  unfold placed placeInstance
  split_ifs with some none none
  · exact absurd none (present.1 some)
  · rw [instanceCtors_guarded, instanceCtors_emptied]
  · rw [instanceCtors, ctors_append, List.filter_append, ← instanceCtors, instanceCtors_emptied,
      none]
    rfl
  · exact absurd (present.2 none) some

/-- The static constructor begins with the static initializers, wherever the others go. -/
theorem staticBody_placed (decl : TypeDecl) :
    staticBody (placed decl) = initializers decl true ++ staticBody decl := by
  rw [← staticBody_emptied]
  unfold placed placeInstance
  split_ifs
  · rw [staticBody, staticCtors_guarded, staticBody]
  · rw [staticBody, staticCtors, ctors_append, List.filter_append, ← staticCtors]
    simp [staticBody, Modifiers.none]

/-- No field of the result has an initializer. -/
theorem bare_placed (decl : TypeDecl) : Bare (placed decl).members :=
  (bare_emptied decl).placeInstance decl (initializers decl false)

/-- The constructor checks the guard. -/
def checksGuard (decl : TypeDecl) (ctor : CtorDecl) : Bool :=
  ctor.body.any fun stmt => (guardCheck? decl stmt).isSome

/-- The guard is checked where no other constructor is called. -/
theorem checksGuard_guardCtor {ctor : CtorDecl} {inits : List Stmt}
    (avoids : ∀ stmt ∈ ctor.body, Avoids (guardName decl.name.name) (.stmt stmt)) :
    checksGuard decl (guardCtor decl inits ctor) = !ctor.delegatesToThis := by
  have unguarded : ctor.body.any (fun stmt => (guardCheck? decl stmt).isSome) = false := by
    simp only [List.any_eq_false]
    intro stmt member
    simp [guardCheck?_eq_none (avoids stmt member)]
  cases delegates : ctor.delegatesToThis with
  | true => simp [checksGuard, guardCtor, delegates, unguarded]
  | false => simp [checksGuard, guardCtor, delegates, guardCheck?, guarded]

/-- As many constructors check the guard as do not hand on to another one. -/
theorem countP_checksGuard {ctors : List CtorDecl} {inits : List Stmt}
    (avoids : ∀ ctor ∈ ctors, ∀ stmt ∈ ctor.body,
      Avoids (guardName decl.name.name) (.stmt stmt)) :
    (ctors.map (guardCtor decl inits)).countP (checksGuard decl) =
      ctors.length - ctors.countP CtorDecl.delegatesToThis := by
  have complement : (ctors.map (guardCtor decl inits)).countP (checksGuard decl) =
      ctors.countP fun ctor => !ctor.delegatesToThis := by
    rw [List.countP_map]
    refine List.countP_congr fun ctor member => ?_
    simp [checksGuard_guardCtor (avoids ctor member)]
  have total := List.length_eq_countP_add_countP CtorDecl.delegatesToThis (l := ctors)
  simp only [Bool.not_eq_true, Bool.decide_eq_false] at total
  omega

end Moving

/-! ## Objects of the class -/

/-- What the constructors of a class do after the initializers of its fields have been moved into
them, where `target` says which constructor another one hands on to. -/
structure InitializesOnce {m : Type → Type} [Monad m] (effects : Effects m) (target : Nat → Nat)
    (decl result : TypeDecl) : Prop where
  /-- There is a constructor for each one of the source, and at least one. -/
  ctors : (instanceCtors result).length = max 1 (instanceCtors decl).length
  /-- An object can be made through each of them. -/
  constructs {index : Nat} : index < (instanceCtors result).length →
    ∃ path, Runs (instanceCtors result) target index path
  /-- A new object assigns each initialized field its value once, in the order of declaration. Then
  the bodies of the source run, from the innermost one outward. -/
  once {index : Nat} {path : List CtorDecl} : Runs (instanceCtors result) target index path →
    ∃ original, (Runs (instanceCtors decl) target index original ∨
        instanceCtors decl = [] ∧ original = []) ∧
      construct effects result path = (do
        initializeFields effects decl
        runBodies effects.stmt original)
  /-- The guard is checked in those constructors that do not hand on to another one. -/
  checks : instanceCtors decl ≠ [] →
    (instanceCtors result).countP (checksGuard decl) =
      (instanceCtors decl).length - (instanceCtors decl).countP CtorDecl.delegatesToThis
  /-- No field keeps its initializer. -/
  moved : ∀ field ∈ result.fields, field.init = none
  /-- Static fields are assigned their values in the order of declaration, in front of what the
  static constructor does in the source. -/
  shared : staticBody result =
    ((initialized decl true).map fun (field, value) =>
      .expr (sharedAssignment decl field value)) ++ staticBody decl

section Objects

variable {m : Type → Type} [Monad m] [LawfulMonad m] {effects : Effects m} {decl : TypeDecl}

/-- Once its initializers have been moved, everything is up to the constructors of a class. -/
theorem construct_placed {ctors : List CtorDecl} : construct effects (placed decl) ctors =
    (runBodies (runStmt effects decl) ctors).run' false := by
  have sameSteps : runStmt effects (placed decl) = runStmt effects decl := rfl
  have none : initialized (placed decl) false = [] :=
    (bare_placed decl).initialized_eq_nil (placed decl) false
  simp [construct, sameSteps, initializeFields, none, runBodies]

variable (avoids : ∀ member ∈ decl.members, Avoids (guardName decl.name.name) (.member member))

include avoids

/-- In a class that has constructors, the innermost one that runs initializes the fields. -/
theorem construct_guarded {target : Nat → Nat} {index : Nat} {original : List CtorDecl}
    (runs : Runs (instanceCtors decl) target index original) :
    construct effects (placed decl)
        (original.map (guardCtor decl (initializers decl false))) = (do
      initializeFields effects decl
      runBodies effects.stmt original) := by
  rw [construct_placed, StateT.run'_eq,
    run_runBodies (allExpressions_initializers decl false) (avoids_initializers avoids)
      (avoids_body avoids) runs, runBody_initializers]
  simp

/-- In a class that has none, the one that is added does nothing else. -/
theorem construct_initializing :
    construct effects (placed decl) [initializingCtor (initializers decl false)] =
      initializeFields effects decl := by
  have lifted : runBody (runStmt effects decl) (initializers decl false) =
      liftM (runBody effects.stmt (initializers decl false)) :=
    runBody_lift (avoids_initializers avoids)
  rw [construct_placed, ← runBody_initializers]
  simp [runBodies, initializingCtor, lifted]

end Objects

/-- Every class with initialized fields can have its initializers moved. Its objects then
initialize their fields once, whichever constructors hand on to which. -/
theorem decl_initializes_once {m : Type → Type} [Monad m] [LawfulMonad m] (effects : Effects m)
    {decl : TypeDecl} {target : Nat → Nat} (isClass : decl.kind = .classType)
    (present : ∃ field ∈ decl.fields, field.modifiers.isStatic = false ∧ field.init ≠ none)
    (avoids : ∀ member ∈ decl.members, Avoids (guardName decl.name.name) (.member member))
    (delegation : Delegation (instanceCtors decl) target) :
    ∃ result, Constructors.decl decl = .ok result ∧
      InitializesOnce effects target decl result := by
  refine ⟨placed decl, decl_eq_placed isClass (initializers_ne_nil present), ?_⟩
  have moved : ∀ field ∈ (placed decl).fields, field.init = none := fun field member =>
    (bare_placed decl).init_eq_none (mem_fields.1 member)
  have shared := staticBody_placed decl
  rw [initializers_shared] at shared
  have ctors := instanceCtors_placed decl
  by_cases none : instanceCtors decl = []
  · rw [if_pos none] at ctors
    refine ⟨by simp [ctors, none], fun valid => ?_, fun runs => ?_, absurd none, moved, shared⟩
    · obtain rfl : _ = 0 := by simpa [ctors] using valid
      rw [ctors]
      exact ⟨_, .direct rfl rfl⟩
    · rw [ctors] at runs
      obtain rfl := runs.of_singleton rfl
      refine ⟨[], .inr ⟨none, rfl⟩, ?_⟩
      rw [construct_initializing avoids]
      simp [runBodies]
  · rw [if_neg none] at ctors
    have keeps := delegatesToThis_guardCtor decl (initializers decl false)
    refine ⟨?_, fun valid => ?_, fun runs => ?_, fun _ => ?_, moved, shared⟩
    · rw [ctors, List.length_map, max_eq_right (List.length_pos_iff.2 none)]
    · rw [ctors, List.length_map] at valid
      obtain ⟨path, runs⟩ := delegation.exists_runs valid
      exact ⟨_, ctors ▸ runs.map keeps⟩
    · rw [ctors] at runs
      obtain ⟨original, originalRuns, rfl⟩ := runs.of_map keeps
      exact ⟨original, .inl originalRuns, construct_guarded avoids originalRuns⟩
    · rw [ctors, countP_checksGuard (avoids_body avoids)]

/-! A class with two initialized fields of its objects and a static one between them. Its second
constructor hands on to the first one, and its third one to the second one. -/

namespace Counter

/-- A number. -/
def number (value : Int) : Expr := .literal (Expr.noteOf .int) (.int value)

/-- A call of a function. -/
def call (called : String) : Stmt :=
  .expr (.invoke (Expr.noteOf .void) (.localRef called .void) [] [] none)

/-- A constructor that hands on to another one when `delegates` is set, and calls a function. -/
def ctor (delegates : Bool) (called : String) (rest : List Stmt) : CtorDecl where
  params := []
  chain := if delegates then some ⟨.this, [], none⟩ else none
  body := call called :: rest
  modifiers := .none
  span := .unknown

/-- The field that is declared first. -/
def first : FieldDecl := ⟨.plain "first", .int, some (number 1), .none, [], .unknown⟩

/-- The static field. -/
def total : FieldDecl := ⟨.plain "total", .int, some (number 0), .shared, [], .unknown⟩

/-- The field that is declared behind the static one. -/
def second : FieldDecl := ⟨.plain "second", .int, some (number 2), .none, [], .unknown⟩

/-- The constructor that hands on to no other one. It returns from its body. -/
def opening : CtorDecl := ctor false "open" [.ret none .unknown]

/-- The constructor that hands on to the one before it. -/
def extending : CtorDecl := ctor true "extend" []

/-- The constructor that hands on to one that hands on. -/
def finishing : CtorDecl := ctor true "finish" []

/-- The class. -/
def decl : TypeDecl where
  id := 0
  name := .plain "Counter"
  kind := .classType
  modifiers := .none
  attrs := []
  base := none
  interfaces := []
  members := [.field first, .field total, .ctor opening, .field second, .ctor extending,
    .ctor finishing]
  enumMembers := []
  isScript := false
  span := .unknown

/-- The constructor before each one. -/
def target (index : Nat) : Nat := index - 1

/-- Writes down each statement that runs. -/
def trace : Effects (StateM (List Stmt)) where
  value value := modify (· ++ [.expr value])
  other stmt := do
    modify (· ++ [stmt])
    match stmt with
    | .ret _ _ => return .returned
    | _ => return .next

/-- Each constructor hands on to one before it. -/
theorem delegates_lt {index next : Nat} (step : Delegates (instanceCtors decl) target index next) :
    index < 3 ∧ next < index := by
  obtain ⟨⟨ctor, here, delegates⟩, rfl⟩ := step
  have valid : index < 3 := (List.getElem?_eq_some_iff.1 here).1
  cases index with
  | zero =>
    obtain rfl := Option.some.inj here
    cases delegates
  | succ before => exact ⟨valid, Nat.lt_succ_self before⟩

/-- No constructors hand on in a circle. -/
theorem delegation : Delegation (instanceCtors decl) target where
  valid step := by
    have bounds := delegates_lt step
    change _ < 3
    omega
  acyclic index circle := by
    have descends : ∀ {last}, Relation.TransGen (Delegates (instanceCtors decl) target) index last →
        last < index := by
      intro last steps
      induction steps with
      | single step => exact (delegates_lt step).2
      | tail _ step inductionHypothesis => exact (delegates_lt step).2.trans inductionHypothesis
    exact Nat.lt_irrefl index (descends circle)

/-- The members do not mention the guard. -/
theorem avoids : ∀ member ∈ decl.members,
    Avoids (guardName decl.name.name) (.member member) := by
  intro member found
  refine Everywhere.of_check 10 ?_
  revert member
  decide +kernel

end Counter

/-- What an object of the class does that is made through the last constructor: it assigns its two
fields, and then the bodies run from the first constructor on. -/
theorem decl_initializes_once_counter : ∃ result path,
    Constructors.decl Counter.decl = .ok result ∧
      InitializesOnce Counter.trace Counter.target Counter.decl result ∧
      Runs (instanceCtors result) Counter.target 2 path ∧
      (construct Counter.trace result path).run [] = ((),
        [.expr (ownAssignment Counter.decl Counter.first (Counter.number 1)),
          .expr (ownAssignment Counter.decl Counter.second (Counter.number 2)),
          Counter.call "open", .ret none .unknown, Counter.call "extend",
          Counter.call "finish"]) := by
  have present : ∃ field ∈ Counter.decl.fields,
      field.modifiers.isStatic = false ∧ field.init ≠ none :=
    ⟨Counter.first, List.mem_cons_self, rfl, nofun⟩
  obtain ⟨result, moves, initializes⟩ :=
    decl_initializes_once Counter.trace rfl present Counter.avoids Counter.delegation
  have last : 2 < (instanceCtors result).length := by
    rw [initializes.ctors]
    decide
  obtain ⟨path, runs⟩ := initializes.constructs last
  obtain ⟨original, origin, constructs⟩ := initializes.once runs
  have all : Runs (instanceCtors Counter.decl) Counter.target 2
      [Counter.opening, Counter.extending, Counter.finishing] :=
    .delegated rfl rfl (.delegated rfl rfl (.direct rfl rfl))
  obtain rfl : original = [Counter.opening, Counter.extending, Counter.finishing] := by
    rcases origin with others | ⟨none, -⟩
    · exact others.unique all
    · cases none
  refine ⟨result, path, moves, initializes, runs, ?_⟩
  rw [constructs]
  rfl

end ScriptSharp.Lowering.Constructors
