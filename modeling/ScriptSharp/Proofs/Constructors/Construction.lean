import Mathlib.Data.Fintype.Card
import Mathlib.Data.Fintype.EquivFin
import Mathlib.Logic.Relation
import ScriptSharp.Lowering.Constructors
import ScriptSharp.Proofs.Tree.Names

/-!
# Constructing objects

A new object gets the values of its initialized fields, and then constructors run: one that hands
on to another one of the same class runs after it. `construct` says so for any meaning of the
statements, and `Runs` says which constructors run. When the constructors that do not hand on
start with guarded initializers, the innermost one runs them and the others do not.
-/

namespace ScriptSharp.Lowering.Constructors

open Node

/-! ## Initialized fields -/

/-- The initialized fields with their values, in the order of declaration: the fields of the type
when `isStatic` is set, and those of its objects otherwise. -/
def initialized (decl : TypeDecl) (isStatic : Bool) : List (FieldDecl × Expr) :=
  (decl.fields.filter fun field => field.modifiers.isStatic == isStatic).filterMap fun field =>
    field.init.map fun value => (field, value)

/-- The assignment of a value to a field of the object, `this.f = value`. -/
def ownAssignment (decl : TypeDecl) (field : FieldDecl) (value : Expr) : Expr :=
  .assign ⟨field.ty, field.span⟩ none
    (.member (Expr.noteOf field.ty) (.selfRef (Expr.noteOf decl.selfTy)) field.name
      ⟨decl.id, .field, false, none⟩) value

/-- The assignment of a value to a field of the type, `T.f = value`. -/
def sharedAssignment (decl : TypeDecl) (field : FieldDecl) (value : Expr) : Expr :=
  .assign ⟨field.ty, field.span⟩ none
    (.member (Expr.noteOf field.ty) (.typeRef (Expr.noteOf decl.selfTy) decl.selfTy) field.name
      ⟨decl.id, .field, true, none⟩) value

/-- A field is initialized with a value if it is declared with it. -/
theorem mem_initialized {decl : TypeDecl} {isStatic : Bool} {field : FieldDecl} {value : Expr} :
    (field, value) ∈ initialized decl isStatic ↔
      field ∈ decl.fields ∧ field.modifiers.isStatic = isStatic ∧ field.init = some value := by
  simp only [initialized, List.mem_filterMap, List.mem_filter, beq_iff_eq,
    Option.map_eq_some_iff, Prod.mk.injEq]
  constructor
  · rintro ⟨_, ⟨member, kind⟩, _, present, rfl, rfl⟩
    exact ⟨member, kind, present⟩
  · rintro ⟨member, kind, present⟩
    exact ⟨field, ⟨member, kind⟩, value, present, rfl, rfl⟩

/-- The statements that initialize fields, one for each initialized field. -/
theorem initializers_eq_map (decl : TypeDecl) (isStatic : Bool) : initializers decl isStatic =
    (initialized decl isStatic).map fun (field, value) => initializer decl field value := by
  rw [initializers, initialized, List.map_filterMap, List.filterMap_filter]
  refine List.filterMap_congr fun field _ => ?_
  by_cases kind : field.modifiers.isStatic = isStatic <;> simp [kind, Function.comp_def]

/-- The fields of objects are initialized through `this`. -/
theorem initializers_own (decl : TypeDecl) : initializers decl false =
    (initialized decl false).map fun (field, value) =>
      .expr (ownAssignment decl field value) := by
  rw [initializers_eq_map]
  refine List.map_congr_left fun (field, value) member => ?_
  simp [initializer, (mem_initialized.1 member).2.1, ownAssignment, fieldBinding]

/-- The fields of the type are initialized through its name. -/
theorem initializers_shared (decl : TypeDecl) : initializers decl true =
    (initialized decl true).map fun (field, value) =>
      .expr (sharedAssignment decl field value) := by
  rw [initializers_eq_map]
  refine List.map_congr_left fun (field, value) member => ?_
  simp [initializer, (mem_initialized.1 member).2.1, sharedAssignment, fieldBinding]

/-! ## Running statements -/

/-- How a statement ends when it does not fail. -/
inductive Completion where
  /-- The statement behind it is next. -/
  | next
  /-- The body that it stands in ends. -/
  | returned

/-- What statements do. Failures, and whatever else there is besides the object, are up to the
monad. -/
structure Effects (m : Type → Type) where
  /-- What the evaluation of an expression does. -/
  value : Expr → m Unit
  /-- What a statement does that is no expression. -/
  other : Stmt → m Completion

section Running

variable {m : Type → Type} [Monad m]

/-- Runs statements one after the other, until one ends the body. -/
def runAll (step : Stmt → m Completion) : List Stmt → m Completion
  | [] => pure .next
  | first :: rest => do
    match ← step first with
    | .next => runAll step rest
    | .returned => pure .returned

/-- Runs a body to its end. -/
def runBody (step : Stmt → m Completion) (body : List Stmt) : m Unit := do
  let _ ← runAll step body

/-- What a statement does. An expression never ends the body. -/
def Effects.stmt (effects : Effects m) : Stmt → m Completion
  | .expr value => do
    effects.value value
    return .next
  | other => effects.other other

/-! An object has a guard, which is the state here. The two statements that use it are
recognized; all others have nothing to do with it. -/

/-- The statement runs these statements unless the guard is set. -/
def guardCheck? (decl : TypeDecl) : Stmt → Option (List Stmt)
  | .branch condition thenBody none =>
    if condition = .unary (Expr.noteOf .bool) .not (guardRef decl) then some thenBody else none
  | _ => none

/-- Runs a statement that does not check the guard. -/
def runUnchecked (effects : Effects m) (decl : TypeDecl) (stmt : Stmt) :
    StateT Bool m Completion :=
  if stmt = .expr ((guardRef decl).assignTo (Expr.boolLiteral true)) then do
    set true
    return .next
  else liftM (effects.stmt stmt)

/-- Runs a statement of a constructor. -/
def runStmt (effects : Effects m) (decl : TypeDecl) (stmt : Stmt) : StateT Bool m Completion := do
  match guardCheck? decl stmt with
  | some inits =>
    if ← get then return .next
    else runAll (runUnchecked effects decl) inits
  | none => runUnchecked effects decl stmt

/-- Assigns their values to the fields of an object, in the order of declaration. -/
def initializeFields (effects : Effects m) (decl : TypeDecl) : m Unit :=
  (initialized decl false).forM fun (field, value) =>
    effects.value (ownAssignment decl field value)

/-- Makes a new object: its fields are initialized, and constructors run one after the other. -/
def construct (effects : Effects m) (decl : TypeDecl) (ctors : List CtorDecl) : m Unit :=
  StateT.run' (do
    liftM (initializeFields effects decl)
    ctors.forM fun ctor => runBody (runStmt effects decl) ctor.body) false

/-- Running the statements that initialize the fields of an object assigns their values. -/
theorem runBody_initializers [LawfulMonad m] (effects : Effects m) (decl : TypeDecl) :
    runBody effects.stmt (initializers decl false) = initializeFields effects decl := by
  rw [initializers_own, initializeFields]
  induction initialized decl false with
  | nil => simp [runBody, runAll]
  | cons first rest inductionHypothesis =>
    simp only [runBody, bind_pure_comp] at inductionHypothesis
    simp [runBody, runAll, Effects.stmt, inductionHypothesis]

end Running

/-! ## Constructors that run -/

/-- The constructors of objects, in order. -/
def instanceCtors (decl : TypeDecl) : List CtorDecl :=
  decl.ctors.filter fun ctor => !ctor.modifiers.isStatic

/-- The static constructors, in order. -/
def staticCtors (decl : TypeDecl) : List CtorDecl :=
  decl.ctors.filter fun ctor => ctor.modifiers.isStatic

/-- The body of the static constructor. -/
def staticBody (decl : TypeDecl) : List Stmt :=
  ((staticCtors decl).head?.map (·.body)).getD []

/-- The constructors that run when an object is made through the one at an index, where `target`
says which one a constructor hands on to. -/
inductive Runs (ctors : List CtorDecl) (target : Nat → Nat) : Nat → List CtorDecl → Prop where
  | direct {index : Nat} {ctor : CtorDecl} (here : ctors[index]? = some ctor)
      (alone : ctor.delegatesToThis = false) : Runs ctors target index [ctor]
  | delegated {index : Nat} {ctor : CtorDecl} {inner : List CtorDecl}
      (here : ctors[index]? = some ctor) (delegates : ctor.delegatesToThis = true)
      (first : Runs ctors target (target index) inner) :
      Runs ctors target index (inner ++ [ctor])

/-- The same constructors run whenever an object is made through the same one. -/
theorem Runs.unique {ctors : List CtorDecl} {target : Nat → Nat} {index : Nat}
    {path other : List CtorDecl} (runs : Runs ctors target index path)
    (runsOther : Runs ctors target index other) : path = other := by
  induction runs generalizing other with
  | direct here alone =>
    cases runsOther with
    | direct hereToo _ => rw [Option.some.inj (here.symm.trans hereToo)]
    | delegated hereToo delegates _ =>
      obtain rfl := Option.some.inj (here.symm.trans hereToo)
      cases alone.symm.trans delegates
  | delegated here delegates _ inductionHypothesis =>
    cases runsOther with
    | direct hereToo alone =>
      obtain rfl := Option.some.inj (here.symm.trans hereToo)
      cases alone.symm.trans delegates
    | delegated hereToo _ inner =>
      rw [Option.some.inj (here.symm.trans hereToo), inductionHypothesis inner]

/-- The constructor at the first index hands on to the one at the second index. -/
def Delegates (ctors : List CtorDecl) (target : Nat → Nat) (index next : Nat) : Prop :=
  (∃ ctor, ctors[index]? = some ctor ∧ ctor.delegatesToThis = true) ∧ next = target index

/-- Every constructor that hands on does so to another one, and never in a circle. -/
structure Delegation (ctors : List CtorDecl) (target : Nat → Nat) : Prop where
  valid {index next : Nat} : Delegates ctors target index next → next < ctors.length
  acyclic (index : Nat) : ¬ Relation.TransGen (Delegates ctors target) index index

/-! ## Statements without the guard -/

section Plain

variable {m : Type → Type} [Monad m] {effects : Effects m} {decl : TypeDecl} {stmt : Stmt}

/-- The guard is mentioned where it is used. -/
theorem guardRef_mentions (decl : TypeDecl) :
    ¬ Avoids (guardName decl.name.name) (.expr (guardRef decl)) := fun avoids =>
  avoids.ident List.mem_cons_self rfl

/-- A statement that does not mention the guard does not check it. -/
theorem guardCheck?_eq_none (avoids : Avoids (guardName decl.name.name) (.stmt stmt)) :
    guardCheck? decl stmt = none := by
  unfold guardCheck?
  split
  · split_ifs with same
    · subst same
      exact (guardRef_mentions decl
        ((avoids.child List.mem_cons_self).child List.mem_cons_self)).elim
    · rfl
  · rfl

/-- A statement that does not mention the guard does not set it. -/
theorem runUnchecked_eq (avoids : Avoids (guardName decl.name.name) (.stmt stmt)) :
    runUnchecked effects decl stmt = liftM (effects.stmt stmt) := by
  rw [runUnchecked, if_neg]
  rintro rfl
  exact guardRef_mentions decl ((avoids.child List.mem_cons_self).child List.mem_cons_self)

/-- A statement that does not mention the guard runs as it does without one. -/
theorem runStmt_eq (avoids : Avoids (guardName decl.name.name) (.stmt stmt)) :
    runStmt effects decl stmt = liftM (effects.stmt stmt) := by
  simp only [runStmt, guardCheck?_eq_none avoids, runUnchecked_eq avoids]

variable [LawfulMonad m]

/-- Statements that do not use the guard run as they do without one. -/
theorem runAll_lift {step : Stmt → StateT Bool m Completion} {stmts : List Stmt}
    (lifts : ∀ stmt ∈ stmts, step stmt = liftM (effects.stmt stmt)) :
    runAll step stmts = liftM (runAll effects.stmt stmts) := by
  induction stmts with
  | nil => simp [runAll]
  | cons first rest inductionHypothesis =>
    obtain ⟨here, later⟩ := List.forall_mem_cons.1 lifts
    simp only [runAll, here, inductionHypothesis later, liftM_bind]
    refine bind_congr fun completion => ?_
    cases completion with
    | next => rfl
    | returned => simp

end Plain

/-! ## The guard -/

section Guard

variable {m : Type → Type} [Monad m] [LawfulMonad m] {effects : Effects m} {decl : TypeDecl}

/-- No statement of these ends the body. -/
def AllExpressions (stmts : List Stmt) : Prop :=
  ∀ stmt ∈ stmts, ∃ value, stmt = .expr value

/-- Expressions that do not use the guard run before it is set. -/
theorem run_runAll_unchecked {inits : List Stmt} (exprs : AllExpressions inits)
    (avoids : ∀ stmt ∈ inits, Avoids (guardName decl.name.name) (.stmt stmt)) :
    (runAll (runUnchecked effects decl)
      (inits ++ [.expr ((guardRef decl).assignTo (Expr.boolLiteral true))])).run false =
      (do runBody effects.stmt inits; return (.next, true)) := by
  induction inits with
  | nil => simp [runAll, runBody, runUnchecked]
  | cons first others inductionHypothesis =>
    obtain ⟨⟨value, rfl⟩, laterExprs⟩ := List.forall_mem_cons.1 exprs
    obtain ⟨here, later⟩ := List.forall_mem_cons.1 avoids
    simp only [List.cons_append, runAll, runUnchecked_eq here, StateT.run_bind]
    simp [Effects.stmt, runBody, runAll, inductionHypothesis laterExprs later]

/-- An unset guard lets the initializers run and gets set. -/
theorem run_guarded {inits : List Stmt} (exprs : AllExpressions inits)
    (avoids : ∀ stmt ∈ inits, Avoids (guardName decl.name.name) (.stmt stmt)) :
    (runStmt effects decl (guarded decl inits)).run false =
      (do runBody effects.stmt inits; return (.next, true)) := by
  have check : guardCheck? decl (guarded decl inits) =
      some (inits ++ [.expr ((guardRef decl).assignTo (Expr.boolLiteral true))]) := by
    simp [guardCheck?, guarded]
  simp [runStmt, check, run_runAll_unchecked exprs avoids]

/-- A constructor whose body starts with the guarded initializers, unless it hands on to another
one. -/
def guardCtor (decl : TypeDecl) (inits : List Stmt) (ctor : CtorDecl) : CtorDecl :=
  if ctor.delegatesToThis then ctor else { ctor with body := guarded decl inits :: ctor.body }

/-- A guarded constructor hands on to the same one. -/
theorem delegatesToThis_guardCtor (decl : TypeDecl) (inits : List Stmt) (ctor : CtorDecl) :
    (guardCtor decl inits ctor).delegatesToThis = ctor.delegatesToThis := by
  unfold guardCtor
  split_ifs <;> rfl

/-- Runs the bodies of constructors, one after the other. -/
def runBodies (step : Stmt → m Completion) (ctors : List CtorDecl) : m Unit :=
  ctors.forM fun ctor => runBody step ctor.body

/-- The last constructor runs behind the others. -/
theorem runBodies_append (step : Stmt → m Completion) (inner : List CtorDecl)
    (ctor : CtorDecl) :
    runBodies step (inner ++ [ctor]) = (do runBodies step inner; runBody step ctor.body) := by
  simp [runBodies]

/-- A body that does not mention the guard runs as it does without one. -/
theorem runBody_lift {body : List Stmt}
    (avoids : ∀ stmt ∈ body, Avoids (guardName decl.name.name) (.stmt stmt)) :
    runBody (runStmt effects decl) body = liftM (runBody effects.stmt body) := by
  rw [runBody, runAll_lift fun stmt member => runStmt_eq (avoids stmt member)]
  simp [runBody]

/-- The constructors that run for an object: the innermost one initializes the fields. -/
theorem run_runBodies {ctors path : List CtorDecl} {target : Nat → Nat} {index : Nat}
    {inits : List Stmt} (exprs : AllExpressions inits)
    (initsAvoid : ∀ stmt ∈ inits, Avoids (guardName decl.name.name) (.stmt stmt))
    (avoids : ∀ ctor ∈ ctors, ∀ stmt ∈ ctor.body, Avoids (guardName decl.name.name) (.stmt stmt))
    (runs : Runs ctors target index path) :
    (runBodies (runStmt effects decl) (path.map (guardCtor decl inits))).run false =
      (do
        runBody effects.stmt inits
        runBodies effects.stmt path
        return ((), true)) := by
  induction runs with
  | @direct _ ctor here alone =>
    have bodyAvoids := avoids ctor (List.mem_of_getElem? here)
    have lifted : runAll (runStmt effects decl) ctor.body =
        liftM (runAll effects.stmt ctor.body) :=
      runAll_lift fun stmt member => runStmt_eq (bodyAvoids stmt member)
    simp only [runBodies, List.map_cons, List.map_nil, guardCtor, alone, Bool.false_eq_true,
      if_false]
    simp [runBody, runAll, run_guarded exprs initsAvoid, lifted]
  | @delegated _ ctor inner here delegates _ inductionHypothesis =>
    have lifted : runBody (runStmt effects decl) ctor.body =
        liftM (runBody effects.stmt ctor.body) :=
      runBody_lift (avoids ctor (List.mem_of_getElem? here))
    have kept : guardCtor decl inits ctor = ctor := by rw [guardCtor, if_pos delegates]
    rw [List.map_append, List.map_singleton, runBodies_append, runBodies_append, kept, lifted,
      StateT.run_bind, inductionHypothesis]
    simp

end Guard

/-! ## Constructors after a change that keeps the delegation -/

section Delegation

variable {ctors path : List CtorDecl} {target : Nat → Nat} {index : Nat}
  {change : CtorDecl → CtorDecl}

/-- Constructors that run after a change come from constructors that run before it. -/
theorem Runs.of_map (keeps : ∀ ctor, (change ctor).delegatesToThis = ctor.delegatesToThis)
    (runs : Runs (ctors.map change) target index path) :
    ∃ original, Runs ctors target index original ∧ path = original.map change := by
  induction runs with
  | direct here alone =>
    obtain ⟨ctor, found, rfl⟩ := Option.map_eq_some_iff.1 (List.getElem?_map ▸ here)
    exact ⟨[ctor], .direct found (keeps ctor ▸ alone), rfl⟩
  | delegated here delegates _ inductionHypothesis =>
    obtain ⟨ctor, found, rfl⟩ := Option.map_eq_some_iff.1 (List.getElem?_map ▸ here)
    obtain ⟨original, runs, rfl⟩ := inductionHypothesis
    exact ⟨original ++ [ctor], .delegated found (keeps ctor ▸ delegates) runs, by simp⟩

/-- Constructors that run before a change run after it. -/
theorem Runs.map (keeps : ∀ ctor, (change ctor).delegatesToThis = ctor.delegatesToThis)
    (runs : Runs ctors target index path) :
    Runs (ctors.map change) target index (path.map change) := by
  induction runs with
  | direct here alone => exact .direct (by simp [here]) (by rw [keeps, alone])
  | delegated here delegates _ inductionHypothesis =>
    rw [List.map_append]
    exact .delegated (by simp [here]) (by rw [keeps, delegates]) inductionHypothesis

/-- A single constructor that does not hand on runs alone. -/
theorem Runs.of_singleton {ctor : CtorDecl} (alone : ctor.delegatesToThis = false)
    (runs : Runs [ctor] target index path) : path = [ctor] := by
  cases runs with
  | direct here _ => rw [List.mem_singleton.1 (List.mem_of_getElem? here)]
  | delegated here delegates _ =>
    rw [List.mem_singleton.1 (List.mem_of_getElem? here), alone] at delegates
    cases delegates

/-- Where no constructors hand on in a circle, an object can be made through each of them. -/
theorem Delegation.exists_runs (delegation : Delegation ctors target)
    (valid : index < ctors.length) : ∃ path, Runs ctors target index path := by
  let After (next index : Fin ctors.length) : Prop :=
    Relation.TransGen (Delegates ctors target) index next
  have : IsTrans (Fin ctors.length) After := ⟨fun _ _ _ first second => second.trans first⟩
  have : Std.Irrefl After := ⟨fun index => delegation.acyclic index⟩
  have wellFounded : WellFounded After := Finite.wellFounded_of_trans_of_irrefl After
  suffices runs : ∀ index : Fin ctors.length, ∃ path, Runs ctors target index path from
    runs ⟨index, valid⟩
  intro index
  induction index using wellFounded.induction with
  | h index inductionHypothesis =>
    have here : ctors[index.val]? = some ctors[index] := by simp
    cases delegates : ctors[index].delegatesToThis with
    | false => exact ⟨_, .direct here delegates⟩
    | true =>
      have step : Delegates ctors target index (target index) := ⟨⟨_, here, delegates⟩, rfl⟩
      obtain ⟨inner, runs⟩ :=
        inductionHypothesis ⟨target index, delegation.valid step⟩ (.single step)
      exact ⟨_, .delegated here delegates runs⟩

end Delegation

end ScriptSharp.Lowering.Constructors
