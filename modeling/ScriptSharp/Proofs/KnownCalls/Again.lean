import Mathlib.Data.Option.Basic
import ScriptSharp.Lowering.KnownCalls
import ScriptSharp.Proofs.Tree.Passing

/-!
# Narrowing twice

A second run over the result of narrowing changes nothing. A cast that the first run put in is one
of two things for the second run: the cast that its call needs, or a cast around a call that needs
none, because the call has the type of its signature now. A cast that stood there before is found
again, because the walk keeps whatever decides about a call.
-/

namespace ScriptSharp.Lowering.KnownCalls

open Outcome

variable {context : Context} {usage : Usage}

/-! ## What the walk makes of one expression -/

/-- What narrowing makes of an expression whose result is used like this. -/
def narrowed (context : Context) (usage : Usage) (expr : Expr) : Expr :=
  ((traversal context).expr usage expr).run

/-- Narrowing goes through a list of expressions. -/
theorem exprs_eq_map (exprs : List Expr) : ((traversal context).exprs usage exprs).run =
    exprs.map (narrowed context usage) := by
  induction exprs with
  | nil => rfl
  | cons first rest inductionHypothesis =>
    rw [List.map_cons, ← inductionHypothesis]
    rfl

/-- A call is narrowed around its narrowed parts. -/
theorem narrowed_invoke (note : Note) (callee : Expr) (typeArgs : List Ty) (args : List Expr)
    (signature : Option Signature) :
    narrowed context usage (.invoke note callee typeArgs args signature) =
      leave context usage (.invoke note (narrowed context .value callee) typeArgs
        (args.map (narrowed context .value)) signature) := by
  rw [← exprs_eq_map]
  cases usage <;> rfl

/-- How the operand of a cast is used. -/
def operandUsage (context : Context) (operand : Expr) (target : Ty) : Usage :=
  if castTarget? context operand.stripParens = some target then .settled else .value

/-- The operand of a cast is used as the cast asks for it. -/
theorem enter_cast (note : Note) (operand : Expr) (target : Ty) (synthesized : Bool) :
    enter context .value (.cast note operand target synthesized) =
      some ⟨.value, operandUsage context operand target⟩ := by
  rw [enter, operandUsage]
  split <;> rfl

/-- A cast stays around its narrowed operand. -/
theorem narrowed_cast (context : Context) (note : Note) (operand : Expr) (target : Ty)
    (synthesized : Bool) :
    narrowed context .value (.cast note operand target synthesized) =
      .cast note (narrowed context (operandUsage context operand target) operand) target
        synthesized := by
  rw [narrowed, Traversal.expr_eq_around, Traversal.around]
  simp only [traversal, DeclTraversal.ofTraversal, enter_cast]
  rfl

/-- A needed cast goes around the whole call. -/
theorem narrowed_invoke_cases (context : Context) (note : Note) (callee : Expr)
    (typeArgs : List Ty) (args : List Expr) (signature : Option Signature) :
    let call := Expr.invoke note (narrowed context .value callee) typeArgs
      (args.map (narrowed context .value)) signature
    castTarget? context call = none ∧
        narrowed context .value (.invoke note callee typeArgs args signature) = call ∨
      ∃ required, castTarget? context call = some required ∧
        narrowed context .value (.invoke note callee typeArgs args signature) =
          (withDeclaredType call).castTo required := by
  rw [narrowed_invoke, leave]
  split
  case h_1 required needed => exact .inr ⟨required, needed, rfl⟩
  case h_2 settled => exact .inl ⟨settled, rfl⟩

/-- Parentheses stay, or vanish together with those below them. -/
theorem stripParens_narrowed (usage : Usage) (expr : Expr) :
    (narrowed context usage expr).stripParens = narrowed context usage expr.stripParens := by
  induction expr using Expr.stripParens.induct with
  | case1 note inner inductionHypothesis =>
    cases usage with
    | settled => exact inductionHypothesis
    | value => exact inductionHypothesis
  | case2 expr bare =>
    cases expr
    case paren note inner => exact absurd rfl (bare note inner)
    case invoke note callee typeArgs args signature =>
      cases usage with
      | settled => rfl
      | value =>
        rcases narrowed_invoke_cases context note callee typeArgs args signature with
          ⟨-, same⟩ | ⟨required, -, same⟩
        · exact (congrArg Expr.stripParens same).trans same.symm
        · exact (congrArg Expr.stripParens same).trans same.symm
    case cast note operand target synthesized =>
      cases usage with
      | settled => rfl
      | value =>
        have same := narrowed_cast context note operand target synthesized
        exact (congrArg Expr.stripParens same).trans same.symm
    all_goals cases usage <;> rfl

/-- What is left without parentheses is not in parentheses. -/
theorem stripParens_ne_paren (expr : Expr) (note : Note) (inner : Expr) :
    expr.stripParens ≠ .paren note inner := by
  fun_induction Expr.stripParens expr with
  | case1 _ _ inductionHypothesis => exact inductionHypothesis
  | case2 expr bare => exact bare note inner

/-! ## What decides about a call -/

/-- The walk keeps the member that a call names. -/
theorem calledMember?_narrowed (callee : Expr) :
    calledMember? (narrowed context .value callee) = calledMember? callee := by
  rw [calledMember?, calledMember?, stripParens_narrowed]
  cases callee.stripParens
  case invoke note callee typeArgs args signature =>
    rcases narrowed_invoke_cases context note callee typeArgs args signature with
      ⟨-, same⟩ | ⟨required, -, same⟩ <;> exact same ▸ rfl
  case cast note operand target synthesized =>
    rw [narrowed_cast]
  all_goals rfl

/-- The walk keeps the type that an argument names. -/
theorem namedType?_narrowed (arg : Expr) :
    namedType? context.types (narrowed context .value arg) = namedType? context.types arg := by
  rw [namedType?, namedType?, stripParens_narrowed]
  cases arg.stripParens
  case invoke note callee typeArgs args signature =>
    rcases narrowed_invoke_cases context note callee typeArgs args signature with
      ⟨-, same⟩ | ⟨required, -, same⟩ <;> exact same ▸ rfl
  case cast note operand target synthesized =>
    rw [narrowed_cast]
  all_goals rfl

/-- A call needs a cast when it is known, names a type or is noted with one that its signature does
not declare, and that type is more than an object. -/
theorem castTarget?_eq_some {note : Note} {callee : Expr} {typeArgs : List Ty} {args : List Expr}
    {signature : Option Signature} {required : Ty} :
    castTarget? context (.invoke note callee typeArgs args signature) = some required ↔
      ∃ binding name api, calledMember? callee = some (binding, name) ∧
        (binding.kind = .method ∧ typeArgs = []) ∧
        KnownApi.lookup? context.knownApis context.types binding.declaring name = some api ∧
        (args[api.typeArgument]?.bind (namedType? context.types)).or
          (if signature.map (·.ret) = some note.ty then none else some note.ty) = some required ∧
        (signature.map (·.ret) ≠ some required ∧ !required.isObject ∧ !required.isVoid) := by
  constructor
  · intro needed
    obtain ⟨⟨binding, name⟩, called, needed⟩ := Option.bind_eq_some_iff.1 needed
    obtain ⟨_, method, needed⟩ := Option.bind_eq_some_iff.1 needed
    obtain ⟨api, known, needed⟩ := Option.bind_eq_some_iff.1 needed
    obtain ⟨chosen, isChosen, needed⟩ := Option.bind_eq_some_iff.1 needed
    obtain ⟨_, unlike, same⟩ := Option.bind_eq_some_iff.1 needed
    obtain rfl := Option.some.inj same
    exact ⟨binding, name, api, called, (Option.guard_eq_some' _).1 method, known, isChosen,
      (Option.guard_eq_some' _).1 unlike⟩
  · rintro ⟨binding, name, api, called, method, known, isChosen, unlike⟩
    refine Option.bind_eq_some_iff.2 ⟨(binding, name), called, ?_⟩
    refine Option.bind_eq_some_iff.2 ⟨(), (Option.guard_eq_some' _).2 method, ?_⟩
    refine Option.bind_eq_some_iff.2 ⟨api, known, ?_⟩
    refine Option.bind_eq_some_iff.2 ⟨required, isChosen, ?_⟩
    exact Option.bind_eq_some_iff.2 ⟨(), (Option.guard_eq_some' _).2 unlike, rfl⟩

/-- A call needs the same cast before and after its parts are done. -/
theorem castTarget?_parts (note : Note) (callee : Expr) (typeArgs : List Ty) (args : List Expr)
    (signature : Option Signature) :
    castTarget? context (.invoke note (narrowed context .value callee) typeArgs
      (args.map (narrowed context .value)) signature) =
      castTarget? context (.invoke note callee typeArgs args signature) := by
  have sameArg (place : Nat) : (args.map (narrowed context .value))[place]?.bind
      (namedType? context.types) = args[place]?.bind (namedType? context.types) := by
    rw [List.getElem?_map]
    cases args[place]? with
    | none => rfl
    | some arg => exact namedType?_narrowed arg
  refine Option.ext fun required => ?_
  simp only [castTarget?_eq_some, calledMember?_narrowed, sameArg]

/-- A call that has its cast, or is dropped, needs the same cast as before. -/
theorem castTarget?_settled (operand : Expr) :
    castTarget? context (narrowed context .settled operand).stripParens =
      castTarget? context operand.stripParens := by
  rw [stripParens_narrowed]
  have bare := stripParens_ne_paren operand
  cases same : operand.stripParens
  case paren note inner => exact absurd same (bare note inner)
  case invoke note callee typeArgs args signature =>
    rw [narrowed_invoke]
    exact castTarget?_parts note callee typeArgs args signature
  all_goals rfl

/-- After the walk no value is a call that needs a cast. -/
theorem castTarget?_value (expr : Expr) :
    castTarget? context (narrowed context .value expr).stripParens = none := by
  rw [stripParens_narrowed]
  cases expr.stripParens
  case invoke note callee typeArgs args signature =>
    rcases narrowed_invoke_cases context note callee typeArgs args signature with
      ⟨accepted, same⟩ | ⟨required, -, same⟩
    · rw [same, accepted]
    · rw [same]
      rfl
  case cast note operand target synthesized =>
    rw [narrowed_cast]
    rfl
  all_goals rfl

/-- A call whose type is that of its signature needs the cast that it got, or none. -/
theorem castTarget?_withDeclaredType {call : Expr} {required : Ty}
    (needed : castTarget? context call = some required) :
    castTarget? context (withDeclaredType call) = some required ∨
      castTarget? context (withDeclaredType call) = none := by
  cases call
  case invoke note callee typeArgs args signature =>
    cases signature with
    | none => exact .inl needed
    | some signature =>
      rw [withDeclaredType]
      by_cases again : castTarget? context
          (.invoke { note with ty := signature.ret } callee typeArgs args (some signature)) = none
      · exact .inr again
      · obtain ⟨second, isSecond⟩ := Option.ne_none_iff_exists'.1 again
        refine .inl (isSecond.trans (congrArg some ?_))
        -- The second time the type is named by an argument, which decides alone.
        obtain ⟨binding, name, api, called, -, known, named, -⟩ := castTarget?_eq_some.1 isSecond
        obtain ⟨_, _, _, calledToo, -, knownToo, chosen, -⟩ := castTarget?_eq_some.1 needed
        obtain ⟨rfl, rfl⟩ := Prod.mk.inj (Option.some.inj (called.symm.trans calledToo))
        obtain rfl := Option.some.inj (known.symm.trans knownToo)
        simp only [Option.map_some, if_true, Option.or_none] at named
        rw [named, Option.some_or] at chosen
        exact Option.some.inj chosen
  all_goals exact .inl needed

/-! ## The second run -/

/-- An expression statement stays a call if it is one. -/
theorem isInvoke_narrowed (expr : Expr) :
    (narrowed context (enterStmt (.expr expr)) expr).isInvoke = expr.isInvoke := by
  have bare := stripParens_ne_paren expr
  rw [enterStmt, Expr.isInvoke, Expr.isInvoke, stripParens_narrowed]
  cases same : expr.stripParens
  case paren note inner => exact absurd same (bare note inner)
  case invoke => rfl
  case cast note operand target synthesized =>
    simp only [Bool.false_eq_true, if_false, narrowed_cast]
  all_goals rfl

/-- A statement uses its expression in the same way before and after the walk. -/
theorem enterStmt_narrowed (expr : Expr) :
    enterStmt (.expr (narrowed context (enterStmt (.expr expr)) expr)) =
      enterStmt (.expr expr) := by
  rw [enterStmt, isInvoke_narrowed, enterStmt]

/-- A narrowed operand is used like the one before it. -/
theorem operandUsage_narrowed (operand : Expr) (target : Ty) :
    operandUsage context (narrowed context (operandUsage context operand target) operand) target =
      operandUsage context operand target := by
  by_cases settles : castTarget? context operand.stripParens = some target
  · have used : operandUsage context operand target = .settled := if_pos settles
    rw [used, operandUsage, castTarget?_settled, if_pos settles]
  · have used : operandUsage context operand target = .value := if_neg settles
    rw [used, operandUsage, castTarget?_value, if_neg (Option.some_ne_none target).symm]

/-- Only calls are narrowed. -/
theorem exists_invoke_of_castTarget? {expr : Expr} {required : Ty}
    (needed : castTarget? context expr = some required) :
    ∃ note callee typeArgs args signature, expr = .invoke note callee typeArgs args signature ∧
      ∃ declared, withDeclaredType expr = .invoke declared callee typeArgs args signature := by
  cases expr
  case invoke note callee typeArgs args signature =>
    refine ⟨note, callee, typeArgs, args, signature, rfl, ?_⟩
    cases signature <;> exact ⟨_, rfl⟩
  all_goals cases needed

/-- A call whose parts stay as they are stays under the cast that it got. -/
theorem narrowed_castTo {note : Note} {callee : Expr} {typeArgs : List Ty} {args : List Expr}
    {signature : Option Signature} {required : Ty}
    (calleeStays : narrowed context .value callee = callee)
    (argsStay : args.map (narrowed context .value) = args)
    (needed : castTarget? context (.invoke note callee typeArgs args signature) = some required ∨
      castTarget? context (.invoke note callee typeArgs args signature) = none) :
    narrowed context .value ((Expr.invoke note callee typeArgs args signature).castTo required) =
      (Expr.invoke note callee typeArgs args signature).castTo required := by
  rw [Expr.castTo, narrowed_cast, narrowed_invoke, calleeStays, argsStay, operandUsage,
    Expr.stripParens]
  · rcases needed with needed | accepted
    · rw [if_pos needed]
      rfl
    · rw [accepted, if_neg (Option.some_ne_none required).symm, leave, accepted]
  · rintro _ _ ⟨⟩

/-- The walk gives the narrowed expression. -/
theorem gives_narrowed {expr result : Expr} :
    Gives ((traversal context).node usage (.expr expr)) (.expr result) ↔
      narrowed context usage expr = result := by
  simp only [DeclTraversal.node, gives_bind, gives_pure, Node.expr.injEq, exists_eq_right']
  rfl

/-- Entering asks for the operand of a cast, and for nothing else inside an expression. -/
theorem enter_shell {expr : Expr}
    (bare : ∀ note operand target synthesized, expr ≠ .cast note operand target synthesized) :
    enter context usage expr = enter context usage expr.shell := by
  cases expr
  case cast note operand target synthesized => exact absurd rfl (bare _ _ _ _)
  all_goals cases usage <;> rfl

/-- An expression with the shell of a cast is one. -/
theorem exists_cast_of_shell {expr : Expr} {note : Note} {operand : Expr} {target : Ty}
    {synthesized : Bool} (shell : (Expr.cast note operand target synthesized).shell = expr.shell) :
    ∃ other, expr = .cast note other target synthesized := by
  cases expr <;> simp only [Expr.shell, reduceCtorEq, Expr.cast.injEq] at shell
  obtain ⟨rfl, -, rfl, rfl⟩ := shell
  exact ⟨_, rfl⟩

/-- An expression is entered in the same way before and after the walk. -/
theorem enter_again {expr rebuilt : Expr} {below : Descent Usage}
    (entered : enter context usage expr = some below)
    (matched : Node.Matches ((traversal context).Replaces below.carried) (.expr expr)
      (.expr rebuilt)) :
    enter context usage rebuilt = some below := by
  have shell := Node.expr.inj matched.shell
  by_cases bare : ∀ note operand target synthesized, expr ≠ .cast note operand target synthesized
  · have bareResult : ∀ note operand target synthesized,
        rebuilt ≠ .cast note operand target synthesized := by
      rintro note operand target synthesized rfl
      obtain ⟨other, rfl⟩ := exists_cast_of_shell shell.symm
      exact bare _ _ _ _ rfl
    rw [enter_shell bareResult, ← shell, ← enter_shell bare, entered]
  · simp only [ne_eq, not_forall, not_not] at bare
    obtain ⟨note, operand, target, synthesized, rfl⟩ := bare
    obtain ⟨other, rfl⟩ := exists_cast_of_shell shell
    cases usage with
    | settled => exact entered
    | value =>
      rw [enter_cast] at entered ⊢
      obtain rfl := Option.some.inj entered
      obtain ⟨-, replaced⟩ := (List.forall₂_cons.1 matched.parts).1
      have same := gives_narrowed.1 replaced
      rw [← same]
      exact congrArg (fun used => some (Descent.mk .value used))
        (operandUsage_narrowed operand target)

/-- A statement uses its expressions in the same way before and after the walk. -/
theorem enterStmt_again {stmt rebuilt : Stmt}
    (matched : Node.Matches
      ((traversal context).Replaces ((traversal context).carriedStmt usage stmt)) (.stmt stmt)
      (.stmt rebuilt)) : enterStmt rebuilt = enterStmt stmt := by
  have shell := Node.stmt.inj matched.shell
  cases stmt <;> cases rebuilt <;> simp only [Stmt.shell, reduceCtorEq] at shell
  case expr.expr value other =>
    obtain ⟨-, replaced⟩ := (List.forall₂_cons.1 matched.parts).1
    rw [← gives_narrowed.1 replaced]
    exact enterStmt_narrowed value
  all_goals rfl

/-- The parts of a node are walked in the same way before and after the walk. -/
theorem entered_again {node rebuilt : Node} {carried : Slot → Usage}
    (entered : Gives ((traversal context).enterNode usage node) (some carried))
    (matched : Node.Matches ((traversal context).Replaces carried) node rebuilt) :
    Gives ((traversal context).enterNode usage rebuilt) (some carried) := by
  have shell := matched.shell
  cases node <;> cases rebuilt <;> simp only [Node.shell, reduceCtorEq] at shell
  case expr.expr expr rebuilt =>
    obtain ⟨below, enteredExpr, rfl⟩ := Option.map_eq_some_iff.1 entered
    exact congrArg (Option.map Descent.carried) (enter_again enteredExpr matched)
  case stmt.stmt stmt rebuilt =>
    obtain rfl := Option.some.inj entered
    refine congrArg some ?_
    funext slot
    cases slot with
    | nested => rfl
    | target | value => exact enterStmt_again matched
  all_goals exact entered

/-- Leaving an expression keeps it, leaves what is in parentheses, or puts a cast around it. -/
theorem leave_cases (usage : Usage) (expr : Expr) : leave context usage expr = expr ∨
    usage = .settled ∧ (∃ note, expr = .paren note (leave context usage expr)) ∨
    usage = .value ∧ ∃ required, castTarget? context expr = some required ∧
      leave context usage expr = (withDeclaredType expr).castTo required := by
  cases usage with
  | settled =>
    cases expr
    case paren note inner => exact .inr (.inl ⟨rfl, note, rfl⟩)
    all_goals exact .inl rfl
  | value =>
    rw [leave]
    split
    case h_1 required needed => exact .inr (.inr ⟨rfl, required, needed, rfl⟩)
    case h_2 => exact .inl rfl

/-- Narrowing goes below every node. -/
theorem thorough (context : Context) : (traversal context).Thorough := by
  refine DeclTraversal.thorough_of_enter fun usage expr skipped => ?_
  replace skipped : enter context usage expr = none := skipped
  cases usage <;> cases expr
  case value.cast note operand target synthesized =>
    rw [enter_cast] at skipped
    cases skipped
  all_goals cases skipped

/-- A call whose parts stay gets a cast that stays. -/
theorem walk_cast {expr : Expr} {carried : Slot → Usage} {required : Ty}
    (entered : Gives ((traversal context).enterNode .value (.expr expr)) (some carried))
    (keeps : (traversal context).Keeps carried expr.parts)
    (needed : castTarget? context expr = some required) :
    narrowed context .value ((withDeclaredType expr).castTo required) =
      (withDeclaredType expr).castTo required := by
  have declared := castTarget?_withDeclaredType needed
  obtain ⟨note, callee, typeArgs, args, signature, rfl, declaredNote, same⟩ :=
    exists_invoke_of_castTarget? needed
  obtain rfl := Option.some.inj entered
  obtain ⟨calleeStays, argsStay⟩ := DeclTraversal.keeps_cons.1 keeps
  rw [same] at declared ⊢
  refine narrowed_castTo (gives_narrowed.1 calleeStays) ?_ declared
  rw [← exprs_eq_map]
  exact DeclTraversal.keeps_values.1 argsStay

/-- What the walk of a node gave is left as it is by another walk. -/
theorem walk_again (node : Node) {result : Node}
    (walked : Gives ((traversal context).node usage node) result) :
    Gives ((traversal context).node usage result) result := by
  induction node using Node.induct generalizing usage result with
  | step node inductionHypothesis =>
    rcases DeclTraversal.node_matches walked with
      ⟨skipped, -⟩ | ⟨carried, rebuilt, entered, matched, left⟩
    · exact absurd skipped (thorough context usage node)
    · have keeps : (traversal context).Keeps carried rebuilt.parts := by
        intro part member
        obtain ⟨origin, originOf, sameSlot, replaced⟩ := exists_related matched.parts member
        rw [← sameSlot]
        exact inductionHypothesis origin.2 (List.mem_map_of_mem originOf) replaced
      have again := entered_again entered matched
      cases rebuilt with
      | expr root =>
        obtain rfl : Node.expr (leave context usage root) = result := left
        rcases leave_cases usage root with same | ⟨rfl, note, paren⟩ | ⟨rfl, required, needed, cast⟩
        · rw [same]
          exact DeclTraversal.node_keeps again keeps (congrArg Node.expr same)
        · -- The parentheses are gone, and what stood in them stays.
          generalize leave context .settled root = inner at paren ⊢
          subst paren
          obtain rfl := Option.some.inj again
          exact (DeclTraversal.keeps_cons.1 keeps).1
        · rw [cast]
          exact gives_narrowed.2 (walk_cast again keeps needed)
      | stmt root | attr root | member root | decl root | unit root =>
        obtain rfl := left
        exact DeclTraversal.node_keeps again keeps rfl

/-! ## Units -/

/-- Narrowing the results of the known calls of a unit a second time changes nothing. -/
theorem unit_narrowed_again (context : Context) (source : SourceUnit) :
    unit context (unit context source) = unit context source := by
  have walked : Gives ((traversal context).node .value (.unit source))
      (.unit (unit context source)) := rfl
  exact Node.unit.inj (walk_again (.unit source) walked)

end ScriptSharp.Lowering.KnownCalls
