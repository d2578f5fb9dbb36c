import ScriptSharp.Proofs.Sugar.TypeValues

/-!
# The constructor that a chain calls

Three forms find a constructor by the types of their arguments: a constructor chain, a call of the
name of a type, and an explicit construction. The constructions look at the arguments once the types
among them are type tokens, a chain looks at them before. `unit_chain_constructor` says what each of
them finds. They agree where every type that is an argument is noted as a type token from the start,
in particular where no argument is a type.
-/

namespace ScriptSharp.Lowering.Sugar

open Node Outcome

variable {types : TypeTable} {context : Context}

/-! ## Chains and constructions -/

/-- The callee of a statement that hands on to another constructor. -/
def HandsOn (decl : TypeDecl) : ChainKind → Expr → Prop
  | .base, callee => callee.head = .base
  | .this, callee => ∃ named, callee.typeName? = some named ∧ named.typeId? = some decl.id

/-- The chain that a constructor is written with: as a chain, or as its first statement. -/
inductive WrittenChain (decl : TypeDecl) (ctor : CtorDecl) : CtorChain → Prop where
  | chain {chain : CtorChain} : ctor.chain = some chain → WrittenChain decl ctor chain
  | statement {kind : ChainKind} {note : Note} {callee : Expr} {typeArgs : List Ty}
      {args : List Expr} {signature : Option Signature} {rest : List Stmt} :
      ctor.modifiers.isStatic = false → ctor.chain = none →
      ctor.body = .expr (.invoke note callee typeArgs args signature) :: rest →
      HandsOn decl kind callee → WrittenChain decl ctor ⟨kind, args, signature⟩

/-- The type whose constructor a chain calls. -/
def chainOwner? (decl : TypeDecl) : ChainKind → Option TypeId
  | .this => some decl.id
  | .base => decl.baseId?

/-- The constructions of a type with the given arguments: calls of its name, and explicit
constructions without a constructor yet. -/
inductive Construction (owner : TypeId) (args : List Expr) : Expr → Prop where
  | call {note : Note} {callee : Expr} {named : Ty} {typeArgs : List Ty}
      {signature : Option Signature} :
      callee.typeName? = some named → named.typeId? = some owner →
      Construction owner args (.invoke note callee typeArgs args signature)
  | explicit {note : Note} {named : Ty} : named.typeId? = some owner →
      Construction owner args (.construct note named args none)

/-- The types of arguments once the types among them are type tokens. -/
def valueTypes (types : TypeTable) (args : List Expr) : List Ty :=
  args.map fun arg => (valueize types arg).ty

/-- The arguments for a constructor: types become type tokens, and those for a `params` parameter
are packed. -/
def argsFor (types : TypeTable) (signature : Option Signature) (args : List Expr) : List Expr :=
  expandParams types signature (args.map (valueize types))

/-! ## Arguments -/

/-- The walk enters every expression. -/
theorem walked_expr (scope : Scope) (expr : Expr) : (traversal context).expr scope expr =
    ((traversal context).within (fun _ => scope) expr >>= leave context.types scope) := by
  rw [Traversal.expr_eq_around]
  have same : Descent.carried ⟨scope, scope⟩ = fun _ => scope := by
    funext slot
    cases slot <;> rfl
  rw [← same]
  rfl

/-- The name of a type is walked to itself. -/
theorem walked_typeName {scope : Scope} {expr : Expr} (isName : expr.typeName?.isSome = true) :
    (traversal context).expr scope expr = .ok expr := by
  -- The induction is over the parentheses around the name.
  induction expr using Expr.stripParens.induct with
  | case1 note inner inductionHypothesis =>
    rw [walked_expr, Traversal.within, inductionHypothesis isName]
    rfl
  | case2 expr noParen =>
    obtain ⟨named, isName⟩ := Option.isSome_iff_exists.1 isName
    obtain ⟨note, isRef⟩ := Expr.typeName?_eq_some_iff.1 isName
    rw [Expr.stripParens.eq_2 expr noParen] at isRef
    rw [isRef]
    rfl

/-- An argument that is no type, or is noted as a type token, has the same type once the types among
the arguments are type tokens. -/
theorem valueize_ty_of_walked {scope : Scope} {arg walked : Expr}
    (walks : (traversal context).expr scope arg = .ok walked)
    (noted : arg.typeName?.isSome = true → arg.ty = .named context.types.wellKnown.systemType) :
    (valueize context.types walked).ty = walked.ty := by
  unfold valueize
  split
  case h_1 isRef =>
    -- A type among the walked arguments was there before, with the same note.
    have walkedName : walked.typeName?.isSome = true :=
      Option.isSome_of_eq_some (Expr.typeName?_eq_some_iff.2 ⟨_, isRef⟩)
    have sameName : arg.typeName? = walked.typeName? :=
      (names_walk (.expr arg) ⟨scope, gives_bind.2 ⟨walked, walks, gives_pure.2 rfl⟩⟩).2
    have argName : arg.typeName?.isSome = true := sameName ▸ walkedName
    obtain rfl : arg = walked := Except.ok.inj ((walked_typeName argName).symm.trans walks)
    exact (noted argName).symm
  case h_2 => rfl

/-- The types of walked arguments as values are their own types, when type names are noted as
types. -/
theorem valueTypes_of_walked {scope : Scope} {args results : List Expr}
    (walks : (traversal context).exprs scope args = .ok results)
    (noted : ∀ arg ∈ args, arg.typeName?.isSome = true →
      arg.ty = .named context.types.wellKnown.systemType) :
    valueTypes context.types results = results.map Expr.ty := by
  induction args generalizing results with
  | nil =>
    obtain rfl := Except.ok.inj walks
    rfl
  | cons first rest inductionHypothesis =>
    obtain ⟨walkedFirst, walksFirst, walks⟩ := gives_bind.1
      (show Gives ((traversal context).exprs scope (first :: rest)) results from walks)
    obtain ⟨walkedRest, walksRest, finished⟩ := gives_bind.1 walks
    obtain rfl := gives_pure.1 finished
    obtain ⟨notedFirst, notedRest⟩ := List.forall_mem_cons.1 noted
    exact congrArg₂ List.cons (valueize_ty_of_walked walksFirst notedFirst)
      (inductionHypothesis walksRest notedRest)

/-! ## Constructions -/

/-- A construction calls the constructor that is found for its arguments as values. -/
theorem Construction.walked {scope : Scope} {owner : TypeId} {args results : List Expr}
    {construction : Expr} {found : Signature} (constructs : Construction owner args construction)
    (walks : (traversal context).exprs scope args = .ok results)
    (isFound : context.types.findConstructor? owner (valueTypes context.types results) =
      some found) :
    ∃ note named, named.typeId? = some owner ∧ (traversal context).expr scope construction =
      .ok (.construct note named (argsFor context.types found results) found) := by
  have isFound : context.types.findConstructor? owner
      ((results.map (valueize context.types)).map Expr.ty) = some found := by
    rw [List.map_map]
    exact isFound
  cases constructs with
  | @call note callee named typeArgs signature isName isOwner =>
    refine ⟨⟨named, note.span⟩, named, isOwner, ?_⟩
    obtain ⟨refNote, isRef⟩ := Expr.typeName?_eq_some_iff.1 isName
    rw [walked_expr, Traversal.within, walked_typeName (Option.isSome_of_eq_some isName), walks]
    show leave context.types scope (.invoke note callee typeArgs results signature) = _
    simp only [leave, isRef, construct, isOwner, isFound]
    rfl
  | @explicit note named isOwner =>
    refine ⟨note, named, isOwner, ?_⟩
    rw [walked_expr, Traversal.within, walks]
    show leave context.types scope (.construct note named results none) = _
    simp only [leave, resolve, isOwner, Option.bind_some, isFound]
    rfl

/-! ## Chains -/

/-- A callee that hands on is told to be one. -/
theorem HandsOn.chainKind {decl : TypeDecl} {kind : ChainKind} {callee : Expr}
    (handsOn : HandsOn decl kind callee) : chainKind? decl.id callee = some kind := by
  unfold chainKind?
  cases kind with
  | base =>
    simp only [HandsOn, Expr.head] at handsOn
    split at handsOn
    · cases handsOn
    case h_2 isSuper => rw [isSuper]
    · cases handsOn
  | this =>
    obtain ⟨named, isName, isCurrent⟩ := handsOn
    obtain ⟨note, isRef⟩ := Expr.typeName?_eq_some_iff.1 isName
    rw [isRef]
    exact if_pos isCurrent

/-- A written chain is the chain of its constructor after lifting. -/
theorem WrittenChain.lifted {decl : TypeDecl} {ctor : CtorDecl} {chain : CtorChain}
    (written : WrittenChain decl ctor chain) : (liftChain decl.id ctor).chain = some chain := by
  cases written with
  | chain given => simp [liftChain, given]
  | statement isInstance unchained leads handsOn =>
    simp [liftChain, isInstance, unchained, leads, handsOn.chainKind]

/-- A chain without a constructor gets the one that is found for the types its arguments are noted
with. -/
theorem resolveChain_unbound {decl : TypeDecl} {kind : ChainKind} {owner : TypeId}
    (owned : chainOwner? decl kind = some owner) (args : List Expr) :
    let found := types.findConstructor? owner (args.map Expr.ty)
    resolveChain types (.of decl) ⟨kind, args, none⟩ = ⟨kind, argsFor types found args, found⟩ := by
  cases kind with
  | this =>
    obtain rfl := Option.some.inj owned
    rfl
  | base =>
    simp only [chainOwner?] at owned
    simp only [resolveChain, resolve, Scope.of, owned, argsFor, Option.bind_some]

/-- A constructor with a chain keeps it. The arguments are walked and the chain is resolved
again. -/
theorem walked_ctor {scope : Scope} {ctor : CtorDecl} {chain : CtorChain} {result : Member}
    (chained : ctor.chain = some chain)
    (walked : (traversal context).member scope (.ctor ctor) = .ok result) :
    ∃ args finished, (traversal context).exprs scope chain.args = .ok args ∧
      result = .ctor finished ∧
      finished.chain = some (resolveChain context.types scope { chain with args }) := by
  obtain ⟨parts, walkedParts, left⟩ := gives_bind.1
    (show Gives ((traversal context).member scope (.ctor ctor)) result from walked)
  obtain ⟨walkedChain, walksChain, walkedParts⟩ := gives_bind.1 walkedParts
  obtain ⟨body, -, walkedParts⟩ := gives_bind.1 walkedParts
  obtain rfl := gives_pure.1 walkedParts
  obtain rfl := gives_pure.1 left
  rw [chained] at walksChain
  obtain ⟨args, walks, walkedChain⟩ := gives_bind.1 walksChain
  obtain rfl := gives_pure.1 walkedChain
  exact ⟨args, _, walks, rfl, rfl⟩

/-! ## Places -/

/-- Lists whose items are related one by one have related items at each place. -/
theorem exists_getElem?_of_forall₂ {α β : Type} {related : α → β → Prop} {sources : List α}
    {results : List β} (all : List.Forall₂ related sources results) {place : Nat} {item : α}
    (here : sources[place]? = some item) :
    ∃ result, results[place]? = some result ∧ related item result := by
  induction all generalizing place with
  | nil => cases here
  | cons first _ inductionHypothesis =>
    cases place with
    | zero =>
      obtain rfl := Option.some.inj here
      exact ⟨_, rfl, first⟩
    | succ place => exact inductionHypothesis here

/-- The members of a walked declaration are the walked members, in order. -/
theorem walked_members {scope : Scope} {decl result : TypeDecl}
    (walked : (traversal context).decl scope decl = .ok result) :
    List.Forall₂ (fun member later => Gives ((traversal context).member (.of decl) member) later)
      decl.members result.members := by
  obtain ⟨attrs, -, walked⟩ := gives_bind.1
    (show Gives ((traversal context).decl scope decl) result from walked)
  obtain ⟨members, walkedMembers, left⟩ := gives_bind.1 walked
  obtain rfl := gives_pure.1 left
  have sameMembers (decl : TypeDecl) : (leaveDecl context decl).members = decl.members := by
    unfold leaveDecl
    dsimp only
    split_ifs <;> rfl
  rw [sameMembers]
  exact gives_mapM.1 walkedMembers

/-- Constructors stay where they are when statements are put in front of the starting method. -/
theorem prependToStart_getElem? {globals : List Stmt} {members : List Member} {index : Nat}
    {ctor : CtorDecl} (here : members[index]? = some (.ctor ctor)) :
    (prependToStart globals members)[index]? = some (.ctor ctor) := by
  fun_induction prependToStart globals members generalizing index with
  | case1 => cases here
  | case2 method rest start =>
    cases index with
    | zero => cases here
    | succ index => exact here
  | case3 method rest _ inductionHypothesis | case4 member rest _ inductionHypothesis =>
    cases index with
    | zero => exact here
    | succ index => exact inductionHypothesis here

/-- All constructors of a declaration are those of another one, at the same places. -/
def SameCtors (decl later : TypeDecl) : Prop :=
  ∀ (index : Nat) (ctor : CtorDecl), decl.members[index]? = some (.ctor ctor) →
    later.members[index]? = some (.ctor ctor)

/-- A declaration has its own constructors. -/
theorem SameCtors.refl (decl : TypeDecl) : SameCtors decl decl := fun _ _ here => here

/-- Globals that move into a script leave the constructors of all declarations as they are. -/
theorem sameCtors_moveGlobals (globals : List Stmt) (decls : List TypeDecl) :
    List.Forall₂ SameCtors decls (moveGlobals globals decls) := by
  fun_induction moveGlobals globals decls with
  | case1 => exact .nil
  | case2 decl rest =>
    exact .cons (fun _ _ here => prependToStart_getElem? here)
      (List.forall₂_same.2 fun decl _ => .refl decl)
  | case3 decl rest _ inductionHypothesis => exact .cons (.refl decl) inductionHypothesis

/-- The declarations of the result are the walked ones, possibly with statements moved into them. -/
theorem unit_decls {source result : SourceUnit}
    (lowered : Sugar.unit context source = .ok result) :
    ∃ decls, List.Forall₂ (fun decl walked =>
        Gives ((traversal context).decl .outside (liftChains decl)) walked) source.decls decls ∧
      (result.decls = decls ∨ ∃ globals, result.decls = moveGlobals globals decls) := by
  obtain ⟨decls, walkedDecls, lowered⟩ := gives_bind.1
    (show Gives (Sugar.unit context source) result from lowered)
  have each := gives_mapM.1 walkedDecls
  rw [List.forall₂_map_left_iff] at each
  refine ⟨decls, each, ?_⟩
  split_ifs at lowered
  · obtain rfl := gives_pure.1 lowered
    exact .inl rfl
  · split at lowered
    case h_1 => cases lowered
    case h_2 =>
      obtain ⟨globals, -, finished⟩ := gives_bind.1 lowered
      obtain rfl := gives_pure.1 finished
      exact .inr ⟨globals, rfl⟩

/-- The declarations of the result have the constructors of the walked ones. -/
theorem unit_sameCtors {source result : SourceUnit}
    (lowered : Sugar.unit context source = .ok result) :
    ∃ decls, List.Forall₂ (fun decl walked =>
        Gives ((traversal context).decl .outside (liftChains decl)) walked) source.decls decls ∧
      List.Forall₂ SameCtors decls result.decls := by
  obtain ⟨decls, each, same | ⟨globals, same⟩⟩ := unit_decls lowered
  · exact ⟨decls, each, same ▸ List.forall₂_same.2 fun decl _ => .refl decl⟩
  · exact ⟨decls, each, same ▸ sameCtors_moveGlobals globals decls⟩

/-- A constructor that is written with a chain has one in the result, at the same place, resolved
for its walked arguments. -/
theorem unit_resolves_chain {source result : SourceUnit} {place index : Nat} {decl : TypeDecl}
    {ctor : CtorDecl} {chain : CtorChain} (lowered : Sugar.unit context source = .ok result)
    (isDecl : source.decls[place]? = some decl)
    (isCtor : decl.members[index]? = some (.ctor ctor)) (written : WrittenChain decl ctor chain) :
    ∃ args later finished, (traversal context).exprs (.of decl) chain.args = .ok args ∧
      result.decls[place]? = some later ∧ later.members[index]? = some (.ctor finished) ∧
      finished.chain = some (resolveChain context.types (.of decl) { chain with args }) := by
  -- From the source through the lifted and the walked declaration to that of the result.
  obtain ⟨decls, walkedDecls, sameCtors⟩ := unit_sameCtors lowered
  have isLiftedCtor : (liftChains decl).members[index]? =
      some (.ctor (liftChain decl.id ctor)) := by
    rw [liftChains, List.getElem?_map, isCtor]
    rfl
  obtain ⟨walkedDecl, atPlace, walksDecl⟩ := exists_getElem?_of_forall₂ walkedDecls isDecl
  obtain ⟨walkedMember, atIndex, walksMember⟩ :=
    exists_getElem?_of_forall₂ (walked_members walksDecl) isLiftedCtor
  obtain ⟨args, finished, walks, rfl, resolved⟩ := walked_ctor written.lifted walksMember
  obtain ⟨later, isLater, same⟩ := exists_getElem?_of_forall₂ sameCtors atPlace
  exact ⟨args, later, finished, walks, isLater, same index finished atIndex, resolved⟩

/-! A class that hands its own type to its base, which takes an object of the class or a type. -/

namespace Shelf

/-- The type of the type tokens. -/
def tokens : TypeId := 2

/-- A constructor with one parameter. -/
def taking (name : String) (ty : Ty) : Signature := ⟨[⟨name, ty, .none⟩], .void⟩

/-- The context with the class, its base, and the type of the type tokens. -/
def setting : Context :=
  ⟨.ofTypes [
    ⟨"Registry", none, .classType, some (.named 1), [], []⟩,
    ⟨"Shelf", none, .classType, none, [],
      [taking "item" (.named 0), taking "kind" (.named tokens)]⟩,
    ⟨"Type", some "System", .classType, none, [], []⟩], [], false⟩

/-- The name of the class, noted with a type. -/
def name (ty : Ty) : Expr := .typeRef (Expr.noteOf ty) (.named 0)

/-- The type of the class as a value. -/
def token : Expr := .typeOf (Expr.noteOf (.named tokens)) (.named 0)

/-- A call with one argument, which has no constructor yet. -/
def call (callee arg : Expr) : Expr :=
  .invoke (Expr.noteOf (.named 1)) callee [] [arg] none

/-- A call of the base. -/
def shelf (arg : Expr) : Expr := call (.typeRef (Expr.noteOf (.named 1)) (.named 1)) arg

/-- The constructor whose first statement hands the argument on to the base. -/
def handing (arg : Expr) : CtorDecl where
  params := []
  chain := none
  body := [.expr (call (.superRef (Expr.noteOf (.named 1))) arg)]
  modifiers := .none
  span := .unknown

/-- The constructor with this chain. -/
def chained (chain : CtorChain) : CtorDecl :=
  { handing token with chain := some chain, body := [] }

/-- The class with one constructor. -/
def registry (ctor : CtorDecl) : TypeDecl where
  id := 0
  name := .plain "Registry"
  kind := .classType
  modifiers := .none
  attrs := []
  base := some (.named 1)
  interfaces := []
  members := [.ctor ctor]
  enumMembers := []
  isScript := true
  span := .unknown

/-- The unit with this class. -/
def script (ctor : CtorDecl) : SourceUnit :=
  ⟨"Registry.js", [], [], [registry ctor], [], none⟩

end Shelf

/-- A chain without a constructor gets the one that is found for the types its arguments are noted
with, and a construction with the same arguments the one for their types as values. Where the types
among the arguments are noted as type tokens, a chain has the constructor and the arguments of a
construction. -/
theorem unit_chain_constructor {source result : SourceUnit} {place index : Nat} {decl : TypeDecl}
    {ctor : CtorDecl} {chain : CtorChain} {owner : TypeId}
    (lowered : Sugar.unit context source = .ok result) (isDecl : source.decls[place]? = some decl)
    (isCtor : decl.members[index]? = some (.ctor ctor)) (written : WrittenChain decl ctor chain)
    (unbound : chain.signature = none) (owned : chainOwner? decl chain.kind = some owner) :
    ∃ args later finished, (traversal context).exprs (.of decl) chain.args = .ok args ∧
      result.decls[place]? = some later ∧ later.members[index]? = some (.ctor finished) ∧
      let noted := context.types.findConstructor? owner (args.map Expr.ty)
      let valued := context.types.findConstructor? owner (valueTypes context.types args)
      finished.chain = some ⟨chain.kind, argsFor context.types noted args, noted⟩ ∧
      (∀ construction found, Construction owner chain.args construction → valued = some found →
        ∃ note named, named.typeId? = some owner ∧
          (traversal context).expr (.of decl) construction =
            .ok (.construct note named (argsFor context.types valued args) valued)) ∧
      ((∀ arg ∈ chain.args, arg.typeName?.isSome = true →
          arg.ty = .named context.types.wellKnown.systemType) →
        finished.chain = some ⟨chain.kind, argsFor context.types valued args, valued⟩) := by
  obtain ⟨args, later, finished, walks, isLater, isFinished, resolved⟩ :=
    unit_resolves_chain lowered isDecl isCtor written
  rw [unbound, resolveChain_unbound owned] at resolved
  refine ⟨args, later, finished, walks, isLater, isFinished, resolved, ?_, fun noted => ?_⟩
  · intro construction found constructs isFound
    rw [isFound]
    exact constructs.walked walks isFound
  · rw [valueTypes_of_walked walks noted]
    exact resolved

/-- A type name that is noted as a token is handed on to the base. The chain has the constructor of
the construction. -/
theorem unit_chain_constructor_token :
    let arg := Shelf.name (.named Shelf.tokens)
    let kind := Shelf.taking "kind" (.named Shelf.tokens)
    let result := Shelf.script (Shelf.chained ⟨.base, [Shelf.token], kind⟩)
    Sugar.unit Shelf.setting (Shelf.script (Shelf.handing arg)) = .ok result ∧
    ∃ args later finished note named,
      result.decls[0]? = some later ∧ later.members[0]? = some (.ctor finished) ∧
      finished.chain = some ⟨.base, args, kind⟩ ∧
      (traversal Shelf.setting).expr (.of (Shelf.registry (Shelf.handing arg)))
        (Shelf.shelf arg) = .ok (.construct note named args kind) := by
  intro arg kind result
  have lowered : Sugar.unit Shelf.setting (Shelf.script (Shelf.handing arg)) = .ok result := by
    decide +kernel
  have written : WrittenChain (Shelf.registry (Shelf.handing arg)) (Shelf.handing arg)
      ⟨.base, [arg], none⟩ :=
    .statement rfl rfl rfl rfl
  have isDecl : (Shelf.script (Shelf.handing arg)).decls[0]? =
      some (Shelf.registry (Shelf.handing arg)) := rfl
  have isCtor : (Shelf.registry (Shelf.handing arg)).members[0]? =
      some (.ctor (Shelf.handing arg)) := rfl
  obtain ⟨args, later, finished, walks, isLater, isFinished, -, constructs, agrees⟩ :=
    unit_chain_constructor lowered isDecl isCtor written rfl rfl
  obtain rfl : args = [arg] := (Except.ok.inj walks).symm
  have found : Shelf.setting.types.findConstructor? 1 (valueTypes Shelf.setting.types [arg]) =
      some kind := by
    decide +kernel
  have noted : ∀ given ∈ [arg], given.typeName?.isSome = true →
      given.ty = .named Shelf.setting.types.wellKnown.systemType := by
    decide +kernel
  obtain ⟨note, named, -, constructed⟩ := constructs (Shelf.shelf arg) kind (.call rfl rfl) found
  have chained := agrees noted
  rw [found] at chained constructed
  exact ⟨lowered, _, later, finished, note, named, isLater, isFinished, chained, constructed⟩

/-- Where the name of the class is noted with the class itself, the chain calls the constructor for
an object of the class, while a construction with the same argument calls the one for a type. -/
theorem unit_chain_takes_item :
    Sugar.unit Shelf.setting (Shelf.script (Shelf.handing (Shelf.name (.named 0)))) =
      .ok (Shelf.script (Shelf.chained
        ⟨.base, [Shelf.token], Shelf.taking "item" (.named 0)⟩)) ∧
    (traversal Shelf.setting).expr
        (.of (Shelf.registry (Shelf.handing (Shelf.name (.named 0)))))
        (Shelf.shelf (Shelf.name (.named 0))) =
      .ok (.construct (Expr.noteOf (.named 1)) (.named 1) [Shelf.token]
        (Shelf.taking "kind" (.named Shelf.tokens))) := by
  refine ⟨by decide +kernel, by decide +kernel⟩

end ScriptSharp.Lowering.Sugar
