import ScriptSharp.Proofs.Sugar.Chains

/-!
# Arguments and parameters

Later steps ask a signature for the type that it requires at the place of an argument. After the
removal of sugar that is the type of the parameter at this place, also where the last parameter is
marked `params`: calls, constructions and constructor chains all have their arguments packed.
-/

namespace ScriptSharp.Lowering.Sugar

open Node Outcome

variable {context : Context} {signature : Signature} {index : Nat} {element : Ty}

/-- Each argument stands at the place of a parameter, and the type of that parameter is required of
it. -/
def Aligned (signature : Signature) (args : List Expr) : Prop :=
  ∀ place < args.length, ∃ param, signature.params[place]? = some param ∧
    signature.paramTypeAt place = some param.ty

/-- The expression calls something with this signature on these arguments. -/
inductive Applies (signature : Signature) (args : List Expr) : Expr → Prop where
  | invoke {note : Note} {callee : Expr} {typeArgs : List Ty} :
      Applies signature args (.invoke note callee typeArgs args signature)
  | construct {note : Note} {constructed : Ty} :
      Applies signature args (.construct note constructed args signature)

/-- Arguments that are packed already do not reach past the parameters. -/
theorem aligned_of_packed {types : TypeTable} {args : List Expr}
    (variadic : Variadic signature index element)
    (done : expandParams types (some signature) args = args) : Aligned signature args := by
  have bounded := (packs_expandParams types variadic args).length_le
  rw [done, ← variadic.length] at bounded
  intro place inside
  have isParam := List.getElem?_eq_getElem (Nat.lt_of_lt_of_le inside bounded)
  refine ⟨_, isParam, ?_⟩
  rw [Signature.paramTypeAt, isParam]

/-! ## Chains -/

/-- Globals that are put into the start method bring no constructors. -/
theorem ctor_of_prependToStart {globals : List Stmt} {members : List Member} {ctor : CtorDecl}
    (member : .ctor ctor ∈ prependToStart globals members) : .ctor ctor ∈ members := by
  fun_induction prependToStart globals members with
  | case1 => simp at member
  | case2 method rest start => simpa using member
  | case3 method rest _ inductionHypothesis =>
    exact .tail _ (inductionHypothesis (by simpa using member))
  | case4 other rest _ inductionHypothesis =>
    rcases List.mem_cons.1 member with same | later
    · exact same ▸ List.mem_cons_self
    · exact .tail _ (inductionHypothesis later)

/-- Statements at top level bring no constructors with them. -/
theorem ctor_of_moveGlobals {globals : List Stmt} {decls : List TypeDecl} {later : TypeDecl}
    {ctor : CtorDecl} (moved : later ∈ moveGlobals globals decls)
    (member : .ctor ctor ∈ later.members) : ∃ decl ∈ decls, .ctor ctor ∈ decl.members := by
  fun_induction moveGlobals globals decls with
  | case1 => cases moved
  | case2 decl rest =>
    rcases List.mem_cons.1 moved with rfl | moved
    · exact ⟨decl, List.mem_cons_self, ctor_of_prependToStart member⟩
    · exact ⟨later, .tail _ moved, member⟩
  | case3 decl rest _ inductionHypothesis =>
    rcases List.mem_cons.1 moved with rfl | moved
    · exact ⟨later, List.mem_cons_self, member⟩
    · obtain ⟨origin, originOf, inside⟩ := inductionHypothesis moved
      exact ⟨origin, .tail _ originOf, inside⟩

/-- A chain of a walked member has its arguments packed. -/
theorem chain_of_walked {scope : Scope} {source : Member} {ctor : CtorDecl} {chain : CtorChain}
    (walked : Gives ((traversal context).member scope source) (.ctor ctor))
    (chained : ctor.chain = some chain) :
    expandParams context.types chain.signature chain.args = chain.args := by
  obtain ⟨parts, -, left⟩ := gives_bind.1 walked
  cases parts with
  | field | method => cases gives_pure.1 left
  | ctor rebuilt =>
    obtain rfl := Member.ctor.inj (gives_pure.1 left)
    obtain ⟨before, -, rfl⟩ := Option.map_eq_some_iff.1 chained
    exact expandParams_again _ _ _

/-- Every chain of a unit without sugar has its arguments packed. -/
theorem unit_chains_packed {source result : SourceUnit}
    (lowered : Sugar.unit context source = .ok result) :
    ∀ decl ∈ result.decls, ∀ ctor chain, .ctor ctor ∈ decl.members → ctor.chain = some chain →
      expandParams context.types chain.signature chain.args = chain.args := by
  intro decl declOf ctor chain member chained
  obtain ⟨decls, each, moved⟩ := unit_decls lowered
  obtain ⟨walked, walkedOf, inside⟩ : ∃ walked ∈ decls, .ctor ctor ∈ walked.members := by
    rcases moved with same | ⟨globals, same⟩
    · exact ⟨decl, same ▸ declOf, member⟩
    · exact ctor_of_moveGlobals (same ▸ declOf) member
  obtain ⟨origin, -, walksDecl⟩ := exists_related each walkedOf
  obtain ⟨source, -, walksMember⟩ := exists_related (walked_members walksDecl) inside
  exact chain_of_walked walksMember chained

/-! ## Units -/

/-- The arguments of every call, construction and chain with this signature are aligned. -/
structure AllAligned (signature : Signature) (unit : SourceUnit) : Prop where
  exprs : AllExprs (fun expr => ∀ args, Applies signature args expr → Aligned signature args)
    (.unit unit)
  chains : ∀ decl ∈ unit.decls, ∀ ctor chain, .ctor ctor ∈ decl.members →
    ctor.chain = some chain → chain.signature = some signature → Aligned signature chain.args

/-- Every place of a unit is aligned after lowering. -/
theorem allAligned_unit {source result : SourceUnit} (variadic : Variadic signature index element)
    (lowered : Sugar.unit context source = .ok result) : AllAligned signature result where
  exprs := by
    refine (unit_desugared lowered).1.mono fun expr desugared args applies => ?_
    cases applies with
    | invoke => exact aligned_of_packed variadic desugared.2
    | construct => exact aligned_of_packed variadic desugared
  chains decl declOf ctor chain member chained bound := by
    have done := unit_chains_packed lowered decl declOf ctor chain member chained
    rw [bound] at done
    exact aligned_of_packed variadic done

/-! A class with a constructor for a title and any number of entries. -/
namespace Ledger

/-- A title and any number of entries. -/
def entries : Signature :=
  ⟨[⟨"title", .string, .none⟩, ⟨"entries", .array .int, .params⟩], .void⟩

/-- The entries of a ledger are variadic in their second parameter. -/
theorem variadic_entries : Variadic entries 1 .int where
  length := rfl
  others := by
    intro place before param isParam
    obtain rfl : place = 0 := by omega
    obtain rfl := Option.some.inj isParam
    nofun
  takes := ⟨"entries", rfl⟩

/-- The context with the class. -/
def setting : Context :=
  ⟨.ofTypes [⟨"Ledger", none, .classType, none, [], [entries]⟩], [], false⟩

/-- A title. -/
def title : Expr := .literal (Expr.noteOf .string) (.string "sales")

/-- An entry. -/
def entry (value : Int) : Expr := .literal (Expr.noteOf .int) (.int value)

/-- Entries in an array. -/
def array (items : List Expr) : Expr := .array (Expr.noteOf (.array .int)) .int items

/-- The class with a constructor that hands on to another one, and a method with a call and a
construction. -/
def script (chained called : List Expr) (constructed : Expr) : SourceUnit where
  fileName := "Ledger.js"
  imports := []
  implicitImports := []
  decls := [{
    id := 0, name := .plain "Ledger", kind := .classType, modifiers := .none, attrs := []
    base := none, interfaces := []
    members := [
      .ctor ⟨[], some ⟨.this, chained, some entries⟩, [], .none, .unknown⟩,
      .method ⟨.plain "Print", [], .void, some [
        .expr (.invoke (Expr.noteOf .void) (.localRef "print" .object) [] called (some entries)),
        .expr constructed], .none, [], .unknown⟩]
    enumMembers := [], isScript := true, span := .unknown }]
  globals := []
  sourceText := none

/-- The script as it is written: without entries, with one, and with several. -/
def source : SourceUnit :=
  script [title] [title, entry 1] (.construct (Expr.noteOf (.named 0)) (.named 0)
    [title, entry 1, entry 2, entry 3] (some entries))

/-- The script with its entries in arrays. -/
def result : SourceUnit :=
  script [title] [title, array [entry 1]] (.construct (Expr.noteOf (.named 0)) (.named 0)
    [title, array [entry 1, entry 2, entry 3]] (some entries))

end Ledger

/-- Packing the arguments for a last parameter marked `params` keeps those before it, and puts the
others into one array, in their order, unless there is one that is such an array already. Packing
them again changes nothing. Once the sugar of a unit is removed, the type that a signature requires
of an argument is the type of the parameter at its place. -/
theorem unit_packs_params (context : Context) (variadic : Variadic signature index element) :
    (∀ args, let results := expandParams context.types signature args
      Packs context.types element index args results ∧
        expandParams context.types signature results = results) ∧
    ∀ source result, Sugar.unit context source = .ok result → AllAligned signature result :=
  ⟨fun args => ⟨packs_expandParams context.types variadic args, expandParams_again _ _ args⟩,
    fun _ _ => allAligned_unit variadic⟩

/-- The calls of a ledger with no, one and more amounts are aligned. -/
theorem unit_packs_params_ledger : Variadic Ledger.entries 1 .int ∧
    Sugar.unit Ledger.setting Ledger.source = .ok Ledger.result ∧
    AllAligned Ledger.entries Ledger.result := by
  have lowered : Sugar.unit Ledger.setting Ledger.source = .ok Ledger.result := by decide +kernel
  exact ⟨Ledger.variadic_entries, lowered,
    (unit_packs_params Ledger.setting Ledger.variadic_entries).2 _ _ lowered⟩

end ScriptSharp.Lowering.Sugar
