import ScriptSharp.Proofs.LambdaShape.Inference
import ScriptSharp.Proofs.NormalForm.Kept

/-!
# After the inference of shapes

Inference is no walk of its own kind: it carries a place and the types of parameters down, and the
types of locals along. What it makes of a node does not depend on any of them, though, as far as
forms go: `Infers` forgets what is carried, and `Reshapes` lists what can become of a node whose
parts are done. Every function literal gets its shape, and nothing else changes but types.

Members are inferred one by one, and those with function literals get their casts once more. The
attributes of a field are left as they are, which is why the result is stated without them.
-/

namespace ScriptSharp

open Outcome Node

namespace Lowering.LambdaShape

variable {params : Scope} {place : Place} {before after : Scope}

/-- What is inferred for an expression or a statement, wherever it stands. -/
def Infers (source result : Node) : Prop :=
  isCode source = true ∧ ∃ params place before after,
    InfersAt params (some place) before source result after

/-- What inference makes of a node, once its parts are done. -/
inductive Reshapes : Node → Node → Prop where
  | same {node : Node}
      (other : ∀ note params ret body, node ≠ .expr (.lambda note params ret body)) :
      Reshapes node node
  | ident {note newNote : Note} {name : Ident} {binding : Binding} :
      Reshapes (.expr (.ident note name binding)) (.expr (.ident newNote name binding))
  | invoke {note newNote : Note} {callee : Expr} {typeArgs : List Ty} {args : List Expr}
      {signature : Option Signature} :
      Reshapes (.expr (.invoke note callee typeArgs args signature))
        (.expr (.invoke newNote callee typeArgs args signature))
  | lambda {note : Note} {params : List LambdaParam} {ret : Option Ty} {body : LambdaBody}
      {span bodySpan : Span} {settled : List (Ident × Ty)} {newRet : Ty} :
      Reshapes (.expr (.lambda note params ret body))
        (.expr (shaped span settled newRet (asBlock bodySpan body)))
  | paren {note : Note} {inner : Expr} : Reshapes (.expr (.paren note inner)) (.expr inner)
  | declare {name : Ident} {declared : Option Ty} {ty newTy : Ty} {init : Option Expr}
      {span : Span} : Reshapes (.stmt (.declare name declared ty init span))
        (.stmt (.declare name declared newTy init span))

/-- An expression or a statement is inferred part by part, and then reshaped. -/
theorem infers_opens {source result : Node} (infers : Infers source result) :
    ∃ rebuilt, Matches (fun _ => Infers) source rebuilt ∧ Reshapes rebuilt result := by
  obtain ⟨code, params, place, before, after, infers⟩ := infers
  obtain ⟨rebuilt, between, shell, threads, finishes⟩ := infers.opens
  refine ⟨rebuilt, ?_, ?_⟩
  · have matched : Matches (fun _ child replacement => ∃ index before after,
        InfersAt (innerParams params place source) (placeAt place source rebuilt index) before
          child replacement after) source rebuilt := ⟨shell, threads.related⟩
    refine matched.imp fun {_ child _} part inferred => ?_
    obtain ⟨index, start, stop, inferred⟩ := inferred
    have noField : isField source = false := by
      cases source <;> first | rfl | cases code
    obtain ⟨inner, isPlace⟩ := exists_placeAt place noField rebuilt index
    exact ⟨isCode_child code (mem_children_of_part part), _, inner, start, stop,
      isPlace ▸ inferred⟩
  · cases finishes with
    | same plain => exact .same fun _ _ _ _ same => by simp [same, staysPlain] at plain
    | ident => exact .ident
    | invoke => exact .invoke
    | paren => exact .paren
    | lambda => exact .lambda
    | declare => exact .declare

/-! ## Shapes -/

/-- A resolved expression that is no function literal is normal. -/
theorem normal_of_resolved {expr : Expr} (resolved : expr.Resolved)
    (other : ∀ note params ret body, expr ≠ .lambda note params ret body) : expr.Normal := by
  refine ⟨resolved, ?_⟩
  cases expr
  case lambda note params ret body => exact absurd rfl (other note params ret body)
  all_goals trivial

/-- A shaped function literal with a normal body is normal. -/
theorem normal_shaped {span : Span} {settled : List (Ident × Ty)} {ret : Ty} {body : List Stmt}
    (all : ∀ stmt ∈ body, AllExprs Expr.Normal (.stmt stmt)) :
    AllExprs Expr.Normal (.expr (shaped span settled ret body)) := by
  refine allExprs_lambda.2 ⟨⟨⟨trivial, trivial⟩, ?_⟩, all⟩
  exact ⟨settled.map (·.2), ret, body, by simp, rfl, rfl, rfl⟩

/-- A body that is written as a block stays normal. -/
theorem normal_asBlock {note : Note} {params : List LambdaParam} {ret : Option Ty}
    {body : LambdaBody} {span : Span}
    (inside : ∀ child ∈ (Node.expr (.lambda note params ret body)).children,
      AllExprs Expr.Normal child) :
    ∀ stmt ∈ asBlock span body, AllExprs Expr.Normal (.stmt stmt) := by
  cases body with
  | expr value =>
    have all := inside (.expr value) (by simp [children, parts, Expr.parts, LambdaBody.parts,
      Part.value])
    simpa [asBlock] using all
  | block body =>
    intro stmt member
    exact inside (.stmt stmt) (by simpa [children, parts, Expr.parts, LambdaBody.parts,
      Part.stmt, asBlock] using member)

/-- What inference makes of a resolved node with normal parts is normal. -/
theorem normal_reshapes {rebuilt result : Node} (reshapes : Reshapes rebuilt result)
    (here : OfExpr Expr.Resolved rebuilt)
    (inside : ∀ child ∈ rebuilt.children, AllExprs Expr.Normal child) :
    AllExprs Expr.Normal result := by
  cases reshapes with
  | same other =>
    refine allExprs_iff.2 ⟨?_, inside⟩
    cases rebuilt with
    | expr root =>
      exact normal_of_resolved here fun _ _ _ _ same => other _ _ _ _ (congrArg Node.expr same)
    | _ => trivial
  | @ident note _ name binding =>
    have resolved : (Expr.ident note name binding).Resolved := here
    exact allExprs_ident.2 ⟨⟨resolved.sugarFree, trivial⟩, trivial⟩
  | invoke =>
    have all := allExprs_expr.2 ⟨normal_of_resolved here nofun, inside⟩
    obtain ⟨normal, parts⟩ := allExprs_invoke.1 all
    exact allExprs_invoke.2 ⟨stable_normal.invoke normal, parts⟩
  | lambda => exact normal_shaped (normal_asBlock inside)
  | paren => exact inside _ List.mem_cons_self
  | declare => exact allExprs_of_children nofun inside

/-- Inference shapes every function literal and keeps references resolved. -/
theorem passing : Passing Infers Reshapes (OfExpr Expr.Resolved) (OfExpr Expr.Normal) where
  opens infers := .inr (infers_opens infers)
  agrees := stable_resolved.agreesNode
  head reshapes := by cases reshapes <;> rfl
  leaves := normal_reshapes

/-- Inference at a place infers an expression. -/
theorem infers_expr {source result : Expr}
    (infers : InfersAt params (some place) before (.expr source) (.expr result) after) :
    Infers (.expr source) (.expr result) :=
  ⟨rfl, _, _, _, _, infers⟩

/-- Inference at a place infers a statement. -/
theorem infers_stmt {source result : Stmt}
    (infers : InfersAt params (some place) before (.stmt source) (.stmt result) after) :
    Infers (.stmt source) (.stmt result) :=
  ⟨rfl, _, _, _, _, infers⟩

/-- An inferred expression is normal. -/
theorem normal_expr {source result : Expr}
    (ends : Ends (expr params place source) before result after)
    (all : AllExprs Expr.Resolved (.expr source)) : AllExprs Expr.Normal (.expr result) :=
  (passing.throughout (infers_expr ends) all).1

/-- What is inferred for resolved parts is normal. -/
theorem normal_parts {sources results : List Part}
    (threads : Threads (fun _ _ source result _ => Infers source result) 0 before sources results
      after) (all : ∀ part ∈ sources, AllExprs Expr.Resolved part.2) :
    ∀ part ∈ results, AllExprs Expr.Normal part.2 := by
  intro part member
  obtain ⟨source, sourceOf, -, -, -, -, infers⟩ := exists_related threads.related member
  exact (passing.throughout infers (all source sourceOf)).1

/-! ## Members -/

variable {types : TypeTable}

/-- A value that may be absent is normal once it is inferred. -/
theorem normal_optional {source result : Option Expr}
    (ends : Ends (optional params place source) before result after)
    (all : ∀ value ∈ source, AllExprs Expr.Resolved (.expr value)) :
    ∀ value ∈ result, AllExprs Expr.Normal (.expr value) := by
  simpa [Part.value] using
    normal_parts (threads_optional 0 ends infers_expr) (by simpa [Part.value] using all)

/-- Inferred expressions are normal. -/
theorem normal_exprs {sources results : List Expr}
    (ends : Ends (exprs params sources) before results after)
    (all : ∀ value ∈ sources, AllExprs Expr.Resolved (.expr value)) :
    ∀ value ∈ results, AllExprs Expr.Normal (.expr value) := by
  simpa [Part.value] using
    normal_parts (threads_exprs 0 ends infers_expr) (by simpa [Part.value] using all)

/-- Inferred statements are normal. -/
theorem normal_stmts {sources results : List Stmt}
    (ends : Ends (stmts params sources) before results after)
    (all : ∀ stmt ∈ sources, AllExprs Expr.Resolved (.stmt stmt)) :
    ∀ stmt ∈ results, AllExprs Expr.Normal (.stmt stmt) := by
  simpa [Part.stmt] using
    normal_parts (threads_stmts 0 ends infers_stmt) (by simpa [Part.stmt] using all)

/-- A block that may be absent is normal once it is inferred. -/
theorem normal_block {source result : Option (List Stmt)}
    (ends : Ends (block? params source) before result after)
    (all : ∀ stmt ∈ source.getD [], AllExprs Expr.Resolved (.stmt stmt)) :
    ∀ stmt ∈ result.getD [], AllExprs Expr.Normal (.stmt stmt) := by
  simpa [Part.stmt] using
    normal_parts (threads_block 0 ends infers_stmt).2 (by simpa [Part.stmt] using all)

/-- Inferred attributes are normal. -/
theorem normal_attrs {sources results : List Attribute}
    (ends : Ends (attrs sources) before results after)
    (all : ∀ attr ∈ sources, AllExprs Expr.Resolved (.attr attr)) :
    ∀ attr ∈ results, AllExprs Expr.Normal (.attr attr) := by
  intro attr member
  obtain ⟨source, sourceOf, _, _, attrEnds⟩ := exists_related (ends_mapM ends) member
  simp only [ends_bind, ends_pure] at attrEnds
  obtain ⟨args, _, argsEnds, rfl, -⟩ := attrEnds
  refine allExprs_attr.2 fun arg argOf => ?_
  obtain ⟨origin, originOf, _, _, argEnds⟩ := exists_related (ends_mapM argsEnds) argOf
  simp only [ends_bind, ends_pure] at argEnds
  obtain ⟨value, _, valueEnds, rfl, -⟩ := argEnds
  exact normal_expr valueEnds (allExprs_attr.1 (all source sourceOf) origin originOf)

/-- The parts of a member become normal, apart from the attributes of a field, which stay as they
are. -/
theorem memberParts_normal {source result : Member}
    (ends : Ends (memberParts source) before result after)
    (all : AllExprs Expr.Resolved (.member source)) :
    AllExprs Expr.Normal (.member result.withoutFieldAttributes) ∧
      AllExprs Expr.Resolved (.member result) := by
  cases source with
  | field decl =>
    simp only [memberParts, ends_bind, ends_pure] at ends
    obtain ⟨init, _, initEnds, rfl, -⟩ := ends
    obtain ⟨attrs, allInit⟩ := allExprs_field.1 all
    have normal := normal_optional initEnds allInit
    exact ⟨allExprs_field.2 ⟨by simp, normal⟩, allExprs_field.2 ⟨attrs, fun value member =>
      (normal value member).mono fun _ => Expr.Normal.resolved⟩⟩
  | method decl =>
    simp only [memberParts, ends_bind, ends_pure] at ends
    obtain ⟨newAttrs, _, attrsEnds, body, _, bodyEnds, rfl, -⟩ := ends
    obtain ⟨allAttrs, allBody⟩ := allExprs_method.1 all
    have normal : AllExprs Expr.Normal (.member (.method { decl with attrs := newAttrs, body })) :=
      allExprs_method.2 ⟨normal_attrs attrsEnds allAttrs, normal_block bodyEnds allBody⟩
    exact ⟨normal, normal.mono fun _ => Expr.Normal.resolved⟩
  | ctor decl =>
    obtain ⟨allArgs, allBody⟩ := allExprs_ctor.1 all
    rw [CtorDecl.chainArgs] at allArgs
    have normal : AllExprs Expr.Normal (.member result) ∧
        result.withoutFieldAttributes = result := by
      cases chained : decl.chain with
      | none =>
        simp only [memberParts, chained, ends_bind, ends_pure] at ends
        obtain ⟨_, _, ⟨rfl, -⟩, body, _, bodyEnds, rfl, -⟩ := ends
        exact ⟨allExprs_ctor.2 ⟨by simp [CtorDecl.chainArgs], normal_stmts bodyEnds allBody⟩, rfl⟩
      | some chain =>
        simp only [memberParts, chained, ends_bind, ends_pure] at ends
        obtain ⟨args, _, argsEnds, _, _, ⟨rfl, -⟩, body, _, bodyEnds, rfl, -⟩ := ends
        rw [chained] at allArgs
        exact ⟨allExprs_ctor.2 ⟨normal_exprs argsEnds allArgs, normal_stmts bodyEnds allBody⟩, rfl⟩
    rw [normal.2]
    exact ⟨normal.1, normal.1.mono fun _ => Expr.Normal.resolved⟩

/-- Putting the casts in again changes none of this. -/
theorem member_normal {source result : Member}
    (ends : Ends (member types source) before result after)
    (all : AllExprs Expr.Resolved (.member source)) :
    AllExprs Expr.Normal (.member result.withoutFieldAttributes) ∧
      AllExprs Expr.Resolved (.member result) := by
  obtain ⟨inferred, infers, settled⟩ := member_settles ends
  obtain ⟨normal, resolved⟩ := memberParts_normal infers all
  rcases settled with rfl | settling
  · exact ⟨normal, resolved⟩
  · exact ⟨Coercion.member_allExprs stable_normal
      (Coercion.member_withoutFieldAttributes settling) normal,
      Coercion.member_allExprs stable_resolved settling resolved⟩

/-! ## Declarations and units -/

/-- An inferred declaration is normal but for the attributes of its fields, which stay resolved. -/
theorem decl_normal {source result : TypeDecl} (ends : Ends (decl types source) before result after)
    (all : AllExprs Expr.Resolved (.decl source)) :
    AllExprs Expr.Normal (.decl result.withoutFieldAttributes) ∧
      AllExprs Expr.Resolved (.decl result) := by
  obtain ⟨allAttrs, allMembers⟩ := allExprs_decl.1 all
  simp only [decl, ends_bind, ends_pure] at ends
  obtain ⟨newAttrs, state, attrsEnds, members, _, membersEnds, rfl, -⟩ := ends
  have inferring : Ends (attrs source.attrs) before newAttrs state := Except.ok.inj attrsEnds
  have normalAttrs := normal_attrs inferring allAttrs
  have each : ∀ member ∈ members, AllExprs Expr.Normal (.member member.withoutFieldAttributes) ∧
      AllExprs Expr.Resolved (.member member) := by
    intro member memberOf
    obtain ⟨origin, originOf, _, _, memberEnds⟩ := exists_related (ends_mapM membersEnds) memberOf
    exact member_normal memberEnds (allMembers origin originOf)
  refine ⟨allExprs_decl.2 ⟨normalAttrs, ?_⟩, allExprs_decl.2 ⟨fun attr member => ?_, ?_⟩⟩
  · exact List.forall_mem_map.2 fun member memberOf => (each member memberOf).1
  · exact (normalAttrs attr member).mono fun _ => Expr.Normal.resolved
  · exact fun member memberOf => (each member memberOf).2

/-- Inference shapes all function literals of a unit, apart from those in the attributes of
fields. -/
theorem unit_normal {unit result : SourceUnit}
    (lowered : LambdaShape.unit types unit = .ok result)
    (all : AllExprs Expr.Resolved (.unit unit)) (none : unit.globals = []) :
    AllExprs Expr.Normal (.unit result.withoutFieldAttributes) ∧
      AllExprs Expr.Resolved (.unit result) ∧ result.globals = [] := by
  obtain ⟨⟨decls, locals⟩, declsEnds, finished⟩ := gives_bind.1
    (show Gives (LambdaShape.unit types unit) result from lowered)
  have each : ∀ decl ∈ decls, AllExprs Expr.Normal (.decl decl.withoutFieldAttributes) ∧
      AllExprs Expr.Resolved (.decl decl) := by
    intro decl declOf
    obtain ⟨origin, originOf, _, _, declEnds⟩ := exists_related (ends_mapM declsEnds) declOf
    exact decl_normal declEnds ((allExprs_unit.1 all).1 origin originOf)
  obtain ⟨sameDecls, noGlobals⟩ : result.decls = decls ∧ result.globals = [] := by
    obtain rfl := gives_pure.1 finished
    have noGlobals : ((stmts [] unit.globals).run locals).1 = [] := by
      rw [none]
      rfl
    split
    · simp [SourceUnit.requireImport_decls, SourceUnit.requireImport_globals, noGlobals]
    · exact ⟨rfl, noGlobals⟩
  have resolved : AllExprs Expr.Resolved (.unit result) := by
    refine allExprs_unit.2 ⟨fun decl member => ?_, by simp [noGlobals]⟩
    exact (each decl (sameDecls ▸ member)).2
  refine ⟨allExprs_unit.2 ⟨List.forall_mem_map.2 fun decl member => ?_, ?_⟩, resolved, noGlobals⟩
  · exact (each decl (sameDecls ▸ member)).1
  · simp [SourceUnit.withoutFieldAttributes, noGlobals]

end Lowering.LambdaShape

end ScriptSharp
