import ScriptSharp.Lowering.Sequence
import ScriptSharp.Proofs.Tree.Passing
import ScriptSharp.Proofs.Tree.Rewriting

/-!
# Receivers of static members

A static member ends up with a type as its receiver, and only receivers change. `Redirects` compares
two trees from the root down: where the receiver of a static member gives way, the two differ in
that receiver, and nothing below it is compared; everywhere else they have the same node. The step
works the other way round, from the leaves up, and asks about receivers that it has already changed.
Both come to the same because changing a receiver keeps what it looks like from outside.
-/

namespace ScriptSharp.Lowering.StaticAccess

open Node

variable {types : TypeTable}

/-! ## What is kept and what gives way -/

/-- The receiver of a static member gives way to the declaring type. A type gives way only if it is
an enum, is not the declaring type, and the member is no constant of an enum. -/
def GivesWay (types : TypeTable) (receiver : Expr) (binding : MemberBinding) : Prop :=
  binding.isStatic = true ∧ ∀ note named, receiver.stripParens = .typeRef note named →
    types.isEnum named = true ∧ named.typeId? ≠ some binding.declaring ∧
      binding.kind ≠ .enumMember

/-- The declaring type of a member, at the position of the receiver that it stands for. -/
def declaringType (receiver : Expr) (binding : MemberBinding) : Expr :=
  .typeRef ⟨.named binding.declaring, receiver.span⟩ (.named binding.declaring)

/-- A node stays at the top when it is no static member with a receiver that gives way. -/
def Stays (types : TypeTable) (node : Node) : Prop :=
  ∀ note receiver name binding, node = .expr (.member note receiver name binding) →
    ¬ GivesWay types receiver binding

/-- The second tree is the first one with the receivers that give way replaced. -/
inductive Redirects (types : TypeTable) : Node → Node → Prop where
  | replaced {note : Note} {receiver : Expr} {name : Ident} {binding : MemberBinding}
      (givesWay : GivesWay types receiver binding) :
      Redirects types (.expr (.member note receiver name binding))
        (.expr (.member note (declaringType receiver binding) name binding))
  | kept {source result : Node}
      (stays : Stays types source)
      (shell : source.shell = result.shell)
      (slots : source.parts.map (·.1) = result.parts.map (·.1))
      (parts : List.Forall₂ (Redirects types) source.children result.children) :
      Redirects types source result

/-- The receiver of the expression is a type if the expression is a static member. -/
def TypeReceiver : Expr → Prop
  | .member _ receiver _ binding => binding.isStatic = true → receiver.isTypeRef = true
  | _ => True

/-- A node that stays is redirected by redirecting its parts. -/
theorem redirects_of_matches {source result : Node} (stays : Stays types source)
    (matched : Matches (fun _ => Redirects types) source result) :
    Redirects types source result :=
  have ⟨slots, children⟩ := Part.forall₂_related_iff.1 matched.parts
  .kept stays matched.shell slots children

/-! ## One receiver -/

/-- The test for receivers is that they give way. -/
theorem needsTypeReceiver_iff {receiver : Expr} {binding : MemberBinding} :
    needsTypeReceiver types receiver binding = true ↔ GivesWay types receiver binding := by
  rw [needsTypeReceiver, GivesWay, Bool.and_eq_true]
  refine and_congr_right fun _ => ?_
  cases same : receiver.stripParens
  case typeRef note named => simp [and_assoc]
  all_goals simp

/-- The type that an expression names, possibly in parentheses. -/
def named? (expr : Expr) : Option Ty :=
  match expr.stripParens with
  | .typeRef _ named => some named
  | _ => none

/-- An expression names a type if it is a type reference, up to parentheses. -/
theorem named?_eq_some {expr : Expr} {named : Ty} :
    named? expr = some named ↔ ∃ note, expr.stripParens = .typeRef note named := by
  rw [named?]
  cases expr.stripParens <;> simp

/-- Whether a receiver gives way is a question of the type that it names. -/
theorem givesWay_congr {receiver other : Expr} {binding : MemberBinding}
    (same : named? receiver = named? other) :
    GivesWay types receiver binding ↔ GivesWay types other binding := by
  have told : ∀ expr : Expr, GivesWay types expr binding ↔ binding.isStatic = true ∧
      ∀ named, named? expr = some named → types.isEnum named = true ∧
        named.typeId? ≠ some binding.declaring ∧ binding.kind ≠ .enumMember := fun expr => by
    simp only [GivesWay, named?_eq_some, forall_exists_index]
    exact and_congr_right fun _ => forall_comm
  rw [told, told, same]

/-- The declaring type does not give way. -/
theorem not_givesWay_declaringType (receiver : Expr) (binding : MemberBinding) :
    ¬ GivesWay types (declaringType receiver binding) binding :=
  fun givesWay => (givesWay.2 _ _ rfl).2.1 rfl

/-- A receiver that gives way is replaced by the declaring type. -/
theorem leave_of_givesWay {note : Note} {receiver : Expr} {name : Ident} {binding : MemberBinding}
    (givesWay : GivesWay types receiver binding) :
    leave types (.member note receiver name binding) =
      .member note (declaringType receiver binding) name binding := by
  rw [leave, if_pos (needsTypeReceiver_iff.2 givesWay)]
  rfl

/-! ## What an expression looks like from outside -/

/-- Two expressions name the same type, if any, when one is made of the other by changing parts. -/
theorem named?_of_matches {source result : Expr}
    (matched : Matches (fun _ child replacement => ∀ left right, child = .expr left →
      replacement = .expr right → named? left = named? right) (.expr source) (.expr result)) :
    named? source = named? result := by
  obtain ⟨shell, parts⟩ := matched
  cases source <;> cases result <;>
    simp only [Node.shell, Expr.shell, Node.expr.injEq, reduceCtorEq] at shell
  case paren.paren note inner _ other =>
    cases parts with
    | cons first _ => exact first.2 inner other rfl rfl
  case typeRef.typeRef =>
    rw [shell]
  all_goals rfl

/-- Replacing receivers changes no type that is named. -/
theorem named?_leave (expr : Expr) : named? (leave types expr) = named? expr := by
  cases expr
  case member =>
    rw [leave]
    split <;> rfl
  all_goals rfl

/-- The step keeps what an expression shows to what surrounds it. -/
theorem face_leave (expr : Expr) : (Node.expr (leave types expr)).face = (Node.expr expr).face := by
  cases expr
  case member =>
    rw [leave]
    split <;> rfl
  all_goals rfl

/-- No step changes which type, if any, stands at the position of an expression. -/
theorem named?_rewrite (expr : Expr) : named? (expr.rewrite (leave types)) = named? expr := by
  suffices all : ∀ (node : Node) (left right : Expr), node = .expr left →
      node.rewrite (leave types) = .expr right → named? left = named? right from
    (all (.expr expr) expr _ rfl rfl).symm
  intro node
  induction node using Node.induct with
  | step node inductionHypothesis =>
    rintro left right rfl rewritten
    obtain ⟨rebuilt, matched, top⟩ := rewrite_matches (leave types) (.expr left)
    have shell := matched.shell
    cases rebuilt <;> simp only [Node.shell, reduceCtorEq] at shell
    case expr rebuilt =>
      have same : right = leave types rebuilt := Node.expr.inj (rewritten.symm.trans top)
      rw [same, named?_leave]
      refine named?_of_matches (matched.imp fun part replaced child replacement isChild isNew => ?_)
      exact inductionHypothesis _ (mem_children_of_part part) child replacement isChild
        (replaced.trans isNew)

/-- Replacing receivers keeps the note of an expression. -/
theorem note_rewrite (expr : Expr) : (expr.rewrite (leave types)).note = expr.note :=
  (face_expr.1 (face_rewrite face_leave (.expr expr))).1

/-- Replacing receivers inside a receiver keeps the type that replaces it. -/
theorem declaringType_rewrite (receiver : Expr) (binding : MemberBinding) :
    declaringType (receiver.rewrite (leave types)) binding = declaringType receiver binding := by
  rw [declaringType, declaringType, Expr.span, Expr.span, note_rewrite]

/-- Replacing receivers inside a receiver does not change whether it gives way. -/
theorem givesWay_rewrite {receiver : Expr} {binding : MemberBinding} :
    GivesWay types (receiver.rewrite (leave types)) binding ↔ GivesWay types receiver binding :=
  givesWay_congr (named?_rewrite receiver)

/-! ## All receivers -/

/-- A node that stays does so with changed parts, because its receiver names the same type. -/
theorem stays_of_matches {source rebuilt : Node} (stays : Stays types source)
    (matched : Matches (fun _ child replacement => child.rewrite (leave types) = replacement)
      source rebuilt) : Stays types rebuilt := by
  rintro note other name binding rfl
  obtain ⟨shell, parts⟩ := matched
  cases source <;> simp only [Node.shell, reduceCtorEq, Node.expr.injEq] at shell
  case expr source =>
    cases source <;> simp only [Expr.shell, reduceCtorEq, Expr.member.injEq] at shell
    case member receiver _ _ =>
      obtain ⟨rfl, -, rfl, rfl⟩ := shell
      cases parts with
      | cons first _ =>
        have replaced : receiver.rewrite (leave types) = other := Node.expr.inj first.2
        rw [← replaced, givesWay_rewrite]
        exact stays _ _ _ _ rfl

/-- A node that stays is not changed. -/
theorem mapExpr_of_stays {node : Node} (stays : Stays types node) :
    node.mapExpr (leave types) = node := by
  cases node
  case expr root =>
    refine congrArg Node.expr ?_
    cases root
    case member note receiver name binding =>
      rw [leave, if_neg fun needed => stays _ _ _ _ rfl (needsTypeReceiver_iff.1 needed)]
    all_goals rfl
  all_goals rfl

/-- A rewritten node is the same with rewritten parts, or else a static member whose receiver has
given way. -/
theorem rewrite_cases (types : TypeTable) (node : Node) :
    Stays types node ∧ Stays types (node.rewrite (leave types)) ∧
        Matches (fun _ child replacement => child.rewrite (leave types) = replacement)
          node (node.rewrite (leave types)) ∨
      ∃ note receiver name binding, node = .expr (.member note receiver name binding) ∧
        GivesWay types receiver binding ∧ node.rewrite (leave types) =
          .expr (.member note (declaringType receiver binding) name binding) := by
  by_cases stays : Stays types node
  case pos =>
    obtain ⟨rebuilt, matched, top⟩ := rewrite_matches (leave types) node
    have staysRebuilt := stays_of_matches stays matched
    rw [top, mapExpr_of_stays staysRebuilt]
    exact .inl ⟨stays, staysRebuilt, matched⟩
  case neg =>
    simp only [Stays, not_forall, not_not] at stays
    obtain ⟨note, receiver, name, binding, rfl, givesWay⟩ := stays
    refine .inr ⟨note, receiver, name, binding, rfl, givesWay, congrArg Node.expr ?_⟩
    calc (Expr.member note receiver name binding).rewrite (leave types)
      _ = leave types (.member note (receiver.rewrite (leave types)) name binding) := rfl
      _ = .member note (declaringType (receiver.rewrite (leave types)) binding) name binding :=
        leave_of_givesWay (givesWay_rewrite.2 givesWay)
      _ = .member note (declaringType receiver binding) name binding := by
        rw [declaringType_rewrite]

/-- The rewriting replaces the receivers that give way. -/
theorem redirects_rewrite (types : TypeTable) (node : Node) :
    Redirects types node (node.rewrite (leave types)) := by
  induction node using Node.induct with
  | step node inductionHypothesis =>
    rcases rewrite_cases types node with
      ⟨stays, -, matched⟩ | ⟨note, receiver, name, binding, rfl, givesWay, rewritten⟩
    · refine redirects_of_matches stays (matched.imp fun member replaced => ?_)
      exact replaced ▸ inductionHypothesis _ (mem_children_of_part member)
    · exact rewritten ▸ .replaced givesWay

/-- No receiver of the result gives way. -/
theorem stays_rewrite (types : TypeTable) (node : Node) :
    Throughout (Stays types) (node.rewrite (leave types)) := by
  induction node using Node.induct with
  | step node inductionHypothesis =>
    rcases rewrite_cases types node with
      ⟨-, stays, matched⟩ | ⟨note, receiver, name, binding, rfl, -, rewritten⟩
    · refine .node stays fun child member => ?_
      obtain ⟨-, origin, originOf, rfl⟩ := matched.exists_source member
      exact inductionHypothesis origin originOf
    · rw [rewritten]
      refine .node ?_ fun child member => ?_
      · rintro _ _ _ _ same
        cases same
        exact not_givesWay_declaringType receiver binding
      · obtain rfl : child = .expr (declaringType receiver binding) := List.mem_singleton.1 member
        exact .node (fun _ _ _ _ same => nomatch same) fun _ none => nomatch none

/-- No more than one tree arises by replacing the receivers that give way. -/
theorem Redirects.unique {source result other : Node} (redirects : Redirects types source result)
    (redirects' : Redirects types source other) : result = other := by
  induction source using Node.induct generalizing result other with
  | step source inductionHypothesis =>
    cases redirects with
    | replaced givesWay =>
      cases redirects' with
      | replaced _ => rfl
      | kept stays _ _ _ => exact absurd givesWay (stays _ _ _ _ rfl)
    | kept stays shell slots parts =>
      cases redirects' with
      | replaced givesWay => exact absurd givesWay (stays _ _ _ _ rfl)
      | kept _ shell' slots' parts' =>
        have within : Matches (fun _ child replacement => child ∈ source.children ∧
            Redirects types child replacement) source result :=
          Matches.imp ⟨shell, Part.forall₂_related_iff.2 ⟨slots, parts⟩⟩ fun member holds =>
            ⟨mem_children_of_part member, holds⟩
        have next : Matches (fun _ => Redirects types) source other :=
          ⟨shell', Part.forall₂_related_iff.2 ⟨slots', parts'⟩⟩
        refine ((within.symm.trans next).imp fun _ chain => ?_).eq
        obtain ⟨child, ⟨member, first⟩, second⟩ := chain
        exact inductionHypothesis child member first second

/-- Where no receiver gives way, nothing changes. -/
theorem redirects_self {node : Node} (stays : Throughout (Stays types) node) :
    Redirects types node node := by
  induction node using Node.induct with
  | step node inductionHypothesis =>
    exact redirects_of_matches stays.here (.refl fun _ child member =>
      inductionHypothesis child member (stays.inside member))

/-! ## The result -/

/-- A receiver that does not give way to a type is one. -/
theorem typeReceiver_of_stays {node : Node} (stays : Stays types node) :
    OfExpr TypeReceiver node := by
  cases node
  case expr root =>
    cases root
    case member note receiver name binding =>
      intro isStatic
      by_contra isInstance
      refine stays _ _ _ _ rfl ⟨isStatic, fun note named same => ?_⟩
      rw [Expr.isTypeRef, same] at isInstance
      exact absurd rfl isInstance
    all_goals trivial
  all_goals trivial

/-- Where every node stays, static members have types as receivers. -/
theorem allExprs_typeReceiver {node : Node} (stays : Throughout (Stays types) node) :
    AllExprs TypeReceiver node := by
  induction node using Node.induct with
  | step node inductionHypothesis =>
    exact .node (typeReceiver_of_stays stays.here) fun child member =>
      inductionHypothesis child member (stays.inside member)

/-- Settling receivers never fails. It replaces the receivers that give way to the declaring type,
and nothing else; then every static member has a type as its receiver, and settling receivers once
more changes nothing. -/
theorem unit_redirected (context : Context) (source : SourceUnit) :
    ∃ result, Pass.run context .staticAccess source = .ok result ∧
      (∀ other, Redirects context.types (.unit source) other ↔ other = .unit result) ∧
      AllExprs TypeReceiver (.unit result) ∧
      Pass.run context .staticAccess result = .ok result := by
  have redirects := redirects_rewrite context.types (.unit source)
  have stays := stays_rewrite context.types (.unit source)
  refine ⟨StaticAccess.unit context.types source, rfl, fun other => ⟨fun redirects' => ?_, ?_⟩,
    ?_, ?_⟩
  · exact redirects'.unique redirects
  · rintro rfl
    exact redirects
  · exact allExprs_typeReceiver stays
  · have again := (redirects_rewrite _ _).unique (redirects_self stays)
    exact congrArg Except.ok (Node.unit.inj again)

end ScriptSharp.Lowering.StaticAccess
