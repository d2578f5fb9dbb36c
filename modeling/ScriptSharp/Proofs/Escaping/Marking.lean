import ScriptSharp.Lowering.Sequence
import ScriptSharp.Proofs.Tree.Renaming
import ScriptSharp.Proofs.Tree.Walk

/-!
# Marked names

The walk that marks names is the renaming that marks each name on its own, so a name is marked
alike wherever it stands.
-/

namespace ScriptSharp

namespace Ident

/-- A marked name is spelled like the plain word. -/
theorem render_escape (ident : Ident) : ident.escape.render = escapeWord ident.name :=
  rfl

/-- An identifier that is escaped stays when it is escaped again. -/
theorem escape_escape (ident : Ident) : ident.escape.escape = ident.escape :=
  rfl

end Ident

namespace Lowering.Escaping

open Node Outcome

/-- The step changes the names of the node that it leaves. -/
theorem leaveNode_eq (node : Node) :
    Gives (traversal.leaveNode () node) (node.mapNames Ident.escape) := by
  cases node with
  | expr root => cases root <;> rfl
  | stmt root => cases root <;> rfl
  | attr root => rfl
  | member root => cases root <;> rfl
  | decl root => rfl
  | unit root => rfl

/-- The step goes below every node. -/
theorem enterNode_eq (node : Node) :
    Gives (traversal.enterNode () node) (some fun _ => ()) := by
  cases node <;> rfl

/-- A walk renames all identifiers of a node. -/
theorem renames_walk {node result : Node} (walked : Gives (traversal.node () node) result) :
    Renames Ident.escape node result := by
  induction node using Node.induct generalizing result with
  | step node inductionHypothesis =>
    rcases DeclTraversal.node_matches walked with
      ⟨skipped, -⟩ | ⟨carried, rebuilt, -, matched, left⟩
    · cases skipped.symm.trans (enterNode_eq node)
    · obtain rfl : rebuilt.mapNames Ident.escape = result :=
        (leaveNode_eq rebuilt).symm.trans left
      refine renames_of_matches (matched.imp fun member replaced => ?_)
      exact inductionHypothesis _ (mem_children_of_part member) replaced

/-- Marking names never fails. It keeps every name of a unit, marks it exactly when it is a reserved
word, and changes nothing else. Equal names are then spelled alike, namely like the plain word, and
marking the names once more changes nothing. -/
theorem unit_marked (context : Context) (source : SourceUnit) :
    ∃ result, Pass.run context .escaping source = .ok result ∧
      (∀ other, Renames (fun ident => ⟨ident.name, isReservedWord ident.name⟩) (.unit source)
        other ↔ other = .unit result) ∧
      (Node.unit result).names =
        (Node.unit source).names.map (fun ident => ⟨ident.name, isReservedWord ident.name⟩) ∧
      (∀ ident ∈ (Node.unit result).names, ident.escaped = isReservedWord ident.name ∧
        ident.render = escapeWord ident.name) ∧
      Pass.run context .escaping result = .ok result := by
  have renames : Renames Ident.escape (.unit source) (.unit (Escaping.unit source)) :=
    renames_walk rfl
  have marked : ∀ ident ∈ (Node.unit (Escaping.unit source)).names, ∃ origin : Ident,
      origin.escape = ident := fun ident member => by
    obtain ⟨origin, -, same⟩ := List.mem_map.1 (renames.names_eq ▸ member)
    exact ⟨origin, same⟩
  refine ⟨Escaping.unit source, rfl, fun other => ⟨fun renames' => renames'.unique renames, ?_⟩,
    renames.names_eq, fun ident member => ?_, ?_⟩
  · rintro rfl
    exact renames
  · obtain ⟨origin, rfl⟩ := marked ident member
    exact ⟨rfl, origin.render_escape⟩
  · have rests : Renames Ident.escape (.unit (Escaping.unit source))
        (.unit (Escaping.unit source)) := .self fun ident member => by
      obtain ⟨origin, rfl⟩ := marked ident member
      exact origin.escape_escape
    have again : Renames Ident.escape (.unit (Escaping.unit source))
        (.unit (Escaping.unit (Escaping.unit source))) := renames_walk rfl
    exact congrArg Except.ok (Node.unit.inj (again.unique rests))

/-! A class with a field `event` that one of its methods reads. -/

namespace Alarm

/-- The binding of the field. -/
def binding : MemberBinding := ⟨0, .field, false, none⟩

/-- The access `this.event`. -/
def access : Expr :=
  .member (Expr.noteOf .int) (.selfRef (Expr.noteOf (.named 0))) (.plain "event") binding

/-- The unit. -/
def unit : SourceUnit where
  fileName := "Alarm.js"
  imports := []
  implicitImports := []
  decls := [{
    id := 0, name := .plain "Alarm", kind := .classType, modifiers := .none, attrs := []
    base := none, interfaces := []
    members := [
      .field ⟨.plain "event", .int, none, .none, [], .unknown⟩,
      .method ⟨.plain "Pending", [], .int, some [.ret (some access) .unknown], .none, [],
        .unknown⟩]
    enumMembers := [], isScript := false, span := .unknown }]
  globals := []
  sourceText := none

/-- The context, in which nothing else is declared. -/
def setting : Context := ⟨.ofTypes [], [], false⟩

end Alarm

/-- The name `event` is marked where it is declared and where it is read, and the plain names stay
as they are. -/
theorem unit_marked_alarm : ∃ result, Pass.run Alarm.setting .escaping Alarm.unit = .ok result ∧
    (Node.unit result).names =
      [⟨"Alarm", false⟩, ⟨"event", true⟩, ⟨"Pending", false⟩, ⟨"event", true⟩] := by
  obtain ⟨result, runs, -, names, -⟩ := unit_marked Alarm.setting Alarm.unit
  have found : (Node.unit Alarm.unit).names =
      [.plain "Alarm", .plain "event", .plain "Pending", .plain "event"] := by
    simp [names_eq, idents, children, parts, Alarm.unit, Alarm.access, Member.idents, Expr.idents,
      Stmt.idents, Member.parts, Stmt.parts, Expr.parts, Part.decl, Part.member, Part.stmt,
      Part.value]
  rw [found] at names
  exact ⟨result, runs, names.trans (by decide)⟩

end Lowering.Escaping

end ScriptSharp
