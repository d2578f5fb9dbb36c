import ScriptSharp.Proofs.Reading.Phrases

/-!
# Emitted statements keep their structure

The kinds of emitted statements, their order and how they are nested can be read back from the
lines: `Printer.block_readBack`. Each line shows the mark that the skeleton of its statement has
there, and braces stand where the skeleton has a group.
-/

namespace ScriptSharp.Emit

open Node

/-! ## Skeletons of statements -/

namespace Skeleton

mutual
/-- The skeleton of a statement. -/
def ofStmt : Stmt → Skeleton
  | .expr _ => .simple .expr
  | .declare .. => .simple .declare
  | .branch _ thenBody elseBody => .branch (ofStmts thenBody) (ofElse elseBody)
  | .whileLoop _ body => .whileLoop (ofStmts body)
  | .forLoop _ _ _ body => .forLoop (ofStmts body)
  | .forEach _ _ _ body => .forEach (ofStmts body)
  | .ret .. => .simple .ret
  | .throw _ => .simple .throw
  | .breakLoop => .simple .breakLoop
  | .continueLoop => .simple .continueLoop
  | .block body => .block (ofStmts body)

/-- The skeletons of statements. -/
def ofStmts : List Stmt → List Skeleton
  | [] => []
  | first :: rest => ofStmt first :: ofStmts rest

/-- The skeletons of the statements of an `else` branch. -/
def ofElse : Option (List Stmt) → Option (List Skeleton)
  | none => none
  | some body => some (ofStmts body)
end

/-- Only an `if` statement has the skeleton of one. -/
theorem exists_branch_of_ofStmts {stmts : List Stmt} {thenBody : List Skeleton}
    {elseBody : Option (List Skeleton)} (single : ofStmts stmts = [.branch thenBody elseBody]) :
    ∃ condition thenStmts elseStmts, stmts = [.branch condition thenStmts elseStmts] := by
  match stmts, single with
  | [.branch condition thenStmts elseStmts], _ => exact ⟨condition, thenStmts, elseStmts, rfl⟩

end Skeleton

/-! ## Lines -/

namespace Line

variable {line : Line} {body : List Char}

/-- A word alone on its line shows its mark. -/
theorem shows_word {depth : Nat} {word : String} {mark : Mark} (unbroken : '\n' ∉ word.toList)
    (flush : word.toList.head? ≠ some ' ') (marked : Mark.ofLine word.toList = some mark) :
    Line.Shows ⟨depth, word⟩ mark :=
  ⟨unbroken, flush, marked⟩

/-- A line that ends in a semicolon is a statement by itself. -/
theorem shows_simple {kind : Simple} (spelled : line.text.toList = body ++ [';'])
    (flat : Flat body) (isKind : Simple.ofLine (body ++ [';']) = kind) :
    line.Shows (.entry (.simple kind)) where
  unbroken := by
    rw [spelled]
    simpa using flat.unbroken
  flush := by
    obtain ⟨first, rest, rfl, notBlank, -⟩ := flat.begins
    rw [spelled]
    simpa using notBlank
  marked := by rw [spelled, Mark.ofLine_semicolon, isKind]

/-- A line that begins like the head of a control statement and ends in a parenthesis is one. -/
theorem shows_header {depth : Nat} {header body : String} {said : Entry}
    (isHeader : (header.toList, said) ∈ headers) (unbroken : '\n' ∉ body.toList) :
    Line.Shows ⟨depth, header ++ body ++ ")"⟩ (.entry said) := by
  have spelled : (header ++ body ++ ")").toList = header.toList ++ (body.toList ++ [')']) := by simp
  have each : ∀ header ∈ headers, '\n' ∉ header.1 ∧ header.1 ≠ [] ∧ header.1.head? ≠ some ' ' := by
    decide
  obtain ⟨unbrokenHeader, present, flush⟩ := each _ isHeader
  refine shows_word ?_ ?_ ?_
  · rw [spelled]
    simpa using ⟨unbrokenHeader, unbroken⟩
  · rwa [spelled, List.head?_append_of_ne_nil _ present]
  · rw [spelled, Mark.ofLine_header isHeader]

end Line

namespace Shown

variable {line : Line} {lines others : List Line} {pieces behind : List Piece} {said : Entry}

/-- No lines show nothing. -/
theorem empty : Shown [] [] := List.Forall₂.nil

/-- A line that shows an entry shows that entry alone. -/
theorem single (shows : line.Shows (.entry said)) : Shown [line] [.entry said] :=
  List.Forall₂.cons shows .nil

/-- Lines in a row show what both parts show. -/
theorem append (first : Shown lines pieces) (second : Shown others behind) :
    Shown (lines ++ others) (pieces ++ behind) := by
  rw [Shown, Piece.marksAll_append]
  exact List.rel_append first second

/-- Lines in braces show a group. -/
theorem braced (depth : Nat) (inside : Shown lines pieces) :
    Shown (Emit.braced depth lines) [.group pieces] := by
  have opening : Line.Shows ⟨depth, "\x7b"⟩ .opening :=
    Line.shows_word (by decide) (by decide) rfl
  have closing : Line.Shows ⟨depth, "\x7d"⟩ .closing :=
    Line.shows_word (by decide) (by decide) rfl
  have whole := List.Forall₂.cons opening (List.rel_append inside (.cons closing .nil))
  simpa [Shown, Piece.marksAll, Piece.marks, Emit.braced] using whole

/-- A head with a body behind it. -/
theorem headed (depth : Nat) (shows : line.Shows (.entry said)) (inside : Shown lines pieces) :
    Shown (line :: Emit.braced depth lines) [.entry said, .group pieces] :=
  (single shows).append (inside.braced depth)

end Shown

/-! ## Statements -/

/-- A statement of a list is among the parts that the list gives. -/
theorem mem_stmts {stmt : Stmt} {stmts : List Stmt} (member : stmt ∈ stmts) :
    Node.stmt stmt ∈ (stmts.map Part.stmt).map (·.2) :=
  List.mem_map_of_mem (List.mem_map_of_mem member)

section Parts

variable {holds : Node → Prop}

/-- What is true throughout a node is true of its values that may be absent. -/
theorem throughout_optional {node : Node} {value : Option Expr} (everywhere : Throughout holds node)
    (below : ∀ expr ∈ value.toList, Node.expr expr ∈ node.children) :
    ∀ expr ∈ value, Throughout holds (.expr expr) := fun expr member =>
  everywhere.inside (below expr (Option.mem_toList.2 member))

/-- What is true of the parts of a branch is true of its condition and of both bodies. -/
theorem forall_parts_branch {condition : Expr} {thenBody : List Stmt}
    {elseBody : Option (List Stmt)}
    (below : ∀ child ∈ children (.stmt (.branch condition thenBody elseBody)), holds child) :
    holds (.expr condition) ∧ (∀ stmt ∈ thenBody, holds (.stmt stmt)) ∧
      ∀ stmt ∈ elseBody.getD [], holds (.stmt stmt) := by
  simp only [children, parts, Stmt.parts, List.map_cons, List.map_append, List.forall_mem_cons,
    List.forall_mem_append] at below
  obtain ⟨ofCondition, ofThen, ofElse⟩ := below
  exact ⟨ofCondition, fun _ member => ofThen _ (mem_stmts member),
    fun _ member => ofElse _ (mem_stmts member)⟩

/-- What is true of the parts of a `for` loop is true of its head and of its body. -/
theorem forall_parts_forLoop {init body : List Stmt} {condition : Option Expr} {step : List Expr}
    (below : ∀ child ∈ children (.stmt (.forLoop init condition step body)), holds child) :
    (∀ stmt ∈ init, holds (.stmt stmt)) ∧ (∀ expr ∈ condition, holds (.expr expr)) ∧
      (∀ expr ∈ step, holds (.expr expr)) ∧ ∀ stmt ∈ body, holds (.stmt stmt) := by
  simp only [children, parts, Stmt.parts, List.map_append, List.forall_mem_append] at below
  obtain ⟨ofInit, ofCondition, ofStep, ofBody⟩ := below
  exact ⟨fun _ member => ofInit _ (mem_stmts member),
    fun _ member => ofCondition _ (mem_values (Option.mem_toList.2 member)),
    fun _ member => ofStep _ (mem_values member), fun _ member => ofBody _ (mem_stmts member)⟩

end Parts

namespace Printer

variable {printer : Printer} {depth : Nat}

/-- The head of a control statement with a condition. -/
theorem shows_condition {header : String} {said : Entry} {condition : Expr} {code : Code}
    (isHeader : (header.toList, said) ∈ headers)
    (tidy : Throughout (Tidy printer.names) (.expr condition))
    (emitted : printer.expr depth condition = .ok code) :
    Line.Shows ⟨depth, header ++ code.text ++ ")"⟩ (.entry said) :=
  Line.shows_header isHeader (written_expr condition code tidy emitted).unbroken

/-- A value that may be absent stands on one line. -/
theorem unbroken_optional (value : Option Expr) (text : Option String)
    (tidy : ∀ expr ∈ value, Throughout (Tidy printer.names) (.expr expr))
    (emitted : printer.optional depth value = .ok text) :
    ∀ present ∈ text, '\n' ∉ present.toList := by
  cases value with
  | none =>
    simp only [Printer.optional, pure_eq_ok] at emitted
    subst emitted
    simp
  | some expr =>
    simp only [Printer.optional, bind_eq_ok, pure_eq_ok] at emitted
    obtain ⟨code, emittedExpr, rfl⟩ := emitted
    rintro _ ⟨⟩
    exact (written_expr expr code (tidy expr rfl) emittedExpr).unbroken

/-- A declaration stands on one line, and it is read as one. -/
theorem declaration {ty : String} {name : Ident} {init : Option String}
    (namelike : Namelike ty.toList) (wellFormed : WellFormed name)
    (unbroken : ∀ text ∈ init, '\n' ∉ text.toList) :
    Flat (declarationText ty name init).toList ∧
      Simple.ofLine ((declarationText ty name init).toList ++ [';']) = .declare := by
  -- Whatever follows the name ends it, so that the name is not taken for a longer one.
  have spelled : ∃ rest, (declarationText ty name init).toList =
      ty.toList ++ ' ' :: (name.render.toList ++ rest) ∧ '\n' ∉ rest ∧
        ∀ character ∈ (rest ++ [';']).head?, isNameChar character = false := by
    cases init with
    | none => exact ⟨[], by simp [declarationText], by simp, by simp; rfl⟩
    | some text =>
      exact ⟨" = ".toList ++ text.toList, by simp [declarationText],
        by simpa using unbroken text rfl, by simp; rfl⟩
  obtain ⟨rest, spelled, unbrokenRest, ends⟩ := spelled
  rw [spelled]
  constructor
  · refine namelike.written.toFlat.append ?_
    simpa using ⟨wellFormed.namelike.unbroken, unbrokenRest⟩
  · have named := namelike.declares (wellFormed.nameFollows ends)
    simpa using named

/-- The initializers of a loop stand on one line. -/
theorem unbroken_initializers (stmts : List Stmt) (texts : List String)
    (tidy : ∀ stmt ∈ stmts, Throughout (Tidy printer.names) (.stmt stmt))
    (emitted : printer.initializers depth stmts = .ok texts) :
    ∀ text ∈ texts, '\n' ∉ text.toList := by
  induction stmts generalizing texts with
  | nil =>
    simp only [Printer.initializers, pure_eq_ok] at emitted
    subst emitted
    simp
  | cons first rest inductionHypothesis =>
    obtain ⟨tidyFirst, tidyRest⟩ := List.forall_mem_cons.1 tidy
    cases first with
    | declare name declared ty init =>
      simp only [Printer.initializers, bind_eq_ok, pure_eq_ok] at emitted
      obtain ⟨typeText, rendered, initText, emittedInit, others, emittedRest, rfl⟩ := emitted
      have unbroken := unbroken_optional init initText
        (throughout_optional tidyFirst fun _ => mem_values) emittedInit
      have namelike := namelike_render _ typeText tidyFirst.here.types rendered
      have flat := (declaration namelike (tidyFirst.here.idents name (.head _)) unbroken).1
      exact List.forall_mem_cons.2 ⟨flat.unbroken, inductionHypothesis others tidyRest emittedRest⟩
    | expr value =>
      simp only [Printer.initializers, bind_eq_ok, pure_eq_ok] at emitted
      obtain ⟨code, emittedValue, others, emittedRest, rfl⟩ := emitted
      have written := written_expr value code (tidyFirst.inside (.head _)) emittedValue
      exact List.forall_mem_cons.2
        ⟨written.unbroken, inductionHypothesis others tidyRest emittedRest⟩
    | _ => cases emitted

/-- The head of a `for` loop stands on one line. -/
theorem unbroken_forHead {texts : List String} {condition : Option String} {codes : List Code}
    (init : ∀ text ∈ texts, '\n' ∉ text.toList) (present : ∀ text ∈ condition, '\n' ∉ text.toList)
    (step : ∀ code ∈ codes, Flat code.characters) :
    '\n' ∉ (", ".intercalate texts ++ ("; " ++ (condition.getD "" ++ ("; " ++
      (Code.commaSeparated codes).text)))).toList := by
  have unbrokenInit : '\n' ∉ (", ".intercalate texts).toList := by
    rw [String.toList_intercalate]
    exact unbroken_intercalate (by decide) (by simpa using init)
  have unbrokenCondition : '\n' ∉ (condition.getD "").toList := by
    cases condition with
    | none => simp
    | some text => exact present text rfl
  simp only [String.toList_append, List.mem_append, not_or]
  exact ⟨unbrokenInit, by decide, unbrokenCondition, by decide, unbroken_list step⟩

/-- An `else` branch that is not one `if` statement. -/
theorem shown_else {body : List Stmt} {lines : List Line}
    (several : ∀ condition thenBody elseBody, body ≠ [.branch condition thenBody elseBody])
    (emitted : printer.elseLines depth (some body) = .ok lines)
    (inside : ∀ lines, printer.stmts (depth + 1) body = .ok lines →
      Shown lines (Skeleton.piecesAll (Skeleton.ofStmts body))) :
    Shown lines (Skeleton.elsePieces (Skeleton.ofElse (some body))) := by
  have separate : ∀ thenBody elseBody, Skeleton.ofStmts body ≠ [.branch thenBody elseBody] := by
    intro _ _ single
    obtain ⟨condition, thenBody, elseBody, same⟩ := Skeleton.exists_branch_of_ofStmts single
    exact several condition thenBody elseBody same
  rw [elseLines_of_not_branch printer several] at emitted
  simp only [bind_eq_ok, pure_eq_ok] at emitted
  obtain ⟨bodyLines, emittedBody, rfl⟩ := emitted
  have head : Line.Shows ⟨depth, "else"⟩ (.entry .elseHead) :=
    Line.shows_word (by decide) (by decide) rfl
  rw [Skeleton.ofElse, Skeleton.elsePieces]
  · exact .headed depth head (inside bodyLines emittedBody)
  · exact separate

mutual
/-- The lines of a statement show its skeleton. -/
theorem shown_stmt (depth : Nat) : (stmt : Stmt) → (lines : List Line) →
    Throughout (Tidy printer.names) (.stmt stmt) → printer.stmt depth stmt = .ok lines →
      Shown lines (Skeleton.ofStmt stmt).pieces
  | .expr value, _, tidy, emitted => by
    simp only [Printer.stmt, bind_eq_ok, pure_eq_ok] at emitted
    obtain ⟨code, emittedValue, rfl⟩ := emitted
    have written := written_expr value code (tidy.inside (.head _)) emittedValue
    have isExpr := written.isExpr [';'] (quiet_of_stop rfl rfl rfl)
    exact .single (Line.shows_simple (by simp [Code.characters]) written.toFlat isExpr)
  | .declare name declared ty init _, _, tidy, emitted => by
    simp only [Printer.stmt, bind_eq_ok, pure_eq_ok] at emitted
    obtain ⟨typeText, rendered, initText, emittedInit, rfl⟩ := emitted
    have unbroken := unbroken_optional init initText
      (throughout_optional tidy fun _ => mem_values) emittedInit
    have namelike := namelike_render _ typeText tidy.here.types rendered
    obtain ⟨flat, isDeclaration⟩ :=
      declaration namelike (tidy.here.idents name (.head _)) unbroken
    exact .single (Line.shows_simple (by simp) flat isDeclaration)
  | .branch condition thenBody elseBody, _, tidy, emitted => by
    simp only [Printer.stmt, bind_eq_ok, pure_eq_ok] at emitted
    obtain ⟨code, emittedCondition, thenLines, emittedThen, elseLines, emittedElse, rfl⟩ := emitted
    obtain ⟨tidyCondition, tidyThen, tidyElse⟩ := forall_parts_branch fun _ => tidy.inside
    -- The lines of a branch are its head, its body, and what stands behind `else`.
    have head : Line.Shows ⟨depth, "if (" ++ code.text ++ ")"⟩ (.entry .ifHead) :=
      shows_condition (by decide) tidyCondition emittedCondition
    have shownThen := shown_stmts (depth + 1) thenBody thenLines tidyThen emittedThen
    have shownElse := shown_elseLines depth elseBody elseLines tidyElse emittedElse
    exact (Shown.headed depth head shownThen).append shownElse
  | .whileLoop condition body, _, tidy, emitted => by
    simp only [Printer.stmt, bind_eq_ok, pure_eq_ok] at emitted
    obtain ⟨code, emittedCondition, bodyLines, emittedBody, rfl⟩ := emitted
    have head : Line.Shows ⟨depth, "while (" ++ code.text ++ ")"⟩ (.entry .whileHead) :=
      shows_condition (by decide) (tidy.inside (.head _)) emittedCondition
    exact .headed depth head (shown_stmts (depth + 1) body bodyLines
      (fun _ member => tidy.inside (.tail _ (mem_stmts member))) emittedBody)
  | .forLoop init condition step body, _, tidy, emitted => by
    simp only [Printer.stmt, bind_eq_ok, pure_eq_ok] at emitted
    obtain ⟨texts, emittedInit, text, emittedCondition, codes, emittedStep, bodyLines, emittedBody,
      rfl⟩ := emitted
    obtain ⟨tidyInit, tidyCondition, tidyStep, tidyBody⟩ :=
      forall_parts_forLoop fun _ => tidy.inside
    have unbroken := unbroken_forHead
      (unbroken_initializers init texts tidyInit emittedInit)
      (unbroken_optional condition text tidyCondition emittedCondition)
      (flat_args step codes tidyStep emittedStep)
    have head : Line.Shows ⟨depth, "for (" ++ (", ".intercalate texts ++ ("; " ++ (text.getD "" ++
        ("; " ++ (Code.commaSeparated codes).text)))) ++ ")"⟩ (.entry .forHead) :=
      Line.shows_header (by decide) unbroken
    simp only [← String.append_assoc] at head
    exact .headed depth head (shown_stmts (depth + 1) body bodyLines tidyBody emittedBody)
  | .forEach item itemTy source body, _, tidy, emitted => by
    simp only [Printer.stmt, bind_eq_ok, pure_eq_ok] at emitted
    obtain ⟨typeText, rendered, code, emittedSource, bodyLines, emittedBody, rfl⟩ := emitted
    have namelike := namelike_render itemTy typeText tidy.here.types rendered
    have wellFormed := tidy.here.idents item (.head _)
    have written := written_expr source code (tidy.inside (.head _)) emittedSource
    have unbroken :
        '\n' ∉ (typeText ++ (" " ++ (item.render ++ (" in " ++ code.text)))).toList := by
      simpa using ⟨namelike.unbroken, wellFormed.namelike.unbroken, written.unbroken⟩
    have head : Line.Shows ⟨depth, "foreach (" ++ (typeText ++ (" " ++ (item.render ++
        (" in " ++ code.text)))) ++ ")"⟩ (.entry .forEachHead) :=
      Line.shows_header (by decide) unbroken
    simp only [← String.append_assoc] at head
    exact .headed depth head (shown_stmts (depth + 1) body bodyLines
      (fun _ member => tidy.inside (.tail _ (mem_stmts member))) emittedBody)
  | .ret value _, _, tidy, emitted => by
    simp only [Printer.stmt, bind_eq_ok, pure_eq_ok] at emitted
    obtain ⟨text, emittedValue, rfl⟩ := emitted
    have unbroken := unbroken_optional value text
      (throughout_optional tidy fun _ => mem_values) emittedValue
    cases text with
    | none => exact .single (Line.shows_word (by decide) (by decide) rfl)
    | some text =>
      have flat : Flat ("return ".toList ++ text.toList) :=
        ⟨by simpa using unbroken text rfl, _, _, rfl, by decide, by decide⟩
      exact .single (Line.shows_simple (by simp) flat rfl)
  | .throw value, _, tidy, emitted => by
    simp only [Printer.stmt, bind_eq_ok, pure_eq_ok] at emitted
    obtain ⟨code, emittedValue, rfl⟩ := emitted
    have written := written_expr value code (tidy.inside (.head _)) emittedValue
    have flat : Flat ("throw ".toList ++ code.characters) :=
      ⟨by simpa using written.unbroken, _, _, rfl, by decide, by decide⟩
    exact .single (Line.shows_simple (by simp [Code.characters]) flat rfl)
  | .breakLoop, _, _, emitted | .continueLoop, _, _, emitted => by
    simp only [Printer.stmt, pure_eq_ok] at emitted
    subst emitted
    exact .single (Line.shows_word (by decide) (by decide) rfl)
  | .block body, _, tidy, emitted => by
    simp only [Printer.stmt, bind_eq_ok, pure_eq_ok] at emitted
    obtain ⟨bodyLines, emittedBody, rfl⟩ := emitted
    exact .braced depth (shown_stmts (depth + 1) body bodyLines
      (fun _ member => tidy.inside (mem_stmts member)) emittedBody)

/-- The lines of statements show the pieces of each. -/
theorem shown_stmts (depth : Nat) : (stmts : List Stmt) → (lines : List Line) →
    (∀ stmt ∈ stmts, Throughout (Tidy printer.names) (.stmt stmt)) →
      printer.stmts depth stmts = .ok lines →
        Shown lines (Skeleton.piecesAll (Skeleton.ofStmts stmts))
  | [], _, _, emitted => by
    simp only [Printer.stmts, pure_eq_ok] at emitted
    subst emitted
    exact .empty
  | first :: rest, _, tidy, emitted => by
    simp only [Printer.stmts, bind_eq_ok, pure_eq_ok] at emitted
    obtain ⟨firstLines, emittedFirst, restLines, emittedRest, rfl⟩ := emitted
    obtain ⟨tidyFirst, tidyRest⟩ := List.forall_mem_cons.1 tidy
    exact (shown_stmt depth first firstLines tidyFirst emittedFirst).append
      (shown_stmts depth rest restLines tidyRest emittedRest)

/-- The lines of an `else` part show its pieces. -/
theorem shown_elseLines (depth : Nat) : (elseBody : Option (List Stmt)) → (lines : List Line) →
    (∀ stmt ∈ elseBody.getD [], Throughout (Tidy printer.names) (.stmt stmt)) →
      printer.elseLines depth elseBody = .ok lines →
        Shown lines (Skeleton.elsePieces (Skeleton.ofElse elseBody))
  | none, _, _, emitted => by
    simp only [Printer.elseLines, pure_eq_ok] at emitted
    subst emitted
    exact .empty
  | some [.branch condition thenBody elseBody], _, tidy, emitted => by
    simp only [Printer.elseLines, bind_eq_ok, pure_eq_ok] at emitted
    obtain ⟨code, emittedCondition, thenLines, emittedThen, elseLines, emittedElse, rfl⟩ := emitted
    obtain ⟨tidyCondition, tidyThen, tidyElse⟩ :=
      forall_parts_branch fun _ => (tidy _ (.head _)).inside
    have head : Line.Shows ⟨depth, "else if (" ++ code.text ++ ")"⟩ (.entry .elseIfHead) :=
      shows_condition (by decide) tidyCondition emittedCondition
    have shownThen := shown_stmts (depth + 1) thenBody thenLines tidyThen emittedThen
    have shownElse := shown_elseLines depth elseBody elseLines tidyElse emittedElse
    exact (Shown.headed depth head shownThen).append shownElse
  -- Every other branch stands between braces of its own.
  | some [], _, tidy, emitted | some [.expr ..], _, tidy, emitted
  | some [.declare ..], _, tidy, emitted | some [.whileLoop ..], _, tidy, emitted
  | some [.forLoop ..], _, tidy, emitted | some [.forEach ..], _, tidy, emitted
  | some [.ret ..], _, tidy, emitted | some [.throw ..], _, tidy, emitted
  | some [.breakLoop], _, tidy, emitted | some [.continueLoop], _, tidy, emitted
  | some [.block ..], _, tidy, emitted | some (_ :: _ :: _), _, tidy, emitted =>
    shown_else nofun emitted fun lines emittedBody =>
      shown_stmts (depth + 1) _ lines tidy emittedBody
end

/-- The statements of an emitted block are read back from its text: their kinds, their order, and
how they are nested. -/
theorem block_readBack {body : List Stmt} {lines : List Line}
    (tidy : Throughout (Tidy printer.names) (.stmt (.block body)))
    (emitted : printer.stmt depth (.block body) = .ok lines) (width : Nat) :
    Skeleton.read? (text width lines) = some [.block (Skeleton.ofStmts body)] := by
  have shown : Shown lines (Skeleton.piecesAll [.block (Skeleton.ofStmts body)]) := by
    rw [Skeleton.piecesAll, Skeleton.piecesAll, List.append_nil]
    exact shown_stmt depth (.block body) lines tidy emitted
  have present : lines ≠ [] := by
    rintro rfl
    cases shown
  exact Skeleton.read?_text width shown present

end Printer

/-! A script that walks along its routes, with an `else` behind each of two nested `if`s, an empty
block and a block inside a block. -/

namespace Patrol

/-- A class of the program, and a generic one of a library. -/
def types : List TypeInfo :=
  [⟨"Route", none, .classType, none, [], []⟩,
   ⟨"Dictionary", some "System.Collections.Generic", .classType, none, [], []⟩]

/-- The unit imports nothing, so that the generic class is qualified. -/
def printer : Printer := ⟨⟨.ofTypes types, []⟩, 4⟩

/-- The body of a method. `event` is a reserved word. -/
def body : List Stmt :=
  let ready := Expr.localRef "ready" .bool
  let index := Expr.localRef "index" .int
  let event := Expr.ident (Expr.noteOf .object) ⟨"event", true⟩ .localVariable
  let limit := Expr.literal (Expr.noteOf .int) (.int (-3))
  let below := Expr.binary (Expr.noteOf .bool) .lt index limit
  let routes := Expr.member (Expr.noteOf (.array (.named 0))) event (.plain "routes")
    ⟨0, .field, false, none⟩
  [.declare ⟨"event", true⟩ none (.generic 1 [.string, .array (.named 0)]) none .unknown,
   .branch ready [.block []]
     (some [.branch below
       [.branch ready [.ret (some index) .unknown] (some [.throw event, .breakLoop])]
       (some [])]),
   .forLoop [.declare (.plain "index") (some .int) .int (some limit) .unknown] (some below)
     [.unary (Expr.noteOf .int) .postInc index] [.continueLoop],
   .forEach (.plain "route") (.named 0) routes
     [.whileLoop ready [.expr (.assign (Expr.noteOf .int) (some .add) index limit)]]]

end Patrol

/-- A block with every kind of nesting, read back from its text. -/
theorem block_readBack_patrol :
    Throughout (Tidy Patrol.printer.names) (.stmt (.block Patrol.body)) ∧
      ∃ lines, Patrol.printer.stmt 2 (.block Patrol.body) = .ok lines ∧
        Skeleton.read? (text 4 lines) = some [.block
          [.simple .declare,
           .branch [.block []]
             (some [.branch [.branch [.simple .ret] (some [.simple .throw, .simple .breakLoop])]
               (some [])]),
           .forLoop [.simple .continueLoop],
           .forEach [.whileLoop [.simple .expr]]]] := by
  have tidy : Throughout (Tidy Patrol.printer.names) (.stmt (.block Patrol.body)) :=
    .of_check 8 (by decide +kernel)
  have emitted : ∃ lines, Patrol.printer.stmt 2 (.block Patrol.body) = .ok lines := ⟨_, rfl⟩
  obtain ⟨lines, emitted⟩ := emitted
  exact ⟨tidy, lines, emitted, Printer.block_readBack tidy emitted 4⟩

end ScriptSharp.Emit
