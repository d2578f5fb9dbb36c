import Mathlib.Data.List.Basic

/-!
# Skeletons of statements

What is left of statements when everything that stands on one line is forgotten: their kinds, their
order and how they are nested. A skeleton is laid out as entries and groups, and these as marks,
one for each line. `Skeleton.ofMarks?` goes the other way: braces are matched from the end, and an
`else` is held until the `if` in front of it comes. It gives back every skeleton that was laid out.
-/

namespace ScriptSharp.Emit

/-- A statement that stands on one line and ends in a semicolon. -/
inductive Simple where
  | declare
  | ret
  | throw
  | breakLoop
  | continueLoop
  | expr
  deriving DecidableEq, Repr

/-- What a line with no brace on it says. -/
inductive Entry where
  | simple (kind : Simple)
  | ifHead
  | elseIfHead
  | elseHead
  | whileHead
  | forHead
  | forEachHead
  deriving DecidableEq, Repr

/-- What a line says. -/
inductive Mark where
  | opening
  | closing
  | entry (entry : Entry)
  deriving DecidableEq, Repr

/-- Entries, with what stands between two braces put together. -/
inductive Piece where
  | entry (entry : Entry)
  | group (pieces : List Piece)

/-- The kind of a statement, with the statements inside it. -/
inductive Skeleton where
  | simple (kind : Simple)
  | branch (thenBody : List Skeleton) (elseBody : Option (List Skeleton))
  | whileLoop (body : List Skeleton)
  | forLoop (body : List Skeleton)
  | forEach (body : List Skeleton)
  | block (body : List Skeleton)

/-! ## Matching braces -/

namespace Piece

mutual
/-- The marks of a piece. -/
def marks : Piece → List Mark
  | .entry said => [.entry said]
  | .group pieces => .opening :: (marksAll pieces ++ [.closing])

/-- The marks of pieces. -/
def marksAll : List Piece → List Mark
  | [] => []
  | first :: rest => first.marks ++ marksAll rest
end

/-- The marks of two lists of pieces are those of one and then of the other. -/
theorem marksAll_append (first second : List Piece) :
    marksAll (first ++ second) = marksAll first ++ marksAll second := by
  induction first with
  | nil => rfl
  | cons piece rest inductionHypothesis => simp [marksAll, inductionHypothesis]

/-- Puts a mark in front of what was gathered behind it. There is a list of pieces for each brace
that is closed behind the mark and not opened yet, the innermost first. -/
def gather (mark : Mark) (levels : Option (List (List Piece))) : Option (List (List Piece)) :=
  match mark, levels with
  | .closing, some levels => some ([] :: levels)
  | .opening, some (inner :: outer :: levels) => some ((.group inner :: outer) :: levels)
  | .entry said, some (level :: levels) => some ((.entry said :: level) :: levels)
  | _, _ => none

/-- The pieces of marks, if all braces match. -/
def ofMarks? (marks : List Mark) : Option (List Piece) :=
  match marks.foldr gather (some [[]]) with
  | some [pieces] => some pieces
  | _ => none

mutual
/-- The marks of a piece are gathered into the piece. -/
theorem foldr_gather_marks (level : List Piece) (levels : List (List Piece)) :
    (piece : Piece) → piece.marks.foldr gather (some (level :: levels)) =
      some ((piece :: level) :: levels)
  | .entry _ => rfl
  | .group pieces => by
    simp only [marks, List.foldr_cons, List.foldr_append, List.foldr_nil]
    simp only [gather, foldr_gather_marksAll [] (level :: levels) pieces, List.append_nil]

/-- Gathering the marks of pieces puts the pieces before those of the innermost level. -/
theorem foldr_gather_marksAll (level : List Piece) (levels : List (List Piece)) :
    (pieces : List Piece) → (marksAll pieces).foldr gather (some (level :: levels)) =
      some ((pieces ++ level) :: levels)
  | [] => rfl
  | first :: rest => by
    rw [marksAll, List.foldr_append, foldr_gather_marksAll level levels rest,
      foldr_gather_marks (rest ++ level) levels first, List.cons_append]
end

/-- Pieces are read back from their marks. -/
theorem ofMarks?_marksAll (pieces : List Piece) : ofMarks? (marksAll pieces) = some pieces := by
  rw [ofMarks?, foldr_gather_marksAll, List.append_nil]

end Piece

/-! ## Attaching bodies and branches -/

namespace Skeleton

mutual
/-- The pieces of a statement. -/
def pieces : Skeleton → List Piece
  | .simple kind => [.entry (.simple kind)]
  | .branch thenBody elseBody =>
    .entry .ifHead :: .group (piecesAll thenBody) :: elsePieces elseBody
  | .whileLoop body => [.entry .whileHead, .group (piecesAll body)]
  | .forLoop body => [.entry .forHead, .group (piecesAll body)]
  | .forEach body => [.entry .forEachHead, .group (piecesAll body)]
  | .block body => [.group (piecesAll body)]

/-- The pieces of statements. -/
def piecesAll : List Skeleton → List Piece
  | [] => []
  | first :: rest => first.pieces ++ piecesAll rest

/-- The pieces of an `else` branch. A branch that consists of one `if` statement continues the chain
of conditions. -/
def elsePieces : Option (List Skeleton) → List Piece
  | none => []
  | some [.branch thenBody elseBody] =>
    .entry .elseIfHead :: .group (piecesAll thenBody) :: elsePieces elseBody
  | some body => [.entry .elseHead, .group (piecesAll body)]
end

/-- What pieces are read as: statements, and in front of them an `else` branch for the `if` that
comes before all of the pieces. -/
structure Reading where
  pending : Option (List Skeleton)
  stmts : List Skeleton

/-- The statements of a reading that begins with no `else`. -/
def Reading.complete? : Reading → Option (List Skeleton)
  | ⟨none, stmts⟩ => some stmts
  | ⟨some _, _⟩ => none

/-- Puts a statement in front of others. -/
def Reading.push (stmt : Skeleton) (reading : Reading) : Option Reading :=
  reading.complete?.map fun stmts => ⟨none, stmt :: stmts⟩

/-- Reads pieces as statements. -/
def read : List Piece → Option Reading
  | [] => some ⟨none, []⟩
  | .entry (.simple kind) :: rest => do (← read rest).push (.simple kind)
  | .entry .ifHead :: .group body :: rest => do
    let thenBody ← (← read body).complete?
    let behind ← read rest
    return ⟨none, .branch thenBody behind.pending :: behind.stmts⟩
  | .entry .elseIfHead :: .group body :: rest => do
    let thenBody ← (← read body).complete?
    let behind ← read rest
    return ⟨some [.branch thenBody behind.pending], behind.stmts⟩
  | .entry .elseHead :: .group body :: rest => do
    let elseBody ← (← read body).complete?
    let stmts ← (← read rest).complete?
    return ⟨some elseBody, stmts⟩
  | .entry .whileHead :: .group body :: rest => do
    let body ← (← read body).complete?
    (← read rest).push (.whileLoop body)
  | .entry .forHead :: .group body :: rest => do
    let body ← (← read body).complete?
    (← read rest).push (.forLoop body)
  | .entry .forEachHead :: .group body :: rest => do
    let body ← (← read body).complete?
    (← read rest).push (.forEach body)
  | .group body :: rest => do
    let body ← (← read body).complete?
    (← read rest).push (.block body)
  | .entry _ :: _ => none

/-- The statements that lines say, if their marks are those of statements. -/
def ofMarks? (marks : List Mark) : Option (List Skeleton) := do
  let pieces ← Piece.ofMarks? marks
  (← read pieces).complete?

mutual
/-- The pieces of a statement are read as the statement, in front of other statements. -/
theorem read_pieces {rest : List Piece} {stmts : List Skeleton}
    (readRest : read rest = some ⟨none, stmts⟩) :
    (stmt : Skeleton) → read (stmt.pieces ++ rest) = some ⟨none, stmt :: stmts⟩
  | .simple kind => by
    simp [pieces, read, readRest, Reading.push, Reading.complete?]
  | .branch thenBody elseBody => by
    simp [pieces, read, read_piecesAll thenBody, read_elsePieces readRest elseBody,
      Reading.complete?]
  | .whileLoop body | .forLoop body | .forEach body | .block body => by
    simp [pieces, read, read_piecesAll body, readRest, Reading.push, Reading.complete?]

/-- Statements are read back from their pieces. -/
theorem read_piecesAll :
    (stmts : List Skeleton) → read (piecesAll stmts) = some ⟨none, stmts⟩
  | [] => by simp [piecesAll, read]
  | first :: rest => read_pieces (read_piecesAll rest) first

/-- The pieces of an `else` branch are held for the `if` in front of them. -/
theorem read_elsePieces {rest : List Piece} {stmts : List Skeleton}
    (readRest : read rest = some ⟨none, stmts⟩) :
    (elseBody : Option (List Skeleton)) →
      read (elsePieces elseBody ++ rest) = some ⟨elseBody, stmts⟩
  | none => readRest
  | some [.branch thenBody elseBody] => by
    simp [elsePieces, read, read_piecesAll thenBody, read_elsePieces readRest elseBody,
      Reading.complete?]
  | some [] | some [.simple _] | some [.whileLoop _] | some [.forLoop _] | some [.forEach _]
  | some [.block _] | some (_ :: _ :: _) => by
    simp [elsePieces, read, read_piecesAll, readRest, Reading.complete?]
end

/-- Statements are recovered from their marks. -/
theorem ofMarks?_marks (stmts : List Skeleton) :
    ofMarks? (Piece.marksAll (piecesAll stmts)) = some stmts := by
  simp [ofMarks?, Piece.ofMarks?_marksAll, read_piecesAll, Reading.complete?]

end Skeleton

end ScriptSharp.Emit
