import Mathlib.Data.List.Forall2
import ScriptSharp.Emit.Unit
import ScriptSharp.Proofs.Reading.Skeleton

/-!
# Reading lines

A reader of emitted statements looks at one line at a time. Braces and `else` stand alone, a line
that ends in a parenthesis is the head of a control statement, and a line that ends in a semicolon
is a statement by itself. Such a statement begins with a word that says what it is, or with a type
and a name, or it is an expression. `Skeleton.read?` reads a whole text.
-/

namespace ScriptSharp.Emit

/-! ## Characters -/

/-- The characters of names. All characters outside of ASCII are taken for letters. -/
def isNameChar (character : Char) : Bool :=
  character.isAlphanum || character == '_' || decide (128 ≤ character.toNat)

/-- The characters that a name begins with. -/
def isNameStart (character : Char) : Bool :=
  isNameChar character && !character.isDigit

/-- The characters that a name begins with when it is written. -/
def opensName (character : Char) : Bool :=
  isNameStart character || character == '@'

/-! ## Statements on one line -/

/-- The characters of qualified names. -/
def isWordChar (character : Char) : Bool :=
  isNameChar character || character == '.' || character == '@'

/-- How many angle brackets are open behind a character of a type, if it is one. `depth` are open in
front of it, and `next` follows it. Commas and blanks stand between angle brackets only, and square
brackets are empty. -/
def typeStep (depth : Nat) (character : Char) (next : Option Char) : Option Nat :=
  if isWordChar character || character == ']' then some depth
  else if character == '[' then if next == some ']' then some depth else none
  else if character == '<' then some (depth + 1)
  else if depth = 0 then none
  else if character == '>' then some (depth - 1)
  else if character == ',' || character == ' ' then some depth
  else none

/-- The longest front of a line that looks like a type, and what follows it. -/
def front (depth : Nat) : List Char → List Char × List Char
  | [] => ([], [])
  | character :: rest =>
    (typeStep depth character rest.head?).elim ([], character :: rest) fun inner =>
      (character :: (front inner rest).1, (front inner rest).2)

/-- A name follows after a blank. The operator `as` is none. -/
def nameFollows : List Char → Bool
  | ' ' :: rest => rest.head?.any opensName && rest.takeWhile isNameChar != "as".toList
  | _ => false

/-- The words that statements begin with. A statement that begins with `new` is an expression. -/
def statementWords : List (List Char × Simple) :=
  [("break".toList, .breakLoop), ("continue".toList, .continueLoop), ("return".toList, .ret),
   ("throw".toList, .throw), ("new".toList, .expr)]

/-- The kind of the statement on a line. -/
def Simple.ofLine (line : List Char) : Simple :=
  if line.head?.any opensName then
    match statementWords.lookup (front 0 line).1 with
    | some kind => kind
    | none => if nameFollows (front 0 line).2 then .declare else .expr
  else .expr

/-! ## Lines -/

/-- The heads of control statements. -/
def headers : List (List Char × Entry) :=
  [("if (".toList, .ifHead), ("else if (".toList, .elseIfHead), ("while (".toList, .whileHead),
   ("for (".toList, .forHead), ("foreach (".toList, .forEachHead)]

/-- What a line says. -/
def Mark.ofLine (line : List Char) : Option Mark :=
  if line = "\x7b".toList then some .opening
  else if line = "\x7d".toList then some .closing
  else if line = "else".toList then some (.entry .elseHead)
  else if line.getLast? = some ';' then some (.entry (.simple (.ofLine line)))
  else if line.getLast? = some ')' then
    (headers.find? (·.1.isPrefixOf line)).map fun header => .entry header.2
  else none

/-- Texts that end in different characters differ. -/
theorem ne_of_getLast? {line word : List Char} {last : Char} (ends : line.getLast? = some last)
    (differs : word.getLast? ≠ some last) : line ≠ word := by
  rintro rfl
  exact differs ends

/-- A line that ends in a semicolon is a statement by itself. -/
theorem Mark.ofLine_semicolon (body : List Char) :
    Mark.ofLine (body ++ [';']) = some (.entry (.simple (.ofLine (body ++ [';'])))) := by
  have ends : (body ++ [';']).getLast? = some ';' := List.getLast?_concat
  rw [Mark.ofLine, if_neg (ne_of_getLast? ends (by decide)),
    if_neg (ne_of_getLast? ends (by decide)), if_neg (ne_of_getLast? ends (by decide)), if_pos ends]

/-- No head of a control statement begins like another one. -/
theorem Mark.ofLine_header {header : List Char} {said : Entry}
    (isHeader : (header, said) ∈ headers) (body : List Char) :
    Mark.ofLine (header ++ (body ++ [')'])) = some (.entry said) := by
  have ends : (header ++ (body ++ [')'])).getLast? = some ')' := by simp
  have found : headers.find? (·.1.isPrefixOf (header ++ (body ++ [')']))) =
      some (header, said) := by
    simp only [headers, List.mem_cons, Prod.mk.injEq, List.not_mem_nil, or_false] at isHeader
    rcases isHeader with ⟨rfl, rfl⟩ | ⟨rfl, rfl⟩ | ⟨rfl, rfl⟩ | ⟨rfl, rfl⟩ | ⟨rfl, rfl⟩ <;> rfl
  rw [Mark.ofLine, if_neg (ne_of_getLast? ends (by decide)),
    if_neg (ne_of_getLast? ends (by decide)), if_neg (ne_of_getLast? ends (by decide)), ends,
    if_neg (by decide), if_pos rfl, found]
  rfl

/-- The lines of a text, without the blanks in front of them. -/
def linesOf (text : String) : List (List Char) :=
  (text.toList.splitOn '\n').map (List.dropWhile (· == ' '))

/-- The statements that a text says. -/
def Skeleton.read? (text : String) : Option (List Skeleton) := do
  let marks ← (linesOf text).mapM Mark.ofLine
  Skeleton.ofMarks? marks

/-- The line says what the mark says, and it stays one line when it is written. -/
structure Line.Shows (line : Line) (mark : Mark) : Prop where
  unbroken : '\n' ∉ line.text.toList
  flush : line.text.toList.head? ≠ some ' '
  marked : Mark.ofLine line.text.toList = some mark

/-- Without its indentation a line is its text. -/
theorem dropWhile_indentation {characters : List Char} (flush : characters.head? ≠ some ' ')
    (count : Nat) :
    (List.replicate count ' ' ++ characters).dropWhile (· == ' ') = characters := by
  have blanks : (List.replicate count ' ').dropWhile (· == ' ') = [] := by simp
  rw [List.dropWhile_append, blanks, List.isEmpty_nil, if_pos rfl]
  cases characters with
  | nil => rfl
  | cons first rest =>
    have written : ¬(first == ' ') = true := by simpa using flush
    rw [List.dropWhile_cons, if_neg written]

/-- A line is printed as its indentation and its text. -/
theorem Line.toList_render (width : Nat) (line : Line) :
    (line.render width).toList = List.replicate (width * line.depth) ' ' ++ line.text.toList := by
  simp [Line.render, Line.indentation]

/-- The lines of the text of lines are the lines. -/
theorem linesOf_text {lines : List Line} (present : lines ≠ []) (width : Nat)
    (unbroken : ∀ line ∈ lines, '\n' ∉ line.text.toList)
    (flush : ∀ line ∈ lines, line.text.toList.head? ≠ some ' ') :
    linesOf (text width lines) = lines.map (·.text.toList) := by
  have apart : ∀ characters ∈ (lines.map (Line.render width)).map String.toList,
      '\n' ∉ characters := by
    simp only [List.map_map, List.forall_mem_map, Function.comp_apply, Line.toList_render,
      List.mem_append, List.mem_replicate]
    rintro line member (⟨-, isBlank⟩ | inside)
    · cases isBlank
    · exact unbroken line member inside
  have separator : "\n".toList = ['\n'] := rfl
  rw [linesOf, text, String.toList_intercalate, separator,
    List.splitOn_intercalate '\n' apart (by simpa using present), List.map_map, List.map_map]
  refine List.map_congr_left fun line member => ?_
  simp only [Function.comp_apply, Line.toList_render]
  exact dropWhile_indentation (flush line member) _

/-- Lines that show marks have no line feeds and no indentation of their own, and are read as the
marks. -/
theorem Line.shows_all {lines : List Line} {marks : List Mark}
    (shown : List.Forall₂ Line.Shows lines marks) :
    (∀ line ∈ lines, '\n' ∉ line.text.toList ∧ line.text.toList.head? ≠ some ' ') ∧
      (lines.map (·.text.toList)).mapM Mark.ofLine = some marks := by
  induction shown with
  | nil => exact ⟨nofun, rfl⟩
  | cons first _ inductionHypothesis =>
    obtain ⟨written, marked⟩ := inductionHypothesis
    refine ⟨List.forall_mem_cons.2 ⟨⟨first.unbroken, first.flush⟩, written⟩, ?_⟩
    simp [first.marked, marked]

/-- The lines show what the pieces say. -/
def Shown (lines : List Line) (pieces : List Piece) : Prop :=
  List.Forall₂ Line.Shows lines (Piece.marksAll pieces)

/-- A text whose lines show statements says these statements. -/
theorem Skeleton.read?_text {lines : List Line} {stmts : List Skeleton} (width : Nat)
    (shown : Shown lines (Skeleton.piecesAll stmts))
    (present : lines ≠ []) : Skeleton.read? (text width lines) = some stmts := by
  obtain ⟨written, marked⟩ := Line.shows_all shown
  rw [Skeleton.read?, linesOf_text present width (fun line member => (written line member).1)
    (fun line member => (written line member).2), marked]
  exact Skeleton.ofMarks?_marks stmts

end ScriptSharp.Emit
