import Mathlib.Data.List.DropRight
import Mathlib.Data.List.TakeWhile
import ScriptSharp.Text.Blank
import ScriptSharp.Text.Lines

/-!
# How a text is cut

Trimming and splitting into lines, told by what the pieces put together give. A text is a first
piece, a line feed and the rest, or else one piece without a line feed; `lineInduct` is the
induction over these pieces.
-/

namespace ScriptSharp.Text

variable {text piece rest kept : List Char}

/-! ## Trimming -/

/-- A list is cut in front of the first item without a property. -/
theorem span_iff {α : Type} {holds : α → Bool} {items front back : List α} :
    (items.takeWhile holds = front ∧ items.dropWhile holds = back) ↔
      items = front ++ back ∧ (∀ item ∈ front, holds item = true) ∧
        ∀ item ∈ back.head?, holds item = false := by
  constructor
  · rintro ⟨rfl, rfl⟩
    refine ⟨List.takeWhile_append_dropWhile.symm, fun item => List.mem_takeWhile_imp, ?_⟩
    intro item isHead
    have fails := List.head?_dropWhile_not holds items
    rwa [Option.mem_def.1 isHead] at fails
  · rintro ⟨rfl, all, fails⟩
    rw [List.takeWhile_append_of_pos all, List.dropWhile_append_of_pos all]
    cases back with
    | nil => simp
    | cons first back => simp [fails first rfl]

/-- Trimming at the start takes off the blanks in front, and nothing else. -/
theorem trimStart_iff : trimStart text = kept ↔
    ∃ blanks, text = blanks ++ kept ∧ (∀ character ∈ blanks, isBlank character = true) ∧
      ∀ character ∈ kept.head?, isBlank character = false := by
  constructor
  · intro same
    exact ⟨_, span_iff.1 ⟨rfl, same⟩⟩
  · rintro ⟨blanks, cut⟩
    exact (span_iff.2 cut).2

/-- Trimming at the end takes off the blanks behind, and nothing else. -/
theorem trimEnd_iff : trimEnd text = kept ↔
    ∃ blanks, text = kept ++ blanks ∧ (∀ character ∈ blanks, isBlank character = true) ∧
      ∀ character ∈ kept.getLast?, isBlank character = false := by
  have mirrored : trimEnd text = kept ↔ trimStart text.reverse = kept.reverse := by
    rw [trimEnd, trimStart, List.reverse_eq_iff]
  rw [mirrored, trimStart_iff, List.reverse_surjective.exists]
  simp [List.reverse_eq_iff]

/-- What is left of a text without the blanks at both ends. -/
def Trimmed (text kept : List Char) : Prop :=
  ∃ front back, text = front ++ kept ++ back ∧ (∀ character ∈ front, isBlank character = true) ∧
    (∀ character ∈ back, isBlank character = true) ∧
    (∀ character ∈ kept.head?, isBlank character = false) ∧
    ∀ character ∈ kept.getLast?, isBlank character = false

/-- What trimming gives is the trimmed text. -/
theorem trim_iff : trim text = kept ↔ Trimmed text kept := by
  constructor
  · intro same
    obtain ⟨back, cutBack, blankBack, sharpEnd⟩ := trimEnd_iff.1 same
    obtain ⟨front, cutFront, blankFront, sharpStart⟩ := trimStart_iff.1 (rfl : trimStart text = _)
    rw [cutBack] at cutFront sharpStart
    refine ⟨front, back, by simpa using cutFront, blankFront, blankBack, ?_, sharpEnd⟩
    intro character isHead
    refine sharpStart character ?_
    rw [List.head?_append, Option.mem_def.1 isHead]
    rfl
  · rintro ⟨front, back, cut, blankFront, blankBack, sharpStart, sharpEnd⟩
    cases kept with
    | nil =>
      have allBlank : trimStart text = [] := by
        refine trimStart_iff.2 ⟨text, by simp, ?_, nofun⟩
        simpa [cut, or_imp, forall_and] using And.intro blankFront blankBack
      rw [trim, allBlank]
      rfl
    | cons first kept =>
      have start : trimStart text = (first :: kept) ++ back :=
        trimStart_iff.2 ⟨front, by simpa using cut, blankFront, sharpStart⟩
      rw [trim, start]
      exact trimEnd_iff.2 ⟨back, rfl, blankBack, sharpEnd⟩

/-! ## Lines -/

/-- A line in front of its line feed, without the carriage return that belongs to the line end. -/
def withoutReturn (piece : List Char) : List Char :=
  if piece.getLast? = some '\r' then piece.dropLast else piece

/-- A character that is no final carriage return stays. -/
theorem withoutReturn_cons {character : Char} (longer : character = '\r' → piece ≠ []) :
    withoutReturn (character :: piece) = character :: withoutReturn piece := by
  cases piece with
  | nil => simpa [withoutReturn] using longer
  | cons second piece =>
    simp only [withoutReturn, List.getLast?_cons_cons, List.dropLast_cons_cons]
    split_ifs <;> rfl

/-- A character that begins no line end belongs to the first line. -/
theorem lines_cons {character : Char} (plain : character ≠ '\n')
    (noEnd : character = '\r' → rest.head? ≠ some '\n') : lines (character :: rest) =
      (character :: (lines rest).head?.getD []) :: (lines rest).tail := by
  rw [lines.eq_def]
  split
  case h_1 absurdity => cases absurdity
  case h_2 lineFeed => exact absurd (List.cons.inj lineFeed).1 plain
  case h_3 lineEnd =>
    obtain ⟨isReturn, rfl⟩ := List.cons.inj lineEnd
    exact absurd rfl (noEnd isReturn)
  case h_4 same =>
    obtain ⟨rfl, rfl⟩ := List.cons.inj same
    cases lines rest <;> rfl

/-- The first line of a text ends at the first line feed. -/
theorem lines_append (plain : '\n' ∉ piece) :
    lines (piece ++ '\n' :: rest) = withoutReturn piece :: lines rest := by
  induction piece with
  | nil => exact lines_lineFeed rest
  | cons character piece inductionHypothesis =>
    obtain ⟨noLineFeed, plain⟩ := List.ne_and_not_mem_of_not_mem_cons plain
    by_cases isEnd : character = '\r' ∧ piece = []
    · obtain ⟨rfl, rfl⟩ := isEnd
      exact lines_carriageReturn rest
    · have longer : character = '\r' → piece ≠ [] := fun isReturn none => isEnd ⟨isReturn, none⟩
      rw [List.cons_append, lines_cons noLineFeed.symm, inductionHypothesis plain,
        withoutReturn_cons longer]
      · rfl
      · intro isReturn isHead
        cases piece with
        | nil => exact longer isReturn rfl
        | cons second piece =>
          obtain rfl := Option.some.inj isHead
          exact plain List.mem_cons_self

/-- A text without a line feed is one line, if it is not empty. -/
theorem lines_of_plain (plain : '\n' ∉ piece) :
    lines piece = if piece = [] then [] else [piece] := by
  induction piece with
  | nil => rfl
  | cons character piece inductionHypothesis =>
    obtain ⟨noLineFeed, plain⟩ := List.ne_and_not_mem_of_not_mem_cons plain
    rw [lines_cons noLineFeed.symm, inductionHypothesis plain]
    · cases piece <;> rfl
    · intro _ isHead
      exact plain (List.mem_of_mem_head? isHead)

/-- What holds of a text without line feeds, and passes from the rest of a text to the text with one
more line in front, holds of every text. -/
theorem lineInduct {motive : List Char → Prop}
    (last : ∀ piece, '\n' ∉ piece → motive piece)
    (next : ∀ piece rest, '\n' ∉ piece → motive rest → motive (piece ++ '\n' :: rest))
    (text : List Char) : motive text := by
  induction length : text.length using Nat.strongRecOn generalizing text with
  | ind size inductionHypothesis =>
    have split : text.takeWhile (· != '\n') = text.takeWhile (· != '\n') ∧
        text.dropWhile (· != '\n') = text.dropWhile (· != '\n') := ⟨rfl, rfl⟩
    obtain ⟨cut, plain, atLineFeed⟩ := span_iff.1 split
    generalize text.takeWhile (· != '\n') = piece at cut plain
    have noLineFeed : '\n' ∉ piece := fun member => absurd (plain _ member) (by decide)
    cases remainder : text.dropWhile (· != '\n') with
    | nil =>
      rw [cut, remainder, List.append_nil]
      exact last piece noLineFeed
    | cons first rest =>
      rw [remainder] at cut atLineFeed
      obtain rfl : first = '\n' := by simpa using atLineFeed first rfl
      rw [cut]
      refine next piece rest noLineFeed (inductionHypothesis rest.length ?_ rest rfl)
      rw [← length, cut]
      simp
      omega

/-! ## What stands in front of a line -/

/-- The text in front of the line at `number`, counted from zero. -/
def untilLine : Nat → List Char → List Char
  | 0, _ => []
  | _ + 1, [] => []
  | number + 1, '\n' :: rest => '\n' :: untilLine number rest
  | number + 1, character :: rest => character :: untilLine (number + 1) rest

/-- A line and its line feed come before what is left of the later lines. -/
theorem untilLine_append (number : Nat) (plain : '\n' ∉ piece) :
    untilLine (number + 1) (piece ++ '\n' :: rest) = piece ++ '\n' :: untilLine number rest := by
  induction piece with
  | nil => rfl
  | cons character piece inductionHypothesis =>
    obtain ⟨noLineFeed, plain⟩ := List.ne_and_not_mem_of_not_mem_cons plain
    rw [List.cons_append, untilLine, inductionHypothesis plain]
    · rfl
    · exact noLineFeed.symm

end ScriptSharp.Text
