import ScriptSharp.Proofs.Reading.Grammar

/-!
# Commas between items

Items with commas between them can be told apart where every item closes its own brackets and has
no comma outside of them. Type arguments are the exception, since their angle brackets look like
comparisons. A comma of an item that stands outside of all brackets is therefore followed by a type
and then by another comma or the end of the type arguments, and `separated_split` finds the items
again wherever something else follows.
-/

namespace ScriptSharp.Emit

/-! ## Items with commas between them -/

section Items

variable {piece : Code} {pieces : List Code} {first : Token} {rest : Code}

/-- A piece in front is separated by a comma. -/
theorem separated_cons (present : pieces ≠ []) :
    separated (piece :: pieces) = piece ++ .symbol "," :: separated pieces := by
  cases pieces with
  | nil => exact absurd rfl present
  | cons => rfl

/-- Pieces in a row have a comma between both parts. -/
theorem separated_append {left right : List Code} (presentLeft : left ≠ [])
    (presentRight : right ≠ []) :
    separated (left ++ right) = separated left ++ .symbol "," :: separated right := by
  induction left with
  | nil => exact absurd rfl presentLeft
  | cons piece left inductionHypothesis =>
    cases left with
    | nil => exact separated_cons presentRight
    | cons next left =>
      have later := inductionHypothesis (List.cons_ne_nil _ _)
      rw [List.cons_append, separated_cons (by simp), later,
        separated_cons (List.cons_ne_nil next left), List.append_assoc, List.cons_append]

/-- A token in front belongs to the first piece. -/
theorem separated_token (token : Token) (piece : Code) (pieces : List Code) :
    separated ((token :: piece) :: pieces) = token :: separated (piece :: pieces) := by
  cases pieces <;> rfl

/-- Pieces that begin with a token are not empty together. -/
theorem separated_ne_nil (present : piece ≠ []) : separated (piece :: pieces) ≠ [] := by
  cases piece with
  | nil => exact absurd rfl present
  | cons => simp [separated_token]

/-- The first item begins with the first token, and behind that it goes on like the whole, unless it
ends there. -/
theorem separated_begins (present : piece ≠ [])
    (whole : separated (piece :: pieces) = first :: rest) :
    ∃ behind, piece = first :: behind ∧
      (behind.head? = rest.head? ∨ behind = [] ∧ rest.head? = some (.symbol ",")) := by
  cases piece with
  | nil => exact absurd rfl present
  | cons token behind =>
    cases pieces with
    | nil =>
      obtain ⟨rfl, rfl⟩ := List.cons.inj whole
      exact ⟨behind, rfl, .inl rfl⟩
    | cons next pieces =>
      obtain ⟨rfl, rfl⟩ := List.cons.inj whole
      refine ⟨behind, rfl, ?_⟩
      cases behind with
      | nil => exact .inr ⟨rfl, rfl⟩
      | cons => exact .inl rfl

end Items

/-! ## Brackets -/

/-- The number of brackets that a token opens. Closing one counts as opening one less. -/
def Token.opens : Token → Int
  | .symbol "(" | .symbol "[" | .symbol "\x7b" => 1
  | .symbol ")" | .symbol "]" | .symbol "\x7d" => -1
  | _ => 0

namespace Code

variable {code first second front back : Code} {token : Token}

/-- The number of brackets that are open behind the code. -/
def level : Code → Int
  | [] => 0
  | token :: rest => token.opens + level rest

@[simp]
theorem level_nil : level [] = 0 := rfl

/-- A token opens its bracket, or closes one. -/
@[simp]
theorem level_cons (token : Token) (code : Code) :
    level (token :: code) = token.opens + code.level := rfl

/-- Code in a row opens the brackets of both parts. -/
@[simp]
theorem level_append (first second : Code) :
    level (first ++ second) = first.level + second.level := by
  induction first with
  | nil => simp
  | cons token rest inductionHypothesis => simp [inductionHypothesis, Int.add_assoc]

/-- Every bracket is closed again, and none is closed that was not opened. -/
structure Balanced (code : Code) : Prop where
  level_eq : code.level = 0
  nonneg : ∀ {front back : Code}, code = front ++ back → 0 ≤ front.level

/-- Balanced code in a row is balanced. -/
theorem Balanced.append (left : Balanced first) (right : Balanced second) :
    Balanced (first ++ second) where
  level_eq := by rw [level_append, left.level_eq, right.level_eq, Int.add_zero]
  nonneg := by
    intro front back split
    rcases List.append_eq_append_iff.1 split with ⟨between, rfl, rest⟩ | ⟨between, rest, -⟩
    · rw [level_append, left.level_eq, Int.zero_add]
      exact right.nonneg rest
    · exact left.nonneg rest

theorem balanced_nil : Balanced [] where
  level_eq := rfl
  nonneg := by
    intro front back split
    obtain ⟨rfl, -⟩ := List.append_eq_nil_iff.1 split.symm
    simp

/-- A token that is no bracket is balanced. -/
theorem balanced_token (plain : token.opens = 0) : Balanced [token] where
  level_eq := by simp [plain]
  nonneg := by
    intro front back split
    rcases List.singleton_eq_append_iff.1 split with ⟨rfl, -⟩ | ⟨rfl, -⟩ <;> simp [plain]

/-- Balanced code between brackets is balanced. -/
theorem Balanced.brackets {opening closing : Token} (balanced : Balanced code)
    (opens : opening.opens = 1) (closes : closing.opens = -1) :
    Balanced (opening :: (code ++ [closing])) where
  level_eq := by simp [opens, closes, balanced.level_eq]
  nonneg := by
    intro front back split
    rcases List.cons_eq_append_iff.1 split with ⟨rfl, -⟩ | ⟨inside, rfl, splitInside⟩
    · simp
    · rw [level_cons, opens]
      rcases List.append_eq_append_iff.1 splitInside with ⟨between, rfl, rest⟩ | ⟨between, rest, -⟩
      · rcases List.singleton_eq_append_iff.1 rest with ⟨rfl, -⟩ | ⟨rfl, -⟩ <;>
          simp [balanced.level_eq, closes]
      · have inner := balanced.nonneg rest
        omega

/-- Balanced pieces are balanced with commas between them. -/
theorem balanced_separated {codes : List Code} (each : ∀ code ∈ codes, Balanced code) :
    Balanced (separated codes) := by
  induction codes with
  | nil => exact balanced_nil
  | cons first rest inductionHypothesis =>
    obtain ⟨balanced, later⟩ := List.forall_mem_cons.1 each
    cases rest with
    | nil => exact balanced
    | cons second rest =>
      exact balanced.append ((balanced_token rfl).append (inductionHypothesis later))

/-! ## Commas outside of brackets -/

/-- Type arguments go on with a type, and with another comma or their end behind it. -/
def Continues (code : Code) : Prop :=
  ∃ type rest, code = .typeName type :: rest ∧
    (rest.head? = some (.symbol ",") ∨ rest.head? = some (.symbol ">"))

/-- Type arguments go on whatever stands further behind. -/
theorem Continues.append (continues : Continues first) (second : Code) :
    Continues (first ++ second) := by
  obtain ⟨type, rest, rfl, ends⟩ := continues
  refine ⟨type, rest ++ second, rfl, ?_⟩
  cases rest with
  | nil => simp at ends
  | cons => exact ends

/-- The code closes its brackets, and outside of them it has no comma but those of type
arguments. -/
structure Unseparated (code : Code) : Prop where
  balanced : Balanced code
  continues : ∀ {front back : Code}, code = front ++ .symbol "," :: back → front.level = 0 →
    Continues back

theorem unseparated_nil : Unseparated [] where
  balanced := balanced_nil
  continues := by simp

/-- A token that is neither a bracket nor a comma is one item. -/
theorem unseparated_token (plain : token.opens = 0) (other : token ≠ .symbol ",") :
    Unseparated [token] where
  balanced := balanced_token plain
  continues := by
    intro front back split
    rcases List.singleton_eq_append_iff.1 split with ⟨-, same⟩ | ⟨-, same⟩
    · exact absurd (List.cons.inj same).1.symm other
    · cases same

namespace Unseparated

/-- Items in a row are one item when no comma is between them. -/
theorem append (left : Unseparated first) (right : Unseparated second) :
    Unseparated (first ++ second) where
  balanced := left.balanced.append right.balanced
  continues := by
    intro front back split outside
    rcases List.append_eq_append_iff.1 split with ⟨between, rfl, rest⟩ | ⟨between, same, rest⟩
    · refine right.continues rest ?_
      rwa [level_append, left.balanced.level_eq, Int.zero_add] at outside
    · rcases List.cons_eq_append_iff.1 rest with ⟨rfl, rest⟩ | ⟨inside, rfl, rfl⟩
      · have whole : second = [] ++ .symbol "," :: back := rest.symm
        exact right.continues whole rfl
      · exact (left.continues same outside).append second

/-- The same is true of a token in front of an item. -/
theorem cons (plain : token.opens = 0) (other : token ≠ .symbol ",") (right : Unseparated second) :
    Unseparated (token :: second) :=
  (unseparated_token plain other).append right

/-- Brackets around balanced code make one item of it. -/
theorem brackets {opening closing : Token} (balanced : Balanced code)
    (opens : opening.opens = 1) (closes : closing.opens = -1) :
    Unseparated (opening :: (code ++ [closing])) where
  balanced := balanced.brackets opens closes
  continues := by
    intro front back split outside
    exfalso
    rcases List.cons_eq_append_iff.1 split with ⟨-, same⟩ | ⟨inside, rfl, splitInside⟩
    · cases same
      cases opens
    · rw [level_cons, opens] at outside
      rcases List.append_eq_append_iff.1 splitInside with ⟨between, -, rest⟩ | ⟨between, rest, -⟩
      · rcases List.singleton_eq_append_iff.1 rest with ⟨-, same⟩ | ⟨-, same⟩ <;> cases same
        cases closes
      · have inner := balanced.nonneg rest
        omega

/-- Parentheses around balanced code make one item of it. -/
theorem parenthesized (balanced : Balanced code.words) : Unseparated code.parenthesized.words := by
  rw [Code.parenthesized, List.cons_append, words_symbol, words_append]
  exact brackets balanced rfl rfl

end Unseparated

/-! ## Type arguments -/

/-- Types with commas between them, and what ends them. -/
def typesThenEnd (types : List String) : Code :=
  separated (types.map fun type => [.typeName type]) ++ [.symbol ">"]

/-- Types with commas between them go on up to their end. -/
theorem continues_typesThenEnd (type : String) (types : List String) :
    Continues (typesThenEnd (type :: types)) := by
  cases types with
  | nil => exact ⟨type, _, rfl, .inr rfl⟩
  | cons => exact ⟨type, _, rfl, .inl rfl⟩

/-- Behind every comma between types, the type arguments go on. -/
theorem continues_of_typesThenEnd {types : List String}
    (split : typesThenEnd types = front ++ .symbol "," :: back) : Continues back := by
  induction types generalizing front with
  | nil => rcases List.singleton_eq_append_iff.1 split with ⟨-, same⟩ | ⟨-, same⟩ <;> simp at same
  | cons type types inductionHypothesis =>
    cases types with
    | nil =>
      rcases List.cons_eq_append_iff.1 split with ⟨-, same⟩ | ⟨inside, -, rest⟩
      · cases same
      · rcases List.singleton_eq_append_iff.1 rest with ⟨-, same⟩ | ⟨-, same⟩ <;> simp at same
    | cons next types =>
      have spelled : typesThenEnd (type :: next :: types) =
          .typeName type :: .symbol "," :: typesThenEnd (next :: types) := rfl
      rw [spelled] at split
      rcases List.cons_eq_append_iff.1 split with ⟨-, same⟩ | ⟨inside, -, rest⟩
      · cases same
      · rcases List.cons_eq_append_iff.1 rest with ⟨-, same⟩ | ⟨between, -, rest⟩
        · obtain rfl := (List.cons.inj same).2
          exact continues_typesThenEnd next types
        · exact inductionHypothesis rest

/-- Type arguments have no commas outside of brackets but their own. -/
theorem unseparated_typeArgs (types : List String) :
    Unseparated (.symbol "<" :: typesThenEnd types) where
  balanced := by
    have each : ∀ code ∈ types.map fun type => ([.typeName type] : Code), Balanced code :=
      List.forall_mem_map.2 fun type _ => balanced_token rfl
    exact (balanced_token rfl).append ((balanced_separated each).append (balanced_token rfl))
  continues := by
    intro front back split outside
    rcases List.cons_eq_append_iff.1 split with ⟨-, same⟩ | ⟨inside, -, rest⟩
    · simp at same
    · exact continues_of_typesThenEnd rest

/-! ## Finding the items again -/

/-- Behind a comma outside of brackets, either type arguments go on or the next items begin. -/
theorem separated_split {pieces : List Code} (each : ∀ piece ∈ pieces, Unseparated piece)
    (split : separated pieces = front ++ .symbol "," :: back) (outside : front.level = 0) :
    Continues back ∨ ∃ piece later, (∀ other ∈ piece :: later, other ∈ pieces.tail) ∧
      back = separated (piece :: later) := by
  induction pieces generalizing front with
  | nil => simp [separated] at split
  | cons first rest inductionHypothesis =>
    obtain ⟨unseparated, later⟩ := List.forall_mem_cons.1 each
    cases rest with
    | nil => exact .inl (unseparated.continues split outside)
    | cons second rest =>
      rw [separated_cons (List.cons_ne_nil _ _)] at split
      rcases List.append_eq_append_iff.1 split with ⟨between, rfl, same⟩ | ⟨between, same, whole⟩
      · rcases List.cons_eq_append_iff.1 same with ⟨rfl, same⟩ | ⟨inside, rfl, behind⟩
        · exact .inr ⟨second, rest, fun other member => member, (List.cons.inj same).2.symm⟩
        · have outsideRest : Code.level inside = 0 := by
            simpa [unseparated.balanced.level_eq, Token.opens] using outside
          rcases inductionHypothesis later behind outsideRest with
            continues | ⟨piece, others, members, same⟩
          · exact .inl continues
          · exact .inr ⟨piece, others, fun other member =>
              List.mem_of_mem_tail (members other member), same⟩
      · rcases List.cons_eq_append_iff.1 whole with ⟨rfl, whole⟩ | ⟨inside, rfl, rfl⟩
        · exact .inr ⟨second, rest, fun other member => member, (List.cons.inj whole).2⟩
        · exact .inl ((unseparated.continues same outside).append _)

end Code

end ScriptSharp.Emit
