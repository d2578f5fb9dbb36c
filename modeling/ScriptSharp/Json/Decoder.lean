import ScriptSharp.Json.Scalar

/-!
# Decoding JSON

A decoder reads a value of the program from the front of a text, or says on which line it fails. It
reads the text once and in order, so the fault that is reported is the first one. Members of an
object with unknown names are passed over; a member that is given twice is a fault, and so is one
that is missing.
-/

namespace ScriptSharp.Json

/-- Where decoding failed. -/
inductive Failure where
  /-- On this line. -/
  | at (line : Nat)
  /-- Behind a token. The line is the one that the list or object around it reaches when it looks
  for its end from there. -/
  | behind (cursor : Cursor)
  deriving DecidableEq, Repr

namespace Failure

/-- The failure of an object, one of whose members fails. -/
def inObject : Failure → Failure
  | .at line => .at line
  | .behind cursor => .at cursor.skipBlanks.line

/-- The failure of a list, one of whose items fails. -/
def inList : Failure → Failure
  | .at line => .at line
  | .behind cursor => .at cursor.listEnd.line

/-- The line of a failure that nothing stands around. -/
def line : Failure → Nat
  | .at line => line
  | .behind cursor => cursor.line

end Failure

/-- Reads a value from the front of a text. -/
abbrev Decoder (α : Type) := StateT Cursor (Except Failure) α

namespace Decoder

variable {α β : Type}

/-- Fails on the line that has been reached. -/
def fail : Decoder α := fun cursor => .error (.at cursor.line)

/-- Passes over blanks. -/
def blanks : Decoder Unit := fun cursor => .ok ((), cursor.skipBlanks)

/-- Reads what stays on its line. -/
def inLine (read : Nat → List Char → Except Nat (α × List Char)) : Decoder α := fun cursor =>
  match read cursor.line cursor.rest with
  | .ok (value, rest) => .ok (value, ⟨rest, cursor.line⟩)
  | .error line => .error (.at line)

/-- Passes over what stays on its line. -/
def skipInLine (skip : Nat → List Char → Except Nat (List Char)) : Decoder Unit :=
  inLine fun line rest => (skip line rest).map ((), ·)

/-- Passes over a character behind blanks. -/
def symbol (expected : Char) : Decoder Unit := fun cursor =>
  let next := cursor.skipBlanks
  match next.rest with
  | [] => .error (.at next.line)
  | character :: rest =>
    if character = expected then .ok ((), ⟨rest, next.line⟩) else .error (.at next.line)

/-! ## Scalars -/

/-- A scalar of the wanted kind. A scalar of another kind is read before it is refused, so that a
fault in it comes first. -/
def scalar (select : Scalar → Option α) : Decoder α := do
  blanks
  let value ← inLine Scalar.read
  match select value with
  | some result => return result
  | none => fail

/-- The value `null`. -/
def null : Decoder Unit := scalar fun value => if value = .null then some () else none

/-- A truth value. -/
def bool : Decoder Bool := scalar Scalar.bool?

/-- A text. -/
def string : Decoder String := scalar Scalar.text?

/-- A whole number in a range. -/
def wholeBetween (least greatest : Int) : Decoder Int :=
  scalar fun
    | .number (.whole value) => if least ≤ value ∧ value ≤ greatest then some value else none
    | _ => none

/-- A number that counts, of 32 bits. -/
def nat32 : Decoder Nat := do
  let value ← wholeBetween 0 (UInt32.size - 1)
  return value.toNat

/-- A number that counts, of 64 bits. -/
def nat64 : Decoder Nat := do
  let value ← wholeBetween 0 (UInt64.size - 1)
  return value.toNat

/-- A whole number of 64 bits with a sign. -/
def int64 : Decoder Int :=
  wholeBetween Int64.minValue.toInt Int64.maxValue.toInt

/-- Any number, as a double. -/
def double : Decoder Binary64 :=
  scalar fun value => value.number?.map Number.toDouble

/-- A text of exactly one character. -/
def char : Decoder Char :=
  scalar fun value =>
    match value.text?.map String.toList with
    | some [character] => some character
    | _ => none

/-- A value that may be `null`. Whatever begins like `null` has to be it. -/
def nullable (decoder : Decoder α) : Decoder (Option α) := fun cursor =>
  let start := cursor.skipBlanks
  match start.rest with
  | 'n' :: _ => (null.map fun _ => none) start
  | _ => (decoder.map some) start

/-! ## Lists -/

/-- Whether there is a further item in a list, and the cursor in front of it or of the closing
bracket. `first` says that none has been read. -/
def hasItem (first : Bool) : Decoder Bool := fun cursor =>
  let start := cursor.skipBlanks
  match start.rest, first with
  | [], _ => .error (.at start.line)
  | ']' :: _, _ => .ok (false, start)
  | _ :: _, true => .ok (true, start)
  | ',' :: rest, false =>
    let next := Cursor.skipBlanks ⟨rest, start.line⟩
    match next.rest with
    | [] => .error (.at next.line)
    | ']' :: _ => .error (.at next.line)
    | _ :: _ => .ok (true, next)
  | _ :: _, false => .error (.at start.line)

/-- The items of a list up to its closing bracket. There are at most as many as there are
characters in `fuel`. -/
def items (decoder : Decoder α) : List Char → Bool → Decoder (List α)
  | [], _ => fail
  | _ :: fuel, first => do
    if ← hasItem first then
      let value ← decoder
      let rest ← items decoder fuel false
      return value :: rest
    else return []

/-- Passes over the closing bracket of a list. -/
def closeList : Decoder Unit := fun cursor =>
  let next := cursor.skipBlanks
  match next.rest with
  | ']' :: rest => .ok ((), ⟨rest, next.line⟩)
  | _ => .error (.behind cursor)

/-- What stands between brackets, given a decoder for what is behind the opening one. -/
def inBrackets (decoder : List Char → Decoder α) (rest : List Char) (line : Nat) :
    Except Failure (α × Cursor) :=
  let content : Decoder α := do
    let value ← decoder rest
    closeList
    return value
  (content ⟨rest, line⟩).mapError Failure.inList

/-- A list. -/
def list (decoder : Decoder α) : Decoder (List α) := fun cursor =>
  let start := cursor.skipBlanks
  match start.rest with
  | '[' :: rest => inBrackets (items decoder · true) rest start.line
  | _ => scalar (fun _ => none) start

/-! ## Members -/

/-- Whether there is a further member in an object, and the cursor behind the opening quote of its
name or in front of the closing brace. `first` says that none has been read. -/
def hasMember (first : Bool) : Decoder Bool := fun cursor =>
  let start := cursor.skipBlanks
  match start.rest, first with
  | '\x7d' :: _, _ => .ok (false, start)
  | '"' :: rest, true => .ok (true, ⟨rest, start.line⟩)
  | ',' :: rest, false =>
    let next := Cursor.skipBlanks ⟨rest, start.line⟩
    match next.rest with
    | '"' :: rest => .ok (true, ⟨rest, next.line⟩)
    | _ => .error (.at next.line)
  | _, _ => .error (.at start.line)

/-- The name of a member behind its opening quote. -/
def name : Decoder String :=
  inLine fun line rest => Quoted.read line [] none rest

/-- Passes over the members of an object up to its closing brace. There are at most as many as
there are characters in `fuel`. -/
def skipMembers (skip : Decoder Unit) : List Char → Bool → Decoder Unit
  | [], _ => fail
  | _ :: fuel, first => do
    if ← hasMember first then
      skipInLine Quoted.skip
      symbol ':'
      skip
      skipMembers skip fuel false
    else symbol '\x7d'

/-- Passes over a value of at most the given depth. -/
def skipNested : Nat → Decoder Unit
  | 0 => fail
  | depth + 1 => fun cursor =>
    let start := cursor.skipBlanks
    match start.rest with
    | '[' :: rest => (inBrackets (items (skipNested depth) · true) rest start.line).map
        fun (_, next) => ((), next)
    | '\x7b' :: rest => skipMembers (skipNested depth) rest true ⟨rest, start.line⟩
    | _ => skipInLine Scalar.skip start

/-- Passes over a value. -/
def ignored : Decoder Unit := fun cursor =>
  skipNested (cursor.rest.length + 1) cursor

end Decoder

/-! ## Records -/

/-- Decodes the members of an object as they come. The members met so far are kept in a state. -/
structure Record (α : Type) : Type 1 where
  State : Type
  start : State
  /-- How to read a member, if its name is known. `some none` stands for a member that has been
  given before. -/
  take : State → String → Option (Option (Decoder State))
  /-- The record, unless a member is missing. -/
  finish : State → Option α
  /-- The record from a list of the members in their order, unless the list is too short. The mark
  goes in and out that says whether an item has yet to be read. -/
  ofItems : Bool → Decoder (Option α × Bool)

namespace Record

variable {α β : Type}

/-- A record without members. -/
def const (value : α) : Record α where
  State := Unit
  start := ()
  take _ _ := none
  finish _ := some value
  ofItems first := return (some value, first)

/-- A record with one member. A missing member has the value `absent`, if there is one. -/
def member (key : String) (decoder : Decoder α) (absent : Option α) : Record α where
  State := Option α
  start := none
  take state name :=
    if name = key then
      some (if state.isSome then none else some (decoder.map some))
    else none
  finish state := state.or absent
  ofItems first := do
    if ← Decoder.hasItem first then
      let value ← decoder
      return (some value, false)
    else return (absent, first)

/-- A member that has to be given. -/
def required (key : String) (decoder : Decoder α) : Record α :=
  member key decoder none

/-- A member with a value of its own when it is not given. -/
def defaulted (key : String) (absent : α) (decoder : Decoder α) : Record α :=
  member key decoder (some absent)

/-- A member that may be `null` or missing. -/
def option (key : String) (decoder : Decoder α) : Record (Option α) :=
  member key decoder.nullable (some none)

/-- A record of the members of two records. -/
def and (first : Record (α → β)) (second : Record α) : Record β where
  State := first.State × second.State
  start := (first.start, second.start)
  take state name :=
    match first.take state.1 name with
    | some taken => some (taken.map (·.map (·, state.2)))
    | none => (second.take state.2 name).map (·.map (·.map (state.1, ·)))
  finish state :=
    match first.finish state.1, second.finish state.2 with
    | some convert, some value => some (convert value)
    | _, _ => none
  ofItems mark := do
    let (convert, mark) ← first.ofItems mark
    match convert with
    | none => return (none, mark)
    | some convert =>
      let (value, mark) ← second.ofItems mark
      return (value.map convert, mark)

/-- Decodes the members of an object up to its closing brace. There are at most as many as there
are characters in `fuel`. -/
def members (record : Record α) : List Char → Bool → record.State → Decoder α
  | [], _, _ => Decoder.fail
  | _ :: fuel, first, state => do
    if ← Decoder.hasMember first then
      let name ← Decoder.name
      match record.take state name with
      | some (some decoder) =>
        Decoder.symbol ':'
        let state ← decoder
        record.members fuel false state
      | some none =>
        Decoder.blanks
        Decoder.fail
      | none =>
        Decoder.symbol ':'
        Decoder.ignored
        record.members fuel false state
    else
      Decoder.symbol '\x7d'
      match record.finish state with
      | some value => return value
      | none => Decoder.fail

/-- A list of the members in their order. -/
def inOrder (record : Record α) : Decoder α := do
  match ← record.ofItems true with
  | (some value, _) => return value
  | (none, _) => Decoder.fail

/-- Decodes an array of the members in their order. -/
def tupleDecoder (record : Record α) : Decoder α := fun cursor =>
  let start := cursor.skipBlanks
  match start.rest with
  | '[' :: rest => Decoder.inBrackets (fun _ => record.inOrder) rest start.line
  | _ => Decoder.scalar (fun _ => none) start

/-- Decodes an object, or an array of the members in their order. -/
def decoder (record : Record α) : Decoder α := fun cursor =>
  let start := cursor.skipBlanks
  match start.rest with
  | '\x7b' :: rest =>
    (record.members rest true record.start ⟨rest, start.line⟩).mapError Failure.inObject
  | _ => record.tupleDecoder start

end Record

/-! ## Variants -/

/-- A variant of a sum type. -/
inductive Variant (α : Type) where
  /-- A variant without content. -/
  | bare (value : α)
  /-- A variant with content. -/
  | content (decoder : Decoder α)

namespace Variant

variable {α β : Type}

/-- A variant whose content is a value. -/
def ofDecoder (convert : α → β) (decoder : Decoder α) : Option (Variant β) :=
  some (.content (decoder.map convert))

/-- A variant whose content is a record. -/
def ofRecord (record : Record α) : Option (Variant α) :=
  some (.content record.decoder)

/-- The variant with the name that is read. -/
def named (variants : String → Option (Variant α)) : Decoder (Variant α) := do
  let name ← Decoder.string
  match variants name with
  | some variant => return variant
  | none => Decoder.fail

/-- A variant that is given by its name alone. One with content is refused behind the name. -/
def nameOnly (variants : String → Option (Variant α)) : Decoder α := do
  match ← named variants with
  | .bare value => return value
  | .content _ => fun cursor => .error (.behind cursor)

/-- A variant that is given with its content, behind the opening brace. A variant without content
has the content `null`. -/
def withContent (variants : String → Option (Variant α)) : Decoder α := do
  let variant ← named variants
  Decoder.symbol ':'
  let value ← match variant with
    | .bare value => Decoder.null.map fun _ => value
    | .content decoder => decoder
  Decoder.symbol '\x7d'
  return value

/-- A sum type. A value is the name of a variant without content, or an object with the name and
the content of a variant as its only member. -/
def decoder (variants : String → Option (Variant α)) : Decoder α := fun cursor =>
  let start := cursor.skipBlanks
  match start.rest with
  | '"' :: _ => nameOnly variants start
  | '\x7b' :: rest => withContent variants ⟨rest, start.line⟩
  | _ => .error (.at start.line)

/-- A sum type of names only. -/
def names (names : List (String × α)) : Decoder α :=
  decoder fun name => (names.lookup name).map Variant.bare

end Variant

/-- Decodes a text that holds exactly one value, or says on which line it fails. The number of its
characters bounds how deep values nest. -/
def decode {α : Type} (decoder : Nat → Decoder α) (text : String) : Except Nat α :=
  let start := Cursor.start text
  match decoder start.rest.length start with
  | .error failure => .error failure.line
  | .ok (value, cursor) =>
    let last := cursor.skipBlanks
    if last.rest.isEmpty then .ok value else .error last.line

end ScriptSharp.Json
