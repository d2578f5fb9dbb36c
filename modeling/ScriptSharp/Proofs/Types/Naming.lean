import Mathlib.Data.List.DropRight
import Mathlib.Data.List.Induction
import Mathlib.Data.List.TakeWhile
import Mathlib.Logic.Function.Basic
import ScriptSharp.Types.Table

/-!
# Names of types

A full name finds the last entry that carries it, a simple name the first one. `NameIndex` holds
the same two maps in the form in which they are kept while a table grows, entry by entry, and
`NameIndex.Agrees` says that a search through the entries finds what the index holds.

A simple name has no dot. The full name then tells the simple name, so an entry that is replaced
by one with its full name keeps both of its names.
-/

namespace ScriptSharp

/-- The characters can stand in front of a name: the last one, if there is any, is a dot. -/
def IsQualifier (characters : List Char) : Prop :=
  ∀ last ∈ characters.getLast?, last = '.'

/-- A name without a dot is what follows the last dot. -/
theorem afterLastDot_append {qualifier name : List Char} (isQualifier : IsQualifier qualifier)
    (dotless : '.' ∉ name) : (qualifier ++ name).rtakeWhile (· ≠ '.') = name := by
  have plain : ∀ character ∈ name.reverse, decide (character ≠ '.') = true := by
    intro character member
    refine decide_eq_true fun isDot => dotless ?_
    rw [← isDot]
    exact List.mem_reverse.1 member
  have stops : qualifier.reverse.takeWhile (· ≠ '.') = [] := by
    rw [IsQualifier, ← List.head?_reverse] at isQualifier
    cases present : qualifier.reverse with
    | nil => rfl
    | cons last rest =>
      rw [present] at isQualifier
      rw [isQualifier last rfl]
      rfl
  rw [List.rtakeWhile, List.reverse_append, List.takeWhile_append_of_pos plain, stops,
    List.append_nil, List.reverse_reverse]

namespace TypeInfo

/-- The simple name has no dot. -/
def Dotless (info : TypeInfo) : Prop := '.' ∉ info.name.toList

instance (info : TypeInfo) : Decidable info.Dotless :=
  inferInstanceAs (Decidable (_ ∉ _))

/-- What stands in front of the simple name in the full one. -/
def qualifier (info : TypeInfo) : List Char :=
  info.space.elim [] fun space => space.toList ++ ['.']

/-- The qualifier of a type ends in a dot or is empty. -/
theorem isQualifier_qualifier (info : TypeInfo) : IsQualifier info.qualifier := by
  rw [qualifier]
  cases info.space <;> simp [IsQualifier]

/-- A full name is the qualifier and the simple name. -/
theorem toList_fullName (info : TypeInfo) :
    info.fullName.toList = info.qualifier ++ info.name.toList := by
  rw [fullName, qualifier]
  cases info.space <;> simp

/-- The simple name is what follows the last dot of the full name. -/
theorem afterLastDot_fullName {info : TypeInfo} (dotless : info.Dotless) :
    info.fullName.toList.rtakeWhile (· ≠ '.') = info.name.toList := by
  rw [toList_fullName]
  exact afterLastDot_append info.isQualifier_qualifier dotless

/-- Types with the same full name have the same simple name. -/
theorem name_eq_of_fullName_eq {left right : TypeInfo} (leftDotless : left.Dotless)
    (rightDotless : right.Dotless) (same : left.fullName = right.fullName) :
    left.name = right.name := by
  rw [← String.toList_inj, ← afterLastDot_fullName leftDotless, same,
    afterLastDot_fullName rightDotless]

end TypeInfo

/-! ## First and last items -/

section Places

variable {α β : Type} {items : List α} {holds : α → Prop} {id : Nat}

/-- The item at `id` is the last one with the property. -/
def IsLast (items : List α) (holds : α → Prop) (id : Nat) : Prop :=
  (∃ item, items[id]? = some item ∧ holds item) ∧
    ∀ later item, id < later → items[later]? = some item → ¬holds item

/-- The item at `id` is the first one with the property. -/
def IsFirst (items : List α) (holds : α → Prop) (id : Nat) : Prop :=
  (∃ item, items[id]? = some item ∧ holds item) ∧
    ∀ earlier item, earlier < id → items[earlier]? = some item → ¬holds item

/-- The last place of an image is the last place with that image. -/
theorem isLast_map {items : List β} {view : β → α} :
    IsLast (items.map view) holds id ↔ IsLast items (holds ∘ view) id := by
  simp only [IsLast, List.getElem?_map, Option.map_eq_some_iff, Function.comp_apply]
  grind

/-- The first place of an image is the first place with that image. -/
theorem isFirst_map {items : List β} {view : β → α} :
    IsFirst (items.map view) holds id ↔ IsFirst items (holds ∘ view) id := by
  simp only [IsFirst, List.getElem?_map, Option.map_eq_some_iff, Function.comp_apply]
  grind

/-- The last place of a list is its end, or the last place before it. -/
theorem isLast_concat {item : α} : IsLast (items ++ [item]) holds id ↔
    (holds item ∧ id = items.length) ∨ (¬holds item ∧ IsLast items holds id) := by
  have atEnd : (items ++ [item])[items.length]? = some item := by simp
  have before {place : Nat} (inside : place < items.length) :
      (items ++ [item])[place]? = items[place]? := List.getElem?_append_left inside
  -- Places before the end have the same items with and without the new one.
  constructor
  · rintro ⟨⟨found, present, holdsFound⟩, noLater⟩
    have inside := (List.getElem?_eq_some_iff.1 present).1
    rw [List.length_append, List.length_singleton] at inside
    by_cases last : id = items.length
    · subst last
      obtain rfl := Option.some.inj (atEnd.symm.trans present)
      exact .inl ⟨holdsFound, rfl⟩
    · have earlier : id < items.length := by omega
      refine .inr ⟨noLater _ _ earlier atEnd, ⟨found, before earlier ▸ present, holdsFound⟩, ?_⟩
      intro later other after presentLater
      have insideLater := (List.getElem?_eq_some_iff.1 presentLater).1
      exact noLater later other after (by rw [before insideLater, presentLater])
  · rintro (⟨holdsItem, rfl⟩ | ⟨fails, ⟨found, present, holdsFound⟩, noLater⟩)
    · refine ⟨⟨item, atEnd, holdsItem⟩, fun later other after presentLater => ?_⟩
      have inside := (List.getElem?_eq_some_iff.1 presentLater).1
      rw [List.length_append, List.length_singleton] at inside
      omega
    · have inside := (List.getElem?_eq_some_iff.1 present).1
      refine ⟨⟨found, by rw [before inside, present], holdsFound⟩, ?_⟩
      intro later other after presentLater
      have insideLater := (List.getElem?_eq_some_iff.1 presentLater).1
      rw [List.length_append, List.length_singleton] at insideLater
      by_cases last : later = items.length
      · subst last
        obtain rfl := Option.some.inj (atEnd.symm.trans presentLater)
        exact fails
      · exact noLater later other after (by rw [← before (by omega), presentLater])

end Places

namespace TypeEntries

variable {entries : List TypeEntry} {info : TypeInfo} {name : String} {id : Nat}

/-! ## Searching for a name -/

/-- An entry at the end is the last one with its full name. -/
theorem findFull?_concat {entry : TypeEntry} : findFull? (entries ++ [entry]) name =
    if entry.info.fullName = name then some entries.length else findFull? entries name := by
  simp only [findFull?, List.zipIdx_append, List.zipIdx_singleton, List.reverse_append,
    List.reverse_singleton, List.singleton_append, List.find?_cons, Nat.zero_add]
  by_cases same : entry.info.fullName = name
  · simp [same]
  · have other : (entry.info.fullName == name) = false := by simpa using same
    simp only [other, if_neg same]

/-- A full name finds the last entry that carries it. -/
theorem findFull?_eq_some_iff :
    findFull? entries name = some id ↔ IsLast entries (·.info.fullName = name) id := by
  induction entries using List.reverseRecOn with
  | nil => simp [findFull?, IsLast]
  | append_singleton entries entry inductionHypothesis =>
    rw [findFull?_concat, isLast_concat]
    by_cases same : entry.info.fullName = name
    · simp [same, eq_comm]
    · simp [same, inductionHypothesis]

/-- A simple name finds the entry that was first declared under it. -/
theorem findSimple?_eq_some_iff :
    findSimple? entries name = some id ↔ IsFirst entries (·.simpleName = name) id := by
  rw [findSimple?, List.findIdx?_eq_some_iff_getElem, IsFirst]
  constructor
  · rintro ⟨inside, same, noEarlier⟩
    refine ⟨⟨entries[id], List.getElem?_eq_getElem inside, by simpa using same⟩, ?_⟩
    intro earlier entry before present
    obtain ⟨_, rfl⟩ := List.getElem?_eq_some_iff.1 present
    simpa using noEarlier earlier before
  · rintro ⟨⟨entry, present, same⟩, noEarlier⟩
    obtain ⟨inside, rfl⟩ := List.getElem?_eq_some_iff.1 present
    refine ⟨inside, by simpa using same, fun earlier before => ?_⟩
    have insideEarlier : earlier < entries.length := Nat.lt_trans before inside
    simpa using noEarlier earlier _ before (List.getElem?_eq_getElem insideEarlier)

/-- A full name is not found if no entry has it. -/
theorem findFull?_eq_none_iff :
    findFull? entries name = none ↔ ∀ entry ∈ entries, entry.info.fullName ≠ name := by
  induction entries using List.reverseRecOn with
  | nil => simp [findFull?]
  | append_singleton entries entry inductionHypothesis =>
    rw [findFull?_concat, List.forall_mem_append]
    by_cases same : entry.info.fullName = name
    · simp [same]
    · simp [same, inductionHypothesis]

/-- A simple name is not found if no entry has it. -/
theorem findSimple?_eq_none_iff :
    findSimple? entries name = none ↔ ∀ entry ∈ entries, entry.simpleName ≠ name := by
  simp [findSimple?, List.findIdx?_eq_none_iff]

/-- Only the full names of the entries decide what a full name finds. -/
theorem findFull?_congr {others : List TypeEntry}
    (same : entries.map (·.info.fullName) = others.map (·.info.fullName)) :
    findFull? entries = findFull? others := by
  have byNames (list : List TypeEntry) (name : String) : findFull? list name =
      (((list.map (·.info.fullName)).zipIdx.reverse.find? (·.1 == name)).map (·.2)) := by
    rw [List.zipIdx_map, ← List.map_reverse, List.find?_map, Option.map_map]
    rfl
  funext name
  rw [byNames, byNames, same]

/-- Only the simple names of the entries decide what a simple name finds. -/
theorem findSimple?_congr {others : List TypeEntry}
    (same : entries.map (·.simpleName) = others.map (·.simpleName)) :
    findSimple? entries = findSimple? others := by
  have byNames (list : List TypeEntry) (name : String) : findSimple? list name =
      (list.map (·.simpleName)).findIdx? (· == name) := by
    rw [List.findIdx?_map]
    rfl
  funext name
  rw [byNames, byNames, same]

/-! ## Adding and replacing entries -/

/-- Every entry has the simple name that it was declared under, and no dot is in it. -/
def Plain (entries : List TypeEntry) : Prop :=
  ∀ entry ∈ entries, entry.simpleName = entry.info.name ∧ entry.info.Dotless

/-- An entry with a simple name without dots keeps the entries plain. -/
theorem Plain.push (plain : Plain entries) (dotless : info.Dotless) :
    Plain (push entries info) :=
  List.forall_mem_append.2 ⟨plain, by simpa using dotless⟩

/-- Pushing types one by one makes an entry of each. -/
theorem foldl_push (types : List TypeInfo) :
    types.foldl push [] = types.map fun info => ⟨info, info.name⟩ := by
  induction types using List.reverseRecOn with
  | nil => rfl
  | append_singleton types info inductionHypothesis =>
    rw [List.foldl_append, inductionHypothesis, List.map_append]
    rfl

/-- Puts another declaration in the place of the one at `id`. -/
def replace (entries : List TypeEntry) (id : TypeId) (info : TypeInfo) : List TypeEntry :=
  entries.modify id fun entry => { entry with info }

/-- A replacement with the same full name leaves all full names. -/
theorem fullNames_replace (found : findFull? entries info.fullName = some id) :
    (replace entries id info).map (·.info.fullName) = entries.map (·.info.fullName) := by
  obtain ⟨⟨entry, present, same⟩, -⟩ := findFull?_eq_some_iff.1 found
  refine List.ext_getElem? fun place => ?_
  simp only [replace, List.getElem?_map, List.getElem?_modify]
  by_cases here : id = place
  · subst here
    simp [present, same]
  · simp [here]

/-- A replaced entry keeps its simple name. -/
theorem simpleNames_replace :
    (replace entries id info).map (·.simpleName) = entries.map (·.simpleName) := by
  refine List.ext_getElem? fun place => ?_
  simp only [replace, List.getElem?_map, List.getElem?_modify]
  by_cases here : id = place
  · cases entries[place]? <;> simp [here]
  · simp [here]

/-- A replaced entry has the simple name of the one before it. -/
theorem Plain.replace (plain : Plain entries) (dotless : info.Dotless)
    (found : findFull? entries info.fullName = some id) : Plain (replace entries id info) := by
  obtain ⟨⟨entry, present, same⟩, -⟩ := findFull?_eq_some_iff.1 found
  intro changed member
  obtain ⟨place, at_place⟩ := List.mem_iff_getElem?.1 member
  rw [TypeEntries.replace, List.getElem?_modify] at at_place
  by_cases here : id = place
  · subst here
    obtain rfl : { entry with info } = changed := by simpa [present] using at_place
    have old := plain entry (List.mem_of_getElem? present)
    refine ⟨?_, dotless⟩
    exact old.1.trans (TypeInfo.name_eq_of_fullName_eq old.2 dotless same)
  · exact plain changed (List.mem_of_getElem? (by simpa [here] using at_place))

end TypeEntries

/-! ## The index -/

/-- The names of a table, noted down entry by entry. -/
structure NameIndex where
  full : String → Option TypeId
  simple : String → Option TypeId

namespace NameIndex

open TypeEntries

/-- Nothing is noted down. -/
def empty : NameIndex := ⟨fun _ => none, fun _ => none⟩

/-- Notes down the names of a new entry. Its full name leads to it from now on; its simple name does
so only if it has led nowhere so far. -/
def add (index : NameIndex) (info : TypeInfo) (id : TypeId) : NameIndex where
  full := Function.update index.full info.fullName (some id)
  simple := Function.update index.simple info.name ((index.simple info.name).or (some id))

/-- Notes down all names of a list. -/
def ofTypes (types : List TypeInfo) : NameIndex :=
  types.zipIdx.foldl (fun index place => index.add place.1 place.2) empty

/-- Notes down the names of a declaration, where `id` is the place behind the last entry. One that
replaces another has its names already. -/
def declare (index : NameIndex) (info : TypeInfo) (id : TypeId) : NameIndex :=
  match index.full info.fullName with
  | some _ => index
  | none => index.add info id

/-- A search through the entries finds what the index holds. -/
structure Agrees (index : NameIndex) (entries : List TypeEntry) : Prop where
  full : index.full = findFull? entries
  simple : index.simple = findSimple? entries

variable {index : NameIndex} {entries : List TypeEntry} {info : TypeInfo}

/-- An index that gets a name with each entry agrees with the entries. -/
theorem Agrees.push (agrees : index.Agrees entries) :
    (index.add info entries.length).Agrees (push entries info) where
  full := by
    funext name
    rw [add, agrees.full, TypeEntries.push, findFull?_concat]
    by_cases same : info.fullName = name
    · subst same
      simp
    · simp [same, Function.update_of_ne (Ne.symm same)]
  simple := by
    funext name
    rw [add, agrees.simple]
    simp only [findSimple?, TypeEntries.push, List.findIdx?_append, List.findIdx?_singleton]
    by_cases same : info.name = name
    · subst same
      simp
    · simp [same, Function.update_of_ne (Ne.symm same), findSimple?]

/-- The index of a list is the one that grows with the entries of the list. -/
theorem agrees_ofTypes (types : List TypeInfo) :
    (ofTypes types).Agrees (types.foldl TypeEntries.push []) := by
  induction types using List.reverseRecOn with
  | nil => exact ⟨rfl, rfl⟩
  | append_singleton types info inductionHypothesis =>
    have length : (types.foldl TypeEntries.push []).length = types.length := by
      rw [foldl_push, List.length_map]
    have grown : ((ofTypes types).add info (types.foldl TypeEntries.push []).length).Agrees
        (TypeEntries.push (types.foldl TypeEntries.push []) info) := inductionHypothesis.push
    rw [length] at grown
    simpa [ofTypes, List.zipIdx_append, List.foldl_append] using grown

end NameIndex

end ScriptSharp
