import ScriptSharp.Proofs.Types.Naming

/-!
# Tables over their history

A table starts from a list of types, gets the runtime types that are missing, and then takes
declarations one after another. `Built` says that a table has such a history, with the index of its
names kept along the way. Whatever the history, the table is `Consistent`: its names lead where they
should, no handle ever changes, and the table is recovered from its list of types.
-/

namespace ScriptSharp

namespace TypeEntries

variable {entries before middle after : List TypeEntry} {info : TypeInfo}

/-! ## Growing -/

/-- Nothing that was found before is lost or found elsewhere. -/
structure Grows (before after : List TypeEntry) : Prop where
  inFront : before <+: after
  keeps {name : String} {id : TypeId} :
    findFull? before name = some id → findFull? after name = some id
  plain : Plain before → Plain after

namespace Grows

/-- Entries that stay the same have grown by nothing. -/
theorem refl (entries : List TypeEntry) : Grows entries entries :=
  ⟨List.prefix_rfl, id, id⟩

/-- Growing twice is growing. -/
theorem trans (first : Grows before middle) (second : Grows middle after) : Grows before after :=
  ⟨first.inFront.trans second.inFront, second.keeps ∘ first.keeps, second.plain ∘ first.plain⟩

end Grows

/-- An entry with a new full name takes no name away. -/
theorem grows_push (dotless : info.Dotless) (absent : findFull? entries info.fullName = none) :
    Grows entries (push entries info) where
  inFront := List.prefix_append _ _
  keeps := by
    intro name id found
    have other : info.fullName ≠ name := by
      rintro rfl
      rw [absent] at found
      cases found
    rw [push, findFull?_concat, if_neg other, found]
  plain := fun plain => plain.push dotless

/-- A type that is there already is not declared again. -/
theorem ensure_of_found {id : TypeId} (found : findFull? entries info.fullName = some id) :
    ensure info entries = (id, entries) := by
  rw [ensure, found]

/-- After asking for a type, the table has grown and its full name leads to the handle given. -/
theorem ensure_grows (dotless : info.Dotless) :
    Grows entries (ensure info entries).2 ∧
      findFull? (ensure info entries).2 info.fullName = some (ensure info entries).1 := by
  cases found : findFull? entries info.fullName with
  | some id =>
    rw [ensure_of_found found]
    exact ⟨.refl entries, found⟩
  | none =>
    rw [ensure, found]
    exact ⟨grows_push dotless found, by simp [push, findFull?_concat]⟩

/-- Asking for a type, and going on with its handle. -/
theorem run_ensure_bind {α : Type} {next : TypeId → StateM (List TypeEntry) α}
    {goal : α × List TypeEntry → Prop} (dotless : info.Dotless)
    (continues : ∀ id after, Grows entries after → findFull? after info.fullName = some id →
      goal ((next id).run after)) :
    goal (((ensure info : StateM (List TypeEntry) TypeId) >>= next).run entries) :=
  continues _ _ (ensure_grows dotless).1 (ensure_grows dotless).2

/-- Asking for a type that is there, and going on with its handle. -/
theorem run_ensure_of_found {α : Type} {next : TypeId → StateM (List TypeEntry) α} {id : TypeId}
    (found : findFull? entries info.fullName = some id) :
    ((ensure info : StateM (List TypeEntry) TypeId) >>= next).run entries =
      (next id).run entries := by
  change (next (ensure info entries).1).run (ensure info entries).2 = _
  rw [ensure_of_found found]

end TypeEntries

/-! ## The runtime types -/

/-- The handles with the full names that they stand for. -/
def WellKnownTypes.named (known : WellKnownTypes) : List (String × TypeId) :=
  [("System.Type", known.systemType), ("System.Enum", known.systemEnum),
   ("System.Collections.Hashtable", known.hashtable), ("UnityEngine.Object", known.unityObject),
   ("UnityEngine.Component", known.component), ("UnityEngine.GameObject", known.gameObject),
   ("UnityEngine.MonoBehaviour", known.monoBehaviour),
   ("System.SerializableAttribute", known.serializable)]

namespace TypeEntries

/-- The runtime types are there, under the handles given. The one between components and scripts has
no handle of its own. -/
structure Knows (entries : List TypeEntry) (known : WellKnownTypes) : Prop where
  named : ∀ type ∈ known.named, findFull? entries type.1 = some type.2
  behaviour : ∃ id, findFull? entries "UnityEngine.Behaviour" = some id

variable {entries after : List TypeEntry} {known : WellKnownTypes}

/-- The well-known types stay known while entries are added. -/
theorem Knows.grows (knows : Knows entries known) (grows : Grows entries after) :
    Knows after known where
  named type member := grows.keeps (knows.named type member)
  behaviour := knows.behaviour.imp fun _ found => grows.keeps found

/-- The table has grown until it knows all runtime types. -/
def Completes (entries : List TypeEntry) (result : WellKnownTypes × List TypeEntry) : Prop :=
  Grows entries result.2 ∧ Knows result.2 result.1

/-- Adding the missing runtime types completes the table. -/
theorem completes_ensureWellKnown (entries : List TypeEntry) :
    Completes entries (ensureWellKnown.run entries) := by
  have library {space name : String} {base : Option TypeId} (simple : '.' ∉ name.toList) :
      (TypeInfo.library space name base).Dotless := simple
  rw [ensureWellKnown]
  refine run_ensure_bind (library (by decide)) fun unityObject s₁ grows₁ hasObject => ?_
  refine run_ensure_bind (library (by decide)) fun component s₂ grows₂ hasComponent => ?_
  refine run_ensure_bind (library (by decide)) fun behaviour s₃ grows₃ hasBehaviour => ?_
  refine run_ensure_bind (library (by decide)) fun systemType s₄ grows₄ hasType => ?_
  refine run_ensure_bind (library (by decide)) fun systemEnum s₅ grows₅ hasEnum => ?_
  refine run_ensure_bind (by decide) fun hashtable s₆ grows₆ hasHashtable => ?_
  refine run_ensure_bind (library (by decide)) fun gameObject s₇ grows₇ hasGameObject => ?_
  refine run_ensure_bind (library (by decide)) fun monoBehaviour s₈ grows₈ hasScript => ?_
  refine run_ensure_bind (library (by decide)) fun serializable s₉ grows₉ hasSerializable => ?_
  -- What a type was found under stays until the end.
  have from₇ := grows₈.trans grows₉
  have from₆ := grows₇.trans from₇
  have from₅ := grows₆.trans from₆
  have from₄ := grows₅.trans from₅
  have from₃ := grows₄.trans from₄
  have from₂ := grows₃.trans from₃
  have from₁ := grows₂.trans from₂
  refine ⟨grows₁.trans from₁, ⟨?_, behaviour, from₃.keeps hasBehaviour⟩⟩
  simp only [WellKnownTypes.named, List.forall_mem_cons]
  exact ⟨from₄.keeps hasType, from₅.keeps hasEnum, from₆.keeps hasHashtable,
    from₁.keeps hasObject, from₂.keeps hasComponent, from₇.keeps hasGameObject,
    grows₉.keeps hasScript, hasSerializable, by simp⟩

/-- Where all runtime types are known, none is added. -/
theorem Knows.ensureWellKnown_eq (knows : Knows entries known) :
    ensureWellKnown.run entries = (known, entries) := by
  obtain ⟨named, behaviour, hasBehaviour⟩ := knows
  simp only [WellKnownTypes.named, List.forall_mem_cons] at named
  obtain ⟨hasType, hasEnum, hasHashtable, hasObject, hasComponent, hasGameObject, hasScript,
    hasSerializable, -⟩ := named
  rw [ensureWellKnown, run_ensure_of_found hasObject, run_ensure_of_found hasComponent,
    run_ensure_of_found hasBehaviour, run_ensure_of_found hasType, run_ensure_of_found hasEnum,
    run_ensure_of_found hasHashtable, run_ensure_of_found hasGameObject,
    run_ensure_of_found hasScript, run_ensure_of_found hasSerializable]
  rfl

end TypeEntries

/-! ## Histories -/

namespace TypeTable

open TypeEntries

/-- The table starts from `types`, the missing runtime types are added, and declarations follow.
The index is kept along the way. No simple name has a dot. -/
inductive Built (types : List TypeInfo) : TypeTable → NameIndex → Prop where
  | ofTypes (dotless : ∀ info ∈ types, info.Dotless) :
      Built types (.ofTypes types) (.ofTypes (ofTypes types).toTypes)
  | declare {table : TypeTable} {index : NameIndex} {info : TypeInfo}
      (before : Built types table index) (dotless : info.Dotless) :
      Built types (table.declare info).2 (index.declare info table.size)

variable {types : List TypeInfo} {table : TypeTable} {index : NameIndex} {info : TypeInfo}

/-- A declaration takes the place of the last one with its full name, or the place behind all. -/
theorem declare_cases (table : TypeTable) (info : TypeInfo) :
    (∃ id, findFull? table.entries info.fullName = some id ∧
      table.declare info = (id, { table with entries := replace table.entries id info })) ∨
    (findFull? table.entries info.fullName = none ∧
      table.declare info =
        (table.size, { table with entries := push table.entries info })) := by
  cases found : findFull? table.entries info.fullName with
  | some id =>
    exact .inl ⟨id, rfl, by simp [TypeTable.declare, TypeEntries.declare, found, replace]⟩
  | none => exact .inr ⟨rfl, by simp [TypeTable.declare, TypeEntries.declare, found, size]⟩

/-- What every step of a history keeps. -/
structure Sound (types : List TypeInfo) (table : TypeTable) (index : NameIndex) : Prop where
  plain : Plain table.entries
  agrees : index.Agrees table.entries
  knows : Knows table.entries table.wellKnown
  given : types.map (·.fullName) <+: table.entries.map (·.info.fullName)

/-- The entries of a table are recovered from their declarations. -/
theorem foldl_push_toTypes (plain : Plain table.entries) :
    table.toTypes.foldl push [] = table.entries := by
  rw [foldl_push, toTypes, List.map_map]
  refine (List.map_congr_left fun entry member => ?_).trans (List.map_id _)
  exact congrArg (TypeEntry.mk entry.info) (plain entry member).1.symm

/-- A new table is its list of types, completed by the runtime types. -/
theorem ofTypes_completes (types : List TypeInfo) :
    Grows (types.foldl push []) (ofTypes types).entries ∧
      Knows (ofTypes types).entries (ofTypes types).wellKnown := by
  have completes := completes_ensureWellKnown (types.foldl push [])
  rw [ofTypes]
  generalize ensureWellKnown.run (types.foldl push []) = result at completes ⊢
  exact completes

/-- A new table is sound. -/
theorem sound_ofTypes (dotless : ∀ info ∈ types, info.Dotless) :
    Sound types (.ofTypes types) (.ofTypes (ofTypes types).toTypes) := by
  have plainStart : Plain (types.foldl push []) := by
    rw [foldl_push]
    exact List.forall_mem_map.2 fun info member => ⟨rfl, dotless info member⟩
  obtain ⟨grows, knows⟩ := ofTypes_completes types
  have plain : Plain (ofTypes types).entries := grows.plain plainStart
  refine ⟨plain, ?_, knows, ?_⟩
  · have agrees := NameIndex.agrees_ofTypes (ofTypes types).toTypes
    rwa [foldl_push_toTypes plain] at agrees
  · have inFront := grows.inFront.map (·.info.fullName)
    rwa [foldl_push, List.map_map] at inFront

/-- A declaration keeps a table sound. -/
theorem Sound.declare (sound : Sound types table index) (dotless : info.Dotless) :
    Sound types (table.declare info).2 (index.declare info table.size) := by
  obtain ⟨plain, agrees, knows, given⟩ := sound
  rcases declare_cases table info with ⟨id, found, declared⟩ | ⟨absent, declared⟩
  · have sameFull := fullNames_replace found
    have kept : index.declare info table.size = index := by
      rw [NameIndex.declare, agrees.full, found]
    rw [declared, kept]
    refine ⟨plain.replace dotless found, ⟨?_, ?_⟩, ⟨?_, ?_⟩, ?_⟩
    · exact agrees.full.trans (findFull?_congr sameFull).symm
    · exact agrees.simple.trans (findSimple?_congr simpleNames_replace).symm
    · rw [findFull?_congr sameFull]
      exact knows.named
    · rw [findFull?_congr sameFull]
      exact knows.behaviour
    · rw [sameFull]
      exact given
  · have added : index.declare info table.size = index.add info table.entries.length := by
      rw [NameIndex.declare, agrees.full, absent]
      rfl
    have grows := grows_push dotless absent
    rw [declared, added]
    exact ⟨plain.push dotless, agrees.push, knows.grows grows,
      given.trans (grows.inFront.map _)⟩

/-- A table with a history is sound. -/
theorem Built.sound (built : Built types table index) : Sound types table index := by
  induction built with
  | ofTypes dotless => exact sound_ofTypes dotless
  | declare _ dotless inductionHypothesis => exact inductionHypothesis.declare dotless

/-! ## Consistency -/

/-- `after` is the table `before` with `info` declared at `id`, and nothing has moved. -/
structure DeclaredAt (before : TypeTable) (info : TypeInfo) (id : TypeId) (after : TypeTable) :
    Prop where
  /-- The declaration is found under its handle. -/
  placed : after.get? id = some info
  /-- Every entry keeps its handle and its names, and all but one keep everything. -/
  stays {other : TypeId} {old : TypeInfo} : before.get? other = some old →
    ∃ new, after.get? other = some new ∧ new.fullName = old.fullName ∧ new.name = old.name ∧
      (other ≠ id → new = old)
  /-- No handle of a runtime type changes. -/
  known : after.wellKnown = before.wellKnown

/-- The names of a table lead where they should, and its list of types determines it. -/
structure Consistent (types : List TypeInfo) (table : TypeTable) (index : NameIndex) : Prop where
  /-- The types that the table started from are at their places. -/
  given {id : TypeId} {info : TypeInfo} : types[id]? = some info →
    ∃ now, table.get? id = some now ∧ now.fullName = info.fullName
  /-- Whatever the index holds is a handle of the table. -/
  inRange {name : String} {id : TypeId} :
    index.full name = some id ∨ index.simple name = some id → id < table.size
  /-- A full name leads to the last type with it. -/
  full_iff {name : String} {id : TypeId} :
    index.full name = some id ↔ IsLast table.toTypes (·.fullName = name) id
  /-- A simple name leads to the first type with it. -/
  simple_iff {name : String} {id : TypeId} :
    index.simple name = some id ↔ IsFirst table.toTypes (·.name = name) id
  /-- A name is looked up as a full name first. -/
  lookup_eq (name : String) : table.lookup? name = (index.full name).or (index.simple name)
  /-- What is found has the name, as its full name or as its simple one. -/
  lookup_some {name : String} {id : TypeId} : table.lookup? name = some id →
    ∃ info, table.get? id = some info ∧ (info.fullName = name ∨ info.name = name)
  /-- Nothing is found exactly when no type has the name. -/
  lookup_none_iff {name : String} : table.lookup? name = none ↔
    ∀ info ∈ table.toTypes, info.fullName ≠ name ∧ info.name ≠ name
  /-- The handles of the runtime types have their full names. -/
  known : ∀ type ∈ table.wellKnown.named,
    index.full type.1 = some type.2 ∧
      ∃ info, table.get? type.2 = some info ∧ info.fullName = type.1
  /-- A further declaration moves nothing. -/
  declares {info : TypeInfo} : info.Dotless →
    DeclaredAt table info (table.declare info).1 (table.declare info).2
  /-- Building the table anew from its types gives the same table and the same index. -/
  rebuilt : ofTypes table.toTypes = table ∧ NameIndex.ofTypes table.toTypes = index

namespace Sound

variable (sound : Sound types table index)

include sound

/-- A full name leads to the last type that has it. -/
theorem full_iff {name : String} {id : TypeId} :
    index.full name = some id ↔ IsLast table.toTypes (·.fullName = name) id := by
  rw [sound.agrees.full, findFull?_eq_some_iff, toTypes, isLast_map]
  rfl

/-- A simple name leads to the first type that has it. -/
theorem simple_iff {name : String} {id : TypeId} :
    index.simple name = some id ↔ IsFirst table.toTypes (·.name = name) id := by
  have sameNames : table.entries.map (·.simpleName) = table.entries.map (·.info.name) :=
    List.map_congr_left fun entry member => (sound.plain entry member).1
  have byName {names : TypeEntry → String} : IsFirst (table.entries.map names) (· = name) id ↔
      IsFirst table.entries (names · = name) id := isFirst_map
  rw [sound.agrees.simple, findSimple?_eq_some_iff, ← byName, sameNames, byName, toTypes,
    isFirst_map]
  rfl

/-- A name is looked up as a full one first. -/
theorem lookup_eq (name : String) :
    table.lookup? name = (index.full name).or (index.simple name) := by
  rw [lookup?, sound.agrees.full, sound.agrees.simple]

/-- A name is not found if no type has it, in full or as its simple name. -/
theorem lookup_none_iff {name : String} : table.lookup? name = none ↔
    ∀ info ∈ table.toTypes, info.fullName ≠ name ∧ info.name ≠ name := by
  rw [lookup?, Option.or_eq_none_iff, findFull?_eq_none_iff, findSimple?_eq_none_iff, toTypes,
    List.forall_mem_map]
  constructor
  · rintro ⟨noFull, noSimple⟩ entry member
    rw [← (sound.plain entry member).1]
    exact ⟨noFull entry member, noSimple entry member⟩
  · intro noName
    refine ⟨fun entry member => (noName entry member).1, fun entry member => ?_⟩
    rw [(sound.plain entry member).1]
    exact (noName entry member).2

/-- A declaration that replaces another one has the names of the one before it. -/
theorem declaredAt (dotless : info.Dotless) :
    DeclaredAt table info (table.declare info).1 (table.declare info).2 := by
  rcases declare_cases table info with ⟨place, found, declared⟩ | ⟨-, declared⟩
  · obtain ⟨⟨entry, present, sameFull⟩, -⟩ := findFull?_eq_some_iff.1 found
    have plainEntry := sound.plain entry (List.mem_of_getElem? present)
    have sameName := TypeInfo.name_eq_of_fullName_eq plainEntry.2 dotless sameFull
    rw [declared]
    refine ⟨by simp [get?, replace, present], fun {other old} was => ?_, rfl⟩
    by_cases here : place = other
    · subst here
      obtain rfl : entry.info = old := by simpa [get?, present] using was
      refine ⟨info, by simp [get?, replace, present], sameFull.symm, sameName.symm, ?_⟩
      exact fun elsewhere => absurd rfl elsewhere
    · refine ⟨old, ?_, rfl, rfl, fun _ => rfl⟩
      simpa [get?, replace, List.getElem?_modify, here] using was
  · rw [declared]
    refine ⟨by simp [get?, push, size], fun {other old} was => ?_, rfl⟩
    obtain ⟨entry, present, rfl⟩ := Option.map_eq_some_iff.1 was
    have inside := (List.getElem?_eq_some_iff.1 present).1
    refine ⟨entry.info, ?_, rfl, rfl, fun _ => rfl⟩
    simp [get?, push, List.getElem?_append_left inside, present]

/-- Building the table anew adds no runtime type, since all are there. -/
theorem ofTypes_toTypes : ofTypes table.toTypes = table := by
  rw [ofTypes, foldl_push_toTypes sound.plain, sound.knows.ensureWellKnown_eq]

/-- The index can be rebuilt from the types. -/
theorem index_toTypes : NameIndex.ofTypes table.toTypes = index := by
  have anew := NameIndex.agrees_ofTypes table.toTypes
  rw [foldl_push_toTypes sound.plain] at anew
  have sameFull := anew.full.trans sound.agrees.full.symm
  have sameSimple := anew.simple.trans sound.agrees.simple.symm
  generalize NameIndex.ofTypes table.toTypes = rebuilt at sameFull sameSimple
  cases rebuilt
  cases index
  simp_all

end Sound

/-- A table with a history is consistent. -/
theorem built_consistent (built : Built types table index) : Consistent types table index := by
  have sound := built.sound
  have present {id : Nat} {info : TypeInfo} :
      table.get? id = some info ↔ table.toTypes[id]? = some info := by
    rw [get?, toTypes, List.getElem?_map]
  refine
    { full_iff := sound.full_iff
      simple_iff := sound.simple_iff
      lookup_eq := sound.lookup_eq
      lookup_none_iff := sound.lookup_none_iff
      declares := sound.declaredAt
      rebuilt := ⟨sound.ofTypes_toTypes, sound.index_toTypes⟩
      given := fun {id info} was => ?_
      inRange := fun {name id} held => ?_
      lookup_some := fun {name id} found => ?_
      known := fun type member => ?_ }
  -- The names that were given are the first ones of the table, in order.
  · obtain ⟨rest, whole⟩ := sound.given
    have named : (table.entries.map (·.info.fullName))[id]? = some info.fullName := by
      rw [← whole, List.getElem?_append_left (by simpa using (List.getElem?_eq_some_iff.1 was).1),
        List.getElem?_map, was, Option.map_some]
    obtain ⟨entry, found, same⟩ := List.getElem?_map.symm.trans named |> Option.map_eq_some_iff.1
    exact ⟨entry.info, by rw [get?, found, Option.map_some], same⟩
  · rw [sound.full_iff, sound.simple_iff] at held
    obtain ⟨info, found⟩ : ∃ info, table.toTypes[id]? = some info :=
      held.elim (fun last => last.1.imp fun _ => And.left)
        fun first => first.1.imp fun _ => And.left
    simpa [toTypes, size] using (List.getElem?_eq_some_iff.1 found).1
  · rw [sound.lookup_eq, Option.or_eq_some_iff, sound.full_iff, sound.simple_iff] at found
    rcases found with ⟨⟨info, found, same⟩, -⟩ | ⟨-, ⟨info, found, same⟩, -⟩
    · exact ⟨info, present.2 found, .inl same⟩
    · exact ⟨info, present.2 found, .inr same⟩
  · have named : index.full type.1 = some type.2 := by
      rw [sound.agrees.full]
      exact sound.knows.named type member
    obtain ⟨⟨info, found, same⟩, -⟩ := sound.full_iff.1 named
    exact ⟨named, info, present.2 found, same⟩

/-- Two types of one simple name, the first of them given twice and then declared anew, and a type
of the runtime that is declared anew with another base. -/
theorem redeclared_consistent :
    let actor := TypeInfo.library "Game" "Actor" none
    let types := [actor, .library "Toys" "Actor" (some 0), actor]
    let table := (((ofTypes types).declare { actor with kind := .structType }).2.declare
      (.library "System" "Enum" (some 2))).2
    ∃ index, Built types table index ∧ Consistent types table index := by
  intro actor types table
  have built : Built types table _ :=
    ((Built.ofTypes (by decide)).declare (by decide)).declare (by decide)
  exact ⟨_, built, built_consistent built⟩

end TypeTable

end ScriptSharp
