import Mathlib.Algebra.BigOperators.Fin
import Mathlib.Data.List.Perm.Basic
import Mathlib.Logic.Relation
import ScriptSharp.Types.Subtype

/-!
# Subtyping is reachability

A type is a subtype of what its links lead to, in any number of steps. `Search.Round` is one round
of the search for a target, with no bound on the number of rounds and with no order in which the
pending handles are taken. A round that expands a handle trades its links for pending ones, so every
round makes `Search.size` smaller: the search ends in any table, also in one with cycles or with
links that leave it. What it has expanded is closed under links except for what is still pending.
-/

namespace ScriptSharp.TypeTable

variable {table : TypeTable} {source target id : TypeId}

/-! ## Links -/

/-- The table has an entry at `id`, whose base type or one of whose interfaces has the handle
`above`. -/
def Extends (table : TypeTable) (id above : TypeId) : Prop :=
  ∃ info, table.get? id = some info ∧
    ∃ ty, (info.base = some ty ∨ ty ∈ info.interfaces) ∧ ty.typeId? = some above

/-- Links lead from `source` to `target`, in zero or more steps. -/
abbrev Reaches (table : TypeTable) : TypeId → TypeId → Prop :=
  Relation.ReflTransGen table.Extends

/-- The types above a type are those that it extends. -/
theorem mem_supertypes_iff {above : TypeId} :
    above ∈ table.supertypes id ↔ table.Extends id above := by
  rw [supertypes, Extends]
  cases table.get? id with
  | none => simp
  | some info =>
    simp only [TypeInfo.supertypes, List.mem_append, List.mem_filterMap, Option.mem_toList,
      Option.some.injEq, exists_eq_left']
    grind

/-- A handle that is not in the table has nothing above it. -/
theorem supertypes_of_size_le (outside : table.size ≤ id) : table.supertypes id = [] := by
  rw [supertypes, get?, List.getElem?_eq_none outside]
  rfl

/-! ## Rounds -/

/-- Where a search has got to. -/
structure Search where
  /-- The handles that are still to be taken. -/
  pending : List TypeId
  /-- The handles that have been expanded. -/
  visited : List TypeId

namespace Search

/-- A search for what is above a handle, before its first round. -/
def start (source : TypeId) : Search := ⟨[source], []⟩

/-- One round takes a pending handle that is not the target. The first time, the handles above it
become pending. -/
inductive Round (table : TypeTable) (target : TypeId) : Search → Search → Prop where
  | skip {pending rest visited : List TypeId} {id : TypeId} (taken : pending.Perm (id :: rest))
      (other : id ≠ target) (seen : id ∈ visited) :
      Round table target ⟨pending, visited⟩ ⟨rest, visited⟩
  | expand {pending rest visited : List TypeId} {id : TypeId} (taken : pending.Perm (id :: rest))
      (other : id ≠ target) (fresh : id ∉ visited) :
      Round table target ⟨pending, visited⟩ ⟨table.supertypes id ++ rest, id :: visited⟩

/-- The number of rounds between two states of a search. -/
inductive Rounds (table : TypeTable) (target : TypeId) : Nat → Search → Search → Prop where
  | none (search : Search) : Rounds table target 0 search search
  | next {count : Nat} {search next last : Search} (round : Round table target search next)
      (later : Rounds table target count next last) : Rounds table target (count + 1) search last

/-- A search can end with this answer: it takes the target, or it runs out of handles. -/
inductive Answers (table : TypeTable) (target : TypeId) : Search → Bool → Prop where
  | found {pending visited : List TypeId} (taken : target ∈ pending) :
      Answers table target ⟨pending, visited⟩ true
  | exhausted {visited : List TypeId} : Answers table target ⟨[], visited⟩ false
  | next {search next : Search} {answer : Bool} (round : Round table target search next)
      (later : Answers table target next answer) : Answers table target search answer

/-! ## Every search ends -/

/-- The number of links of the entries that have not been expanded. -/
def openLinks (table : TypeTable) (visited : List TypeId) : Nat :=
  ∑ id ∈ Finset.range table.size \ visited.toFinset, (table.supertypes id).length

/-- The number of rounds that a search can go on for. -/
def size (table : TypeTable) (search : Search) : Nat :=
  search.pending.length + openLinks table search.visited

/-- Before the first round all links are open. -/
theorem openLinks_nil (table : TypeTable) : openLinks table [] = table.linkCount := by
  have links (place : Fin table.size) :
      (table.supertypes place).length = table.entries[place].info.supertypes.length := by
    rw [supertypes, get?, List.getElem?_eq_getElem place.isLt]
    rfl
  rw [openLinks, List.toFinset_nil, Finset.sdiff_empty, Finset.sum_range]
  simp only [links]
  rw [linkCount, List.length_flatMap]
  exact Fin.sum_univ_fun_getElem table.entries fun entry => entry.info.supertypes.length

/-- The first state has as many rounds to go as there are links, and one more. -/
theorem size_start (table : TypeTable) (source : TypeId) :
    (start source).size table = table.linkCount + 1 := by
  rw [size, start, openLinks_nil, List.length_singleton, Nat.add_comm]

/-- The links of a handle are open until it is expanded. -/
theorem openLinks_cons {visited : List TypeId} (fresh : id ∉ visited) :
    openLinks table visited =
      (table.supertypes id).length + openLinks table (id :: visited) := by
  have less : Finset.range table.size \ (id :: visited).toFinset =
      (Finset.range table.size \ visited.toFinset).erase id := by
    rw [List.toFinset_cons, Finset.sdiff_insert]
  rw [openLinks, openLinks, less]
  by_cases inside : id < table.size
  · refine (Finset.add_sum_erase _ _ ?_).symm
    simpa [inside] using fresh
  · have absent : id ∉ Finset.range table.size \ visited.toFinset := by simp [inside]
    rw [Finset.erase_eq_of_notMem absent, supertypes_of_size_le (Nat.le_of_not_lt inside)]
    simp

/-- Every round leaves one round less to go. -/
theorem Round.size_eq {search next : Search} (round : Round table target search next) :
    search.size table = next.size table + 1 := by
  cases round with
  | skip taken other seen =>
    simp only [size, taken.length_eq, List.length_cons]
    omega
  | expand taken other fresh =>
    simp only [size, taken.length_eq, List.length_cons, List.length_append, openLinks_cons fresh]
    omega

/-- No search goes on for more rounds than it has to go. -/
theorem Rounds.count_le {count : Nat} {search last : Search}
    (rounds : Rounds table target count search last) : count ≤ search.size table := by
  induction rounds with
  | none => exact Nat.zero_le _
  | next round _ inductionHypothesis =>
    rw [round.size_eq]
    exact Nat.succ_le_succ inductionHypothesis

/-! ## Every answer is right -/

/-- What a search for `target` from `source` on keeps. -/
structure Sound (table : TypeTable) (source target : TypeId) (search : Search) : Prop where
  started : source ∈ search.pending ∨ source ∈ search.visited
  reached : ∀ id ∈ search.pending, table.Reaches source id
  closed : ∀ id ∈ search.visited, table.Reaches source id ∧
    ∀ above, table.Extends id above → above ∈ search.pending ∨ above ∈ search.visited
  missed : target ∉ search.visited

/-- A search starts soundly. -/
theorem sound_start (table : TypeTable) (source target : TypeId) :
    Sound table source target (start source) where
  started := .inl List.mem_cons_self
  reached id member := by
    rw [List.mem_singleton.1 member]
  closed := nofun
  missed := nofun

/-- A round keeps a search sound. -/
theorem Sound.round {search next : Search} (sound : Sound table source target search)
    (round : Round table target search next) : Sound table source target next := by
  obtain ⟨started, reached, closed, missed⟩ := sound
  -- Whatever is listed before a round is listed after it: a type that is taken out is expanded now
  -- or has been.
  cases round with
  | @skip pending rest visited id taken other seen =>
    have kept {handle : TypeId} (listed : handle ∈ pending ∨ handle ∈ visited) :
        handle ∈ rest ∨ handle ∈ visited := by
      rcases listed with waiting | expanded
      · rcases List.mem_cons.1 (taken.mem_iff.1 waiting) with rfl | later
        · exact .inr seen
        · exact .inl later
      · exact .inr expanded
    refine ⟨kept started, fun handle member => ?_, fun handle member => ?_, missed⟩
    · exact reached handle (taken.mem_iff.2 (List.mem_cons_of_mem _ member))
    · exact ⟨(closed handle member).1, fun above link => kept ((closed handle member).2 above link)⟩
  | @expand pending rest visited id taken other fresh =>
    have kept {handle : TypeId} (listed : handle ∈ pending ∨ handle ∈ visited) :
        handle ∈ table.supertypes id ++ rest ∨ handle ∈ id :: visited := by
      rcases listed with waiting | expanded
      · rcases List.mem_cons.1 (taken.mem_iff.1 waiting) with rfl | later
        · exact .inr List.mem_cons_self
        · exact .inl (List.mem_append_right _ later)
      · exact .inr (List.mem_cons_of_mem _ expanded)
    have here : table.Reaches source id := reached id (taken.mem_iff.2 List.mem_cons_self)
    refine ⟨kept started, fun handle member => ?_, fun handle member => ?_, ?_⟩
    · rcases List.mem_append.1 member with above | later
      · exact here.tail (mem_supertypes_iff.1 above)
      · exact reached handle (taken.mem_iff.2 (List.mem_cons_of_mem _ later))
    · rcases List.mem_cons.1 member with rfl | earlier
      · exact ⟨here, fun above link =>
          .inl (List.mem_append_left _ (mem_supertypes_iff.2 link))⟩
      · exact ⟨(closed handle earlier).1, fun above link =>
          kept ((closed handle earlier).2 above link)⟩
    · intro member
      rcases List.mem_cons.1 member with same | earlier
      · exact other same.symm
      · exact missed earlier

/-- Where nothing is pending, everything above the source has been expanded. -/
theorem Sound.visited_of_reaches {visited : List TypeId}
    (sound : Sound table source target ⟨[], visited⟩) (reaches : table.Reaches source id) :
    id ∈ visited := by
  induction reaches with
  | refl => exact sound.started.resolve_left List.not_mem_nil
  | tail _ link inductionHypothesis =>
    exact ((sound.closed _ inductionHypothesis).2 _ link).resolve_left List.not_mem_nil

/-- A sound search that ends takes its target exactly when links lead there. -/
theorem Answers.iff_reaches {search : Search} {answer : Bool}
    (answers : Answers table target search answer) (sound : Sound table source target search) :
    answer = true ↔ table.Reaches source target := by
  induction answers with
  | found taken => exact iff_of_true rfl (sound.reached target taken)
  | exhausted =>
    exact iff_of_false Bool.false_ne_true fun reaches =>
      sound.missed (sound.visited_of_reaches reaches)
  | next round _ inductionHypothesis => exact inductionHypothesis (sound.round round)

end Search

/-! ## The search with a bound -/

/-- With more fuel than rounds, the bounded search gives an answer of the unbounded one. -/
theorem reaches_answers {fuel : Nat} {pending visited : List TypeId}
    (enough : Search.size table ⟨pending, visited⟩ < fuel) :
    Search.Answers table target ⟨pending, visited⟩
      (table.reaches target fuel pending visited) := by
  induction fuel generalizing pending visited with
  | zero => exact absurd enough (Nat.not_lt_zero _)
  | succ fuel inductionHypothesis =>
    cases pending with
    | nil => exact .exhausted
    | cons id pending =>
      rw [reaches]
      split_ifs with isTarget seen
      · exact .found (isTarget ▸ List.mem_cons_self)
      · have round : Search.Round table target ⟨id :: pending, visited⟩ ⟨pending, visited⟩ :=
          .skip (.refl _) isTarget seen
        refine .next round (inductionHypothesis ?_)
        have := round.size_eq
        omega
      · have round : Search.Round table target ⟨id :: pending, visited⟩
            ⟨table.supertypes id ++ pending, id :: visited⟩ := .expand (.refl _) isTarget seen
        refine .next round (inductionHypothesis ?_)
        have := round.size_eq
        omega

/-- The search of the table ends with its answer. -/
theorem answers_isSubtype (table : TypeTable) (source target : TypeId) :
    Search.Answers table target (.start source) (table.isSubtype source target) := by
  refine reaches_answers ?_
  rw [← Search.start, Search.size_start]
  omega

/-- A type is a subtype of another one exactly when links lead there. -/
theorem isSubtype_iff : table.isSubtype source target = true ↔ table.Reaches source target :=
  (answers_isSubtype table source target).iff_reaches (Search.sound_start table source target)

/-- Subtypes of subtypes are subtypes. -/
theorem isSubtype_trans {middle : TypeId} (below : table.isSubtype source middle = true)
    (above : table.isSubtype middle target = true) : table.isSubtype source target = true :=
  isSubtype_iff.2 ((isSubtype_iff.1 below).trans (isSubtype_iff.1 above))

/-- A type is a subtype of exactly those that its links lead to. The search for one ends after at
most one round for each link and one more, whatever handles the rounds take, and it ends with this
answer. -/
theorem isSubtype_iff_reaches (table : TypeTable) (source target : TypeId) :
    (table.isSubtype source target = true ↔ table.Reaches source target) ∧
      (∀ answer, Search.Answers table target (.start source) answer ↔
        answer = table.isSubtype source target) ∧
      ∀ count last, Search.Rounds table target count (.start source) last →
        count ≤ table.linkCount + 1 := by
  have ends := answers_isSubtype table source target
  refine ⟨isSubtype_iff, fun answer => ⟨fun answers => ?_, fun same => same ▸ ends⟩, ?_⟩
  · have sound := Search.sound_start table source target
    exact Bool.eq_iff_iff.2 ((answers.iff_reaches sound).trans isSubtype_iff.symm)
  · intro count last rounds
    exact Search.size_start table source ▸ rounds.count_le

/-- Two types that are below each other, one of them by a generic type, and a handle behind the last
entry as an interface. -/
def ring : TypeTable :=
  .ofTypes [⟨"Left", none, .classType, some (.named 1), [.named 99], []⟩,
    ⟨"Right", none, .classType, some (.generic 0 [.int]), [], []⟩]

/-- A search around a ring of types ends, and finds what the ring leads to. -/
theorem isSubtype_iff_reaches_ring :
    Search.Rounds ring 7 4 (.start 0) ⟨[], [99, 1, 0]⟩ ∧ 4 ≤ ring.linkCount + 1 ∧
      ring.Reaches 0 99 ∧ ¬ring.Reaches 0 7 := by
  have rounds : Search.Rounds ring 7 4 (.start 0) ⟨[], [99, 1, 0]⟩ :=
    .next (.expand (.refl _) (by decide) (by decide)) <|
      .next (.expand (.refl _) (by decide) (by decide)) <|
        .next (.skip (.refl _) (by decide) (by decide)) <|
          .next (.expand (.refl _) (by decide) (by decide)) (.none _)
  obtain ⟨reaches, -, bounded⟩ := isSubtype_iff_reaches ring 0 7
  refine ⟨rounds, bounded 4 _ rounds, (isSubtype_iff_reaches ring 0 99).1.1 (by decide +kernel), ?_⟩
  rw [← reaches]
  decide +kernel

end ScriptSharp.TypeTable
