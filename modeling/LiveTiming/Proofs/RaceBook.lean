import LiveTiming.Race.Book
import Mathlib.Data.Finset.Card
import Mathlib.Data.List.Nodup

namespace LiveTiming.RaceBook

variable {b : RaceBook} {t : Timeline} {c d : String} {id : EventId} {ids : List EventId}

/-- No component stands in the book twice. -/
def Distinct (b : RaceBook) : Prop :=
  (b.races.map Prod.fst).Nodup

/-- In a book that has one entry for each component, a component is looked up as its entry. -/
theorem lookup_iff (distinct : b.Distinct) : b.races.lookup c = some ids ↔ (c, ids) ∈ b.races := by
  constructor
  · intro found
    obtain ⟨before, after, split, _⟩ := List.lookup_eq_some_iff.mp found
    rw [split]
    exact List.mem_append_right _ (List.mem_cons_self ..)
  · intro member
    obtain ⟨before, after, split⟩ := List.append_of_mem member
    refine List.lookup_eq_some_iff.mpr ⟨before, after, split, fun p earlier => ?_⟩
    unfold Distinct at distinct
    rw [split, List.map_append, List.map_cons, List.nodup_append] at distinct
    have different := distinct.2.2 p.1 (List.mem_map_of_mem earlier) c (List.mem_cons_self ..)
    simpa using different.symm

/-- The events of a component are those that its entry lists. -/
theorem mem_eventsOf (distinct : b.Distinct) :
    id ∈ b.eventsOf c ↔ ∃ ids, (c, ids) ∈ b.races ∧ id ∈ ids := by
  simp only [← lookup_iff distinct, eventsOf]
  cases b.races.lookup c <;> simp

theorem prune_distinct (distinct : b.Distinct) (t : Timeline) : (b.prune t).Distinct := by
  refine List.Nodup.sublist (List.filter_sublist.map _) ?_
  rw [List.map_map]
  exact distinct

/-- A book that is looked through keeps what is still to come. -/
theorem mem_prune (distinct : b.Distinct) :
    id ∈ (b.prune t).eventsOf c ↔ id ∈ b.eventsOf c ∧ t.contains id = true := by
  rw [mem_eventsOf (prune_distinct distinct t), mem_eventsOf distinct]
  simp only [prune, List.mem_filter, List.mem_map, Prod.exists, Prod.mk.injEq]
  constructor
  · rintro ⟨_, ⟨⟨name, ids, listed, rfl, rfl⟩, _⟩, member⟩
    obtain ⟨old, live⟩ := List.mem_filter.mp member
    exact ⟨⟨ids, listed, old⟩, live⟩
  · rintro ⟨⟨ids, listed, old⟩, live⟩
    have member : id ∈ ids.filter t.contains := List.mem_filter.mpr ⟨old, live⟩
    exact ⟨_, ⟨⟨c, ids, listed, rfl, rfl⟩, by simpa using ⟨id, old, live⟩⟩, member⟩

theorem extend_distinct (distinct : b.Distinct) (c : String) (ids : List EventId) :
    (b.extend c ids).Distinct := by
  unfold extend
  split
  · unfold Distinct
    rw [List.map_map]
    refine Eq.mpr (congrArg List.Nodup (List.map_congr_left fun p _ => ?_)) distinct
    dsimp only [Function.comp]
    split <;> rfl
  · rename_i absent
    unfold Distinct
    rw [List.map_append, List.nodup_append]
    refine ⟨distinct, List.nodup_singleton _, ?_⟩
    intro name listed other last same
    obtain ⟨p, member, rfl⟩ := List.mem_map.mp listed
    refine absent (List.lookup_isSome_iff.mpr ⟨p, member, ?_⟩)
    simpa [← same] using (List.mem_singleton.mp last).symm

/-- New events are added to those of their component. -/
theorem mem_extend (distinct : b.Distinct) :
    id ∈ (b.extend c ids).eventsOf d ↔ id ∈ b.eventsOf d ∨ d = c ∧ id ∈ ids := by
  rw [mem_eventsOf (extend_distinct distinct c ids), mem_eventsOf distinct]
  unfold extend
  split
  · rename_i present
    simp only [List.mem_map, Prod.exists]
    constructor
    · rintro ⟨all, ⟨name, old, listed, same⟩, member⟩
      split at same
      · rename_i here
        obtain ⟨rfl, rfl⟩ := Prod.mk.inj same
        rcases List.mem_append.mp member with noted | new
        · exact Or.inl ⟨old, listed, noted⟩
        · exact Or.inr ⟨here, new⟩
      · obtain ⟨rfl, rfl⟩ := Prod.mk.inj same
        exact Or.inl ⟨old, listed, member⟩
    · rintro (⟨old, listed, noted⟩ | ⟨rfl, new⟩)
      · by_cases here : d = c
        · exact ⟨old ++ ids, ⟨d, old, listed, if_pos here⟩, List.mem_append_left _ noted⟩
        · exact ⟨old, ⟨d, old, listed, if_neg here⟩, noted⟩
      · obtain ⟨old, found⟩ := Option.isSome_iff_exists.mp present
        exact ⟨old ++ ids, ⟨d, old, (lookup_iff distinct).mp found, if_pos rfl⟩,
          List.mem_append_right _ new⟩
  · simp only [List.mem_append, List.mem_singleton, Prod.mk.injEq]
    constructor
    · rintro ⟨all, listed | ⟨rfl, rfl⟩, member⟩
      · exact Or.inl ⟨all, listed, member⟩
      · exact Or.inr ⟨rfl, member⟩
    · rintro (⟨old, listed, noted⟩ | ⟨rfl, new⟩)
      · exact ⟨old, Or.inl listed, noted⟩
      · exact ⟨ids, Or.inr ⟨rfl, rfl⟩, new⟩

theorem forget_distinct (distinct : b.Distinct) (c : String) : (b.forget c).Distinct :=
  distinct.sublist (List.filter_sublist.map _)

/-- What is forgotten are the events of one component. -/
theorem mem_forget (distinct : b.Distinct) :
    id ∈ (b.forget c).eventsOf d ↔ d ≠ c ∧ id ∈ b.eventsOf d := by
  rw [mem_eventsOf (forget_distinct distinct c), mem_eventsOf distinct]
  simp only [forget, List.mem_filter]
  constructor
  · rintro ⟨ids, ⟨listed, different⟩, member⟩
    exact ⟨by simpa using different, ids, listed, member⟩
  · rintro ⟨different, ids, listed, member⟩
    exact ⟨ids, ⟨listed, by simpa using different⟩, member⟩

/-- The components that have an event to come are counted once each. -/
theorem active_eq (distinct : b.Distinct) (t : Timeline) :
    ∃ components : Finset String, b.active t = components.card ∧
      ∀ c, c ∈ components ↔ ∃ id ∈ b.eventsOf c, t.contains id = true := by
  refine ⟨((b.races.filter fun p => p.2.any t.contains).map Prod.fst).toFinset, ?_, fun c => ?_⟩
  · rw [List.toFinset_card_of_nodup (distinct.sublist (List.filter_sublist.map _)), List.length_map]
    rfl
  · simp only [List.mem_toFinset, List.mem_map, List.mem_filter, List.any_eq_true, mem_eventsOf distinct]
    constructor
    · rintro ⟨⟨name, ids⟩, ⟨listed, id, member, live⟩, rfl⟩
      exact ⟨id, ⟨ids, listed, member⟩, live⟩
    · rintro ⟨id, ⟨ids, listed, member⟩, live⟩
      exact ⟨(c, ids), ⟨listed, id, member, live⟩, rfl⟩

end LiveTiming.RaceBook
