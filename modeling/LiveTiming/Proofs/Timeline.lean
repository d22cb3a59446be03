import LiveTiming.Timeline
import LiveTiming.Proofs.Heap
import Mathlib.Data.Finset.Card
import Mathlib.Data.Finset.Insert

namespace LiveTiming

/-- Events are ordered by time, and by number at the same time. -/
theorem Event.le_iff {a b : Event} :
    a.le b = true ↔ a.time < b.time ∨ a.time = b.time ∧ a.id ≤ b.id := by
  simp [Event.le]

theorem Event.le_total (a b : Event) : a.le b = true ∨ b.le a = true := by
  simp only [Event.le_iff]
  grind

theorem Event.le_trans (a b c : Event) (ab : a.le b = true) (bc : b.le c = true) :
    a.le c = true := by
  rw [Event.le_iff] at ab bc ⊢
  grind

/-- Only an event itself comes both before and after it. -/
theorem Event.id_eq_of_le {a b : Event} (ab : a.le b = true) (ba : b.le a = true) : a.id = b.id := by
  rw [Event.le_iff] at ab ba
  grind

/-- Whether an event comes before another one. -/
def Event.Before (a b : Event) : Prop :=
  a.le b = true ∧ a.id ≠ b.id

namespace Timeline

/-- The events that are still to come. -/
def pending (t : Timeline) : Finset Event :=
  (t.heap.toList.filter fun e => t.live.contains e.id).toFinset

/-- The heap is in order and holds every live event once, under a number that was
given out. -/
structure Sound (t : Timeline) : Prop where
  ordered : t.heap.Ordered Event.le
  distinct : (t.heap.toList.map Event.id).Nodup
  issued : ∀ e ∈ t.heap.toList, e.id < t.nextId
  stored : ∀ id, t.live.contains id = true → ∃ e ∈ t.heap.toList, e.id = id

variable {t u : Timeline} {e : Event} {id now : Nat}

/-- An event is to come if it stands in the heap and has not been cancelled. -/
theorem mem_pending : e ∈ t.pending ↔ e ∈ t.heap.toList ∧ t.live.contains e.id = true := by
  simp [pending]

theorem sound_empty : Sound {} where
  ordered := trivial
  distinct := .nil
  issued := by simp [Heap.toList]
  stored := by simp

@[simp] theorem pending_empty : pending {} = ∅ := rfl

/-- Only numbers that were given out are to come. -/
theorem Sound.pending_issued (sound : t.Sound) (member : e ∈ t.pending) : e.id < t.nextId :=
  sound.issued e (mem_pending.mp member).1

theorem Sound.pending_eq (sound : t.Sound) {a b : Event} (left : a ∈ t.pending) (right : b ∈ t.pending)
    (same : a.id = b.id) : a = b :=
  List.inj_on_of_nodup_map sound.distinct (mem_pending.mp left).1 (mem_pending.mp right).1 same

/-- The timeline knows the numbers of the events to come. -/
theorem Sound.contains_iff (sound : t.Sound) : t.contains id = true ↔ ∃ e ∈ t.pending, e.id = id := by
  constructor
  · intro live
    obtain ⟨e, member, same⟩ := sound.stored id live
    exact ⟨e, mem_pending.mpr ⟨member, same ▸ live⟩, same⟩
  · rintro ⟨e, member, rfl⟩
    exact (mem_pending.mp member).2

theorem live_nodup (t : Timeline) : t.live.toList.Nodup := by
  have distinct : t.live.toList.Pairwise fun a b => ¬ compare a b = .eq :=
    Std.TreeSet.distinct_toList
  exact distinct.imp fun different same => different (by simp [same])

/-- The size is the number of events to come, however many cancelled ones the heap still holds. -/
theorem Sound.size_eq (sound : t.Sound) : t.size = t.pending.card := by
  have ids : t.live.toList.Perm ((t.heap.toList.filter fun e => t.live.contains e.id).map Event.id) := by
    refine (List.perm_ext_iff_of_nodup t.live_nodup ?_).mpr fun id => ?_
    · exact sound.distinct.sublist (List.filter_sublist.map _)
    · rw [Std.TreeSet.mem_toList, ← Std.TreeSet.contains_iff_mem]
      constructor
      · intro live
        obtain ⟨e, member, same⟩ := sound.stored id live
        exact List.mem_map.mpr ⟨e, List.mem_filter.mpr ⟨member, same ▸ live⟩, same⟩
      · intro member
        obtain ⟨e, kept, rfl⟩ := List.mem_map.mp member
        simpa using (List.mem_filter.mp kept).2
  have nodup : (t.heap.toList.filter fun e => t.live.contains e.id).Nodup :=
    (List.Nodup.of_map _ sound.distinct).filter _
  rw [pending, List.toFinset_card_of_nodup nodup, size, ← Std.TreeSet.length_toList, ids.length_eq,
    List.length_map]

theorem insert_sound (sound : t.Sound) (time : Nat) (m : Message) : (t.insert time m).2.Sound where
  ordered := Heap.push_ordered Event.le_total Event.le_trans sound.ordered _
  distinct := by
    refine ((Heap.push_perm _ _).map Event.id).nodup_iff.mpr (List.nodup_cons.mpr ⟨?_, sound.distinct⟩)
    intro member
    obtain ⟨e, old, same⟩ := List.mem_map.mp member
    exact absurd same (Nat.ne_of_lt (sound.issued e old))
  issued := by
    intro e member
    rcases List.mem_cons.mp ((Heap.push_perm _ _).mem_iff.mp member) with new | old
    · exact new ▸ Nat.lt_succ_self _
    · exact Nat.lt_succ_of_lt (sound.issued e old)
  stored := by
    intro id live
    by_cases new : id = t.nextId
    · exact ⟨_, (Heap.push_perm _ _).mem_iff.mpr (List.mem_cons_self ..), new.symm⟩
    · have old : t.live.contains id = true := by
        simpa [insert, Std.TreeSet.contains_insert, Ne.symm new] using live
      obtain ⟨e, member, same⟩ := sound.stored id old
      exact ⟨e, (Heap.push_perm _ _).mem_iff.mpr (List.mem_cons_of_mem _ member), same⟩

/-- An event that is scheduled is added under the first free number. -/
theorem insert_pending (sound : t.Sound) (time : Nat) (m : Message) :
    (t.insert time m).2.pending = Insert.insert ⟨time, t.nextId, m⟩ t.pending := by
  ext e
  have members : e ∈ (t.insert time m).2.heap.toList ↔ e = ⟨time, t.nextId, m⟩ ∨ e ∈ t.heap.toList :=
    (Heap.push_perm _ _).mem_iff.trans List.mem_cons
  rw [mem_pending, Finset.mem_insert, mem_pending, members]
  constructor
  · rintro ⟨new | old, live⟩
    · exact Or.inl new
    · have different : t.nextId ≠ e.id := Nat.ne_of_gt (sound.issued e old)
      exact Or.inr ⟨old, by simpa [insert, Std.TreeSet.contains_insert, different] using live⟩
  · rintro (new | ⟨old, live⟩)
    · exact ⟨Or.inl new, by simp [new, insert]⟩
    · exact ⟨Or.inr old, by simp [insert, Std.TreeSet.contains_insert, live]⟩

theorem cancel_sound (sound : t.Sound) (id : EventId) : (t.cancel id).2.Sound where
  ordered := sound.ordered
  distinct := sound.distinct
  issued := sound.issued
  stored := fun other live => sound.stored other (Std.TreeSet.contains_of_contains_erase live)

/-- An event that is cancelled is no longer to come, though it may stand in the heap still. -/
theorem cancel_pending (t : Timeline) (id : EventId) :
    (t.cancel id).2.pending = t.pending.filter (·.id ≠ id) := by
  ext e
  simp only [mem_pending, cancel, Std.TreeSet.contains_erase, Finset.mem_filter]
  grind

/-- One event fewer is to come exactly when the answer is that it was. -/
theorem cancel_card (sound : t.Sound) (id : EventId) :
    (t.cancel id).1.toNat + (t.cancel id).2.pending.card = t.pending.card := by
  rw [cancel_pending]
  by_cases live : t.live.contains id = true
  · obtain ⟨e, member, rfl⟩ := sound.contains_iff.mp live
    have others : t.pending.filter (·.id ≠ e.id) = t.pending.erase e := by
      ext other
      rw [Finset.mem_filter, Finset.mem_erase, and_comm]
      refine and_congr_left fun old => not_congr ⟨fun same => ?_, fun same => congrArg _ same⟩
      exact sound.pending_eq old member same
    have positive : 0 < t.pending.card := Finset.card_pos.mpr ⟨e, member⟩
    rw [others, Finset.card_erase_of_mem member]
    simp only [cancel, live, Bool.toNat_true]
    omega
  · have others : t.pending.filter (·.id ≠ id) = t.pending := by
      refine Finset.filter_true_of_mem fun e member same => ?_
      exact live (sound.contains_iff.mpr ⟨e, member, same⟩)
    rw [others]
    simp [cancel, live]

/-- Discarding loses no live event, and with enough steps a live one is on top. -/
theorem discardCancelled_spec (live : Std.TreeSet EventId) {h : Heap Event} (ordered : h.Ordered Event.le)
    (steps : Nat) :
    (discardCancelled live steps h).Ordered Event.le ∧
      (∃ gone, h.toList.Perm (gone ++ (discardCancelled live steps h).toList) ∧
        ∀ e ∈ gone, live.contains e.id = false) ∧
      (h.toList.length ≤ steps →
        ∀ e, (discardCancelled live steps h).peek? = some e → live.contains e.id = true) := by
  induction steps generalizing h with
  | zero =>
    refine ⟨ordered, ⟨[], .refl _, by simp⟩, fun short e top => ?_⟩
    have empty := List.eq_nil_of_length_eq_zero (Nat.le_zero.mp short)
    simp [discardCancelled, Heap.peek_none_iff.mpr empty] at top
  | succ steps ih =>
    unfold discardCancelled
    split
    · rename_i none
      exact ⟨ordered, ⟨[], .refl _, by simp⟩, fun _ e top => by simp [none] at top⟩
    · rename_i e top
      split
      · rename_i isLive
        refine ⟨ordered, ⟨[], .refl _, by simp⟩, fun _ other same => ?_⟩
        exact Option.some.inj (top.symm.trans same) ▸ isLive
      · rename_i dead
        have members : h.toList.Perm (e :: (h.pop Event.le).toList) := Heap.pop_perm top
        obtain ⟨rest, ⟨gone, split, cancelled⟩, reaches⟩ :=
          ih (Heap.pop_ordered Event.le_total Event.le_trans ordered)
        refine ⟨rest, ⟨e :: gone, members.trans (split.cons e), ?_⟩, fun short => reaches ?_⟩
        · intro other member
          rcases List.mem_cons.mp member with same | old
          · exact same ▸ Bool.eq_false_of_not_eq_true dead
          · exact cancelled other old
        · have length := members.length_eq
          simp only [List.length_cons] at length
          omega

/-- No more members are in the heap than numbers were given out. -/
theorem Sound.length_le (sound : t.Sound) : t.heap.toList.length ≤ t.nextId := by
  have within : t.heap.toList.map Event.id ⊆ List.range t.nextId := by
    intro id member
    obtain ⟨e, old, rfl⟩ := List.mem_map.mp member
    exact List.mem_range.mpr (sound.issued e old)
  have length := (List.subperm_of_subset sound.distinct within).length_le
  rwa [List.length_map, List.length_range] at length

theorem settleTop_sound (sound : t.Sound) : t.settleTop.Sound := by
  obtain ⟨ordered, ⟨gone, split, cancelled⟩, _⟩ :=
    discardCancelled_spec t.live sound.ordered t.nextId
  refine ⟨ordered, ?_, ?_, ?_⟩
  · have distinct := (split.map Event.id).nodup_iff.mp sound.distinct
    rw [List.map_append] at distinct
    exact distinct.of_append_right
  · intro e member
    exact sound.issued e (split.mem_iff.mpr (List.mem_append_right _ member))
  · intro id live
    obtain ⟨e, member, same⟩ := sound.stored id live
    rcases List.mem_append.mp (split.mem_iff.mp member) with dead | kept
    · have contradiction := cancelled e dead
      simp only [same] at contradiction
      exact absurd (contradiction.symm.trans live) (by simp)
    · exact ⟨e, kept, same⟩

/-- To tidy up the top changes nothing of what is to come. -/
theorem settleTop_pending (sound : t.Sound) : t.settleTop.pending = t.pending := by
  obtain ⟨_, ⟨gone, split, cancelled⟩, _⟩ := discardCancelled_spec t.live sound.ordered t.nextId
  ext e
  rw [mem_pending, mem_pending, split.mem_iff, List.mem_append]
  constructor
  · rintro ⟨kept, live⟩
    exact ⟨Or.inr kept, live⟩
  · rintro ⟨dead | kept, live⟩
    · exact absurd ((cancelled e dead).symm.trans live) (by simp)
    · exact ⟨kept, live⟩

/-- Once the top is tidied up it is the first event to come. -/
theorem settleTop_peek (sound : t.Sound) (top : t.settleTop.heap.peek? = some e) :
    e ∈ t.pending ∧ ∀ other ∈ t.pending, e.le other = true := by
  have reaches := (discardCancelled_spec t.live sound.ordered t.nextId).2.2 sound.length_le e top
  rw [← settleTop_pending sound]
  refine ⟨mem_pending.mpr ⟨Heap.peek_mem top, reaches⟩, fun other member => ?_⟩
  exact Heap.peek_least Event.le_total (settleTop_sound sound).ordered top (mem_pending.mp member).1

theorem settleTop_peek_none (sound : t.Sound) (none : t.settleTop.heap.peek? = none) :
    t.pending = ∅ := by
  rw [← settleTop_pending sound, pending, Heap.peek_none_iff.mp none]
  rfl

theorem nextTime_sound (sound : t.Sound) : t.nextTime.2.Sound :=
  settleTop_sound sound

/-- To look for the next time changes nothing of what is to come. -/
theorem nextTime_pending (sound : t.Sound) : t.nextTime.2.pending = t.pending :=
  settleTop_pending sound

/-- An event that is taken was still to come, is due, and is the first of those to
come. The others stay. -/
theorem takeDue_some (sound : t.Sound) (taken : t.takeDue now = (some e, u)) :
    e ∈ t.pending ∧ e.time ≤ now ∧ (∀ other ∈ t.pending, e.le other = true) ∧
      u.Sound ∧ u.pending = t.pending.erase e ∧ u.nextId = t.nextId := by
  unfold takeDue at taken
  dsimp only at taken
  split at taken
  · cases taken
  · rename_i first top
    split at taken
    · cases taken
    · rename_i due
      cases taken
      obtain ⟨member, least⟩ := settleTop_peek sound top
      have settled := settleTop_sound sound
      have members : t.settleTop.heap.toList.Perm (e :: (t.settleTop.heap.pop Event.le).toList) :=
        Heap.pop_perm top
      have apart := (members.map Event.id).nodup_iff.mp settled.distinct
      refine ⟨member, Nat.le_of_not_lt due, least, ⟨?_, ?_, ?_, ?_⟩, ?_, rfl⟩
      · exact Heap.pop_ordered Event.le_total Event.le_trans settled.ordered
      · exact (List.nodup_cons.mp apart).2
      · intro other kept
        exact settled.issued other (members.mem_iff.mpr (List.mem_cons_of_mem _ kept))
      · intro id live
        rw [Std.TreeSet.contains_erase, Bool.and_eq_true] at live
        obtain ⟨other, kept, same⟩ := settled.stored id live.2
        rcases List.mem_cons.mp (members.mem_iff.mp kept) with first | later
        · simp [← same, first] at live
        · exact ⟨other, later, same⟩
      · rw [← settleTop_pending sound]
        ext other
        rw [Finset.mem_erase, mem_pending, mem_pending, members.mem_iff, List.mem_cons,
          Std.TreeSet.contains_erase, Bool.and_eq_true]
        constructor
        · rintro ⟨kept, different, live⟩
          refine ⟨fun same => ?_, Or.inr kept, live⟩
          simp [same] at different
        · rintro ⟨different, same | kept, live⟩
          · exact absurd same different
          · refine ⟨kept, ?_, live⟩
            have distinct : e.id ≠ other.id := fun same =>
              (List.nodup_cons.mp apart).1 (same ▸ List.mem_map_of_mem kept)
            simpa using distinct

/-- Nothing is taken only if nothing is due, and then nothing changes. -/
theorem takeDue_none (sound : t.Sound) (taken : t.takeDue now = (none, u)) :
    (∀ e ∈ t.pending, now < e.time) ∧ u.Sound ∧ u.pending = t.pending ∧ u.nextId = t.nextId := by
  unfold takeDue at taken
  dsimp only at taken
  split at taken
  · rename_i none
    cases taken
    refine ⟨?_, settleTop_sound sound, settleTop_pending sound, rfl⟩
    simp [settleTop_peek_none sound none]
  · rename_i first top
    split at taken
    · rename_i early
      cases taken
      refine ⟨fun e member => ?_, settleTop_sound sound, settleTop_pending sound, rfl⟩
      have later := Event.le_iff.mp ((settleTop_peek sound top).2 e member)
      omega
    · cases taken

end Timeline

end LiveTiming
