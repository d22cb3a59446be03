import LiveTiming.Proofs.FeedRun

namespace LiveTiming

/-- Two timelines with the same events to come, however they keep them. -/
structure Timeline.Agree (t u : Timeline) : Prop where
  left : t.Sound
  right : u.Sound
  pending : u.pending = t.pending
  nextId : u.nextId = t.nextId

namespace Timeline.Agree

variable {t u v : Timeline}

theorem refl (sound : t.Sound) : t.Agree t :=
  ⟨sound, sound, rfl, rfl⟩

theorem symm (agree : t.Agree u) : u.Agree t :=
  ⟨agree.right, agree.left, agree.pending.symm, agree.nextId.symm⟩

theorem trans (first : t.Agree u) (second : u.Agree v) : t.Agree v :=
  ⟨first.left, second.right, second.pending.trans first.pending, second.nextId.trans first.nextId⟩

/-- Timelines that agree know the same events to be to come. -/
theorem contains (agree : t.Agree u) (id : EventId) : u.contains id = t.contains id := by
  rw [Bool.eq_iff_iff, agree.right.contains_iff, agree.left.contains_iff, agree.pending]

theorem size (agree : t.Agree u) : u.size = t.size := by
  rw [agree.right.size_eq, agree.left.size_eq, agree.pending]

/-- Whatever is scheduled on both gets the same number, and they still agree. -/
theorem insert (agree : t.Agree u) (time : Nat) (m : Message) :
    (u.insert time m).1 = (t.insert time m).1 ∧ (t.insert time m).2.Agree (u.insert time m).2 := by
  refine ⟨agree.nextId, insert_sound agree.left time m, insert_sound agree.right time m, ?_, ?_⟩
  · rw [insert_pending agree.right, insert_pending agree.left, agree.pending, agree.nextId]
  · exact congrArg (· + 1) agree.nextId

/-- A cancellation has the same answer on both. -/
theorem cancel (agree : t.Agree u) (id : EventId) :
    (u.cancel id).1 = (t.cancel id).1 ∧ (t.cancel id).2.Agree (u.cancel id).2 := by
  refine ⟨agree.contains id, cancel_sound agree.left id, cancel_sound agree.right id, ?_, agree.nextId⟩
  rw [cancel_pending, cancel_pending, agree.pending]

/-- A look at the next time may tidy up one of them and not the other. -/
theorem nextTime (agree : t.Agree u) :
    u.nextTime.1 = t.nextTime.1 ∧ t.nextTime.2.Agree u.nextTime.2 := by
  refine ⟨?_, nextTime_sound agree.left, nextTime_sound agree.right, ?_, agree.nextId⟩
  · unfold Timeline.nextTime
    dsimp only
    cases first : t.settleTop.heap.peek? with
    | none =>
      have empty := settleTop_peek_none agree.left first
      cases other : u.settleTop.heap.peek? with
      | none => rfl
      | some e =>
        have member := (settleTop_peek agree.right other).1
        rw [agree.pending, empty] at member
        exact absurd member (Finset.notMem_empty e)
    | some e =>
      obtain ⟨member, least⟩ := settleTop_peek agree.left first
      cases other : u.settleTop.heap.peek? with
      | none =>
        rw [← agree.pending, settleTop_peek_none agree.right other] at member
        exact absurd member (Finset.notMem_empty e)
      | some e' =>
        obtain ⟨member', least'⟩ := settleTop_peek agree.right other
        have before := Event.le_iff.mp (least e' (agree.pending ▸ member'))
        have after := Event.le_iff.mp (least' e (agree.pending.symm ▸ member))
        have same : e'.time = e.time := by omega
        rw [Option.map_some, Option.map_some, same]
  · rw [nextTime_pending agree.right, nextTime_pending agree.left, agree.pending]

/-- The same event is taken from both, whatever cancelled events either has kept. -/
theorem takeDue (agree : t.Agree u) (now : Nat) :
    (u.takeDue now).1 = (t.takeDue now).1 ∧ (t.takeDue now).2.Agree (u.takeDue now).2 := by
  rcases first : t.takeDue now with ⟨_ | e, rest⟩ <;> rcases other : u.takeDue now with ⟨_ | e', rest'⟩
  · obtain ⟨_, sound, same, number⟩ := takeDue_none agree.left first
    obtain ⟨_, sound', same', number'⟩ := takeDue_none agree.right other
    exact ⟨rfl, sound, sound', by rw [same, same', agree.pending], by rw [number, number', agree.nextId]⟩
  · obtain ⟨early, _⟩ := takeDue_none agree.left first
    obtain ⟨member, due, _⟩ := takeDue_some agree.right other
    exact absurd due (Nat.not_le_of_lt (early e' (agree.pending ▸ member)))
  · obtain ⟨early, _⟩ := takeDue_none agree.right other
    obtain ⟨member, due, _⟩ := takeDue_some agree.left first
    exact absurd due (Nat.not_le_of_lt (early e (agree.pending.symm ▸ member)))
  · obtain ⟨member, _, least, sound, same, number⟩ := takeDue_some agree.left first
    obtain ⟨member', _, least', sound', same', number'⟩ := takeDue_some agree.right other
    rw [agree.pending] at member' least'
    have ids : e'.id = e.id := Event.id_eq_of_le (least' e member) (least e' member')
    obtain rfl : e' = e := agree.left.pending_eq member' member ids
    exact ⟨rfl, sound, sound', by rw [same, same', agree.pending], by rw [number, number', agree.nextId]⟩

end Timeline.Agree

/-- The numbers that are registered are distinct, and none is given out again. -/
structure Roster.Distinct (r : Roster) : Prop where
  nodup : r.ids.Nodup
  issued : ∀ id ∈ r.ids, id.number < r.nextId

/-- Two rosters with the same registrations, but for those of subscribers that are set apart. -/
structure Roster.Agree (apart : Nat → Bool) (r q : Roster) : Prop where
  left : r.Distinct
  right : q.Distinct
  entries : q.entries.filter (!apart ·.subscriber) = r.entries.filter (!apart ·.subscriber)
  nextId : q.nextId = r.nextId

/-- The subscriber that is registered under a number. -/
def Roster.holder? (r : Roster) (id : SubscriberId) : Option Nat :=
  (r.entries.find? (·.id == id)).map (·.subscriber)

namespace Roster

variable {apart : Nat → Bool} {r q : Roster}

/-- The numbers of those who are registered from the start differ. -/
theorem ofCount_distinct (count : Nat) : (ofCount count).Distinct where
  nodup := by
    have ids : (ofCount count).ids = (List.range count).map fun i => ⟨i + 1⟩ := by
      simp [Roster.ids, ofCount]
    rw [ids]
    exact List.nodup_range.map fun i j same => Nat.succ_injective (congrArg SubscriberId.number same)
  issued id member := by
    obtain ⟨e, entered, rfl⟩ := List.mem_map.mp member
    obtain ⟨i, bound, rfl⟩ := List.mem_map.mp entered
    exact Nat.succ_lt_succ (List.mem_range.mp bound)

/-- Whoever leaves, the numbers that are left differ. -/
theorem Distinct.keep (distinct : r.Distinct) (kept : Entry → Bool) :
    ({ r with entries := r.entries.filter kept } : Roster).Distinct where
  nodup := distinct.nodup.sublist (List.filter_sublist.map _)
  issued id member := by
    obtain ⟨e, left, rfl⟩ := List.mem_map.mp member
    exact distinct.issued e.id (List.mem_map_of_mem (List.mem_filter.mp left).1)

/-- A number stands for one registration. -/
theorem Distinct.eq_of_id (distinct : r.Distinct) {a b : Entry} (left : a ∈ r.entries) (right : b ∈ r.entries)
    (same : a.id = b.id) : a = b :=
  List.inj_on_of_nodup_map distinct.nodup left right same

/-- No subscriber that is set apart is registered under the number of one that is not. -/
theorem Distinct.foreign (distinct : r.Distinct) (apart : Nat → Bool) :
    ∀ e ∈ r.entries, apart e.subscriber = true →
      e.id ∉ (r.entries.filter (!apart ·.subscriber)).map (·.id) := by
  intro e member isApart again
  obtain ⟨other, left, same⟩ := List.mem_map.mp again
  obtain ⟨registered, ordinary⟩ := List.mem_filter.mp left
  rw [distinct.eq_of_id registered member same, isApart] at ordinary
  cases ordinary

/-- The end of a registration is confirmed if somebody holds the number. -/
theorem remove_answer (r : Roster) (id : SubscriberId) : (r.remove id).1 = (r.holder? id).isSome := by
  rw [remove, holder?, Option.isSome_map, Bool.eq_iff_iff, List.find?_isSome, List.any_eq_true]

/-- Who is registered under a number can be found among those who are not set apart, unless he is. -/
theorem Distinct.holder_filter (distinct : r.Distinct) (apart : Nat → Bool) (id : SubscriberId) :
    (r.holder? id).filter (!apart ·) =
      ((r.entries.filter (!apart ·.subscriber)).find? (·.id == id)).map (·.subscriber) := by
  cases found : r.entries.find? (·.id == id) with
  | none =>
    have nobody : (r.entries.filter (!apart ·.subscriber)).find? (·.id == id) = none := by
      rw [List.find?_eq_none] at found ⊢
      exact fun e member => found e (List.mem_filter.mp member).1
    rw [holder?, found, nobody]
    rfl
  | some e =>
    have member := List.mem_of_find?_eq_some found
    have number : e.id = id := by simpa using List.find?_some found
    have unique {other : Entry} (registered : other ∈ r.entries) (same : other.id = id) : other = e :=
      distinct.eq_of_id registered member (same.trans number.symm)
    cases there : (r.entries.filter (!apart ·.subscriber)).find? (·.id == id) with
    | none =>
      have isApart : apart e.subscriber = true := by
        rw [List.find?_eq_none] at there
        by_contra ordinary
        exact there e (List.mem_filter.mpr ⟨member, by simpa using ordinary⟩) (by simp [number])
      simp [holder?, found, Option.filter, isApart]
    | some other =>
      obtain ⟨registered, ordinary⟩ := List.mem_filter.mp (List.mem_of_find?_eq_some there)
      obtain rfl := unique registered (by simpa using List.find?_some there)
      simpa [holder?, found, Option.filter] using ordinary

/-- A number that has just been reserved is nobody else's. -/
theorem Distinct.register (distinct : r.Distinct) (subscriber : Nat) :
    (r.reserve.2.enter r.reserve.1 subscriber).Distinct where
  nodup := by
    have fresh : r.reserve.1 ∉ r.ids := fun member => lt_irrefl _ (distinct.issued _ member)
    have nodup := List.nodup_append.mpr ⟨distinct.nodup, List.nodup_singleton r.reserve.1, by
      rintro id old _ new rfl
      exact fresh (List.mem_singleton.mp new ▸ old)⟩
    simpa [ids, enter, reserve] using nodup
  issued id member := by
    have members : id ∈ r.ids ∨ id = r.reserve.1 := by simpa [ids, enter, reserve] using member
    rcases members with old | rfl
    · exact Nat.lt_succ_of_lt (distinct.issued id old)
    · exact Nat.lt_succ_self _

namespace Agree

theorem refl (distinct : r.Distinct) : r.Agree apart r :=
  ⟨distinct, distinct, rfl, rfl⟩

theorem symm (agree : r.Agree apart q) : q.Agree apart r :=
  ⟨agree.right, agree.left, agree.entries.symm, agree.nextId.symm⟩

theorem trans {p : Roster} (first : r.Agree apart q) (second : q.Agree apart p) : r.Agree apart p :=
  ⟨first.left, second.right, second.entries.trans first.entries, second.nextId.trans first.nextId⟩

/-- Entries are dropped from both rosters, and the same ones of subscribers that are not set
apart. -/
theorem keep (agree : r.Agree apart q) {kept kept' : Entry → Bool}
    (same : ∀ e ∈ r.entries, apart e.subscriber = false → kept' e = kept e) :
    ({ r with entries := r.entries.filter kept } : Roster).Agree apart
      { q with entries := q.entries.filter kept' } where
  left := agree.left.keep kept
  right := agree.right.keep kept'
  entries := by
    calc (q.entries.filter kept').filter (!apart ·.subscriber)
        = (r.entries.filter (!apart ·.subscriber)).filter kept' := by
          rw [List.filter_comm, agree.entries]
      _ = (r.entries.filter (!apart ·.subscriber)).filter kept := by
          refine List.filter_congr fun e member => ?_
          have ordinary := List.mem_filter.mp member
          exact same e ordinary.1 (by simpa using ordinary.2)
      _ = (r.entries.filter kept).filter (!apart ·.subscriber) := List.filter_comm ..
  nextId := agree.nextId

/-- A registration that ends in both leaves them in agreement, apart or not. -/
theorem remove (agree : r.Agree apart q) (id : SubscriberId) :
    (r.remove id).2.Agree apart (q.remove id).2 :=
  agree.keep fun _ _ _ => rfl

/-- Both give out the same number to who registers next. -/
theorem register (agree : r.Agree apart q) (subscriber : Nat) :
    q.reserve.1 = r.reserve.1 ∧
      (r.reserve.2.enter r.reserve.1 subscriber).Agree apart (q.reserve.2.enter q.reserve.1 subscriber) := by
  have number : q.reserve.1 = r.reserve.1 := congrArg SubscriberId.mk agree.nextId
  refine ⟨number, agree.left.register subscriber, agree.right.register subscriber, ?_, ?_⟩
  · rw [number]
    simp only [enter, reserve, List.filter_append, agree.entries]
  · exact congrArg (· + 1) agree.nextId

theorem holder (agree : r.Agree apart q) (id : SubscriberId) :
    (q.holder? id).filter (!apart ·) = (r.holder? id).filter (!apart ·) := by
  rw [agree.right.holder_filter, agree.left.holder_filter, agree.entries]

end Agree

end Roster

end LiveTiming
