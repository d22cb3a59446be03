import LiveTiming.Proofs.BroadcastRound

namespace LiveTiming

/-- Subscribers with the given indices, registered in turn. One may stand there several times. -/
def Roster.ofSubscribers (subscribers : List Nat) : Roster where
  entries := subscribers.zipIdx.map fun (subscriber, i) => ⟨⟨i + 1⟩, subscriber⟩
  nextId := subscribers.length + 1

/-- What is done with the registrations: a subscriber is registered, somebody asks to end a registration
and is told whether there was one, or a broadcast reports whom it evicted. -/
inductive Filing
  | entered (e : Entry)
  | removed (id : SubscriberId) (found : Bool)
  | reported (tally : Tally)

/-- The registrations that end in a step. -/
def Filing.departures : Filing → List SubscriberId
  | .entered _ => []
  | .removed id found => if found then [id] else []
  | .reported tally => tally.evicted

/-- Who was ever registered, the latest last. -/
def enrolled (entries : List Entry) : List Filing → List Entry
  | [] => entries
  | .entered e :: past => enrolled entries past ++ [e]
  | .removed .. :: past | .reported _ :: past => enrolled entries past

/-- The numbers under which registrations ended, the latest last. -/
def departed : List Filing → List SubscriberId
  | [] => []
  | x :: past => departed past ++ x.departures

/-- Any number of steps, each without another between, the latest first. What else happens leaves the
registrations as they are. -/
inductive Hub.Files (start : Hub) : List Filing → Hub → Prop
  | start : Files start [] start
  | enter {past h} (subscriber : Nat) : Files start past h →
      Files start (.entered ⟨h.reserve.1, subscriber⟩ :: past) (h.reserve.2.enter h.reserve.1 subscriber)
  | remove {past h} (id : SubscriberId) : Files start past h →
      Files start (.removed id (h.remove id).1 :: past) (h.remove id).2
  | broadcast {past h} (m : Message) : Files start past h →
      Files start (.reported (h.broadcast m).1 :: past) (h.broadcast m).2
  | aside {past h after} : Files start past h → after.roster = h.roster → Files start past after

/-- A roster where registrations are numbered from one on, and those whose numbers are gone have ended. -/
structure Roster.Numbered (entries : List Entry) (gone : List SubscriberId) (r : Roster) : Prop where
  numbers : entries.map (·.id) = (List.range entries.length).map fun i => ⟨i + 1⟩
  nextId : r.nextId = entries.length + 1
  registered : r.entries = entries.filter (·.id ∉ gone)
  once : gone.Nodup
  known : ∀ id ∈ gone, id ∈ entries.map (·.id)

variable {entries : List Entry} {gone more : List SubscriberId} {r : Roster} {past : List Filing} {start now : Hub}
  {subscribers : List Nat} {id : SubscriberId}

namespace Roster

theorem ofCount_eq (count : Nat) : ofCount count = ofSubscribers (List.range count) := by
  rw [ofCount, ofSubscribers, List.length_range, List.zipIdx_eq_map_add, List.map_map]
  congr 1
  refine List.ext_getElem (by simp) fun i _ _ => ?_
  simp

theorem ofSubscribers_numbered (subscribers : List Nat) :
    (ofSubscribers subscribers).Numbered (ofSubscribers subscribers).entries [] where
  numbers := by
    refine List.ext_getElem (by simp) fun i _ _ => ?_
    simp [ofSubscribers]
  nextId := by simp [ofSubscribers]
  registered := by simp
  once := .nil
  known := nofun

namespace Numbered

theorem increasing (numbered : r.Numbered entries gone) :
    (entries.map (·.id)).Pairwise (·.number < ·.number) := by
  rw [numbered.numbers, List.pairwise_map]
  exact List.pairwise_lt_range.imp fun less => Nat.succ_lt_succ less

theorem distinct (numbered : r.Numbered entries gone) : (entries.map (·.id)).Nodup := by
  rw [numbered.numbers]
  exact List.nodup_range.map fun i j same => Nat.succ.inj (SubscriberId.mk.inj same)

theorem number_lt (numbered : r.Numbered entries gone) {e : Entry} (member : e ∈ entries) :
    e.id.number < r.nextId := by
  have listed : e.id ∈ entries.map (·.id) := List.mem_map_of_mem member
  rw [numbered.numbers] at listed
  obtain ⟨i, inRange, same⟩ := List.mem_map.mp listed
  rw [← same, numbered.nextId]
  exact Nat.succ_lt_succ (List.mem_range.mp inRange)

theorem ids_nodup (numbered : r.Numbered entries gone) : r.ids.Nodup := by
  rw [ids, numbered.registered]
  exact numbered.distinct.sublist (List.filter_sublist.map _)

/-- A subscriber is registered under the next number. -/
theorem enter (numbered : r.Numbered entries gone) (subscriber : Nat) :
    (r.reserve.2.enter r.reserve.1 subscriber).Numbered (entries ++ [⟨r.reserve.1, subscriber⟩]) gone where
  numbers := by
    have number : r.reserve.1 = ⟨entries.length + 1⟩ := congrArg SubscriberId.mk numbered.nextId
    rw [List.length_append, List.length_singleton, List.range_succ, List.map_append, List.map_append,
      numbered.numbers, number]
    rfl
  nextId := by
    rw [List.length_append]
    exact congrArg (· + 1) numbered.nextId
  registered := by
    have unused : r.reserve.1 ∉ gone := by
      intro listed
      obtain ⟨e, member, same⟩ := List.mem_map.mp (numbered.known _ listed)
      exact (numbered.number_lt member).ne (congrArg SubscriberId.number same)
    have kept : [⟨r.reserve.1, subscriber⟩].filter (fun e : Entry => e.id ∉ gone) = [⟨r.reserve.1, subscriber⟩] :=
      List.filter_cons_of_pos (decide_eq_true unused)
    rw [List.filter_append, ← numbered.registered, kept]
    rfl
  once := numbered.once
  known id listed := by
    rw [List.map_append]
    exact List.mem_append_left _ (numbered.known id listed)

/-- Registrations end, each of them one that there was. -/
theorem part (numbered : r.Numbered entries gone) (distinct : more.Nodup) (within : more ⊆ r.ids)
    {after : Roster} (same : after.nextId = r.nextId) (left : after.entries = r.entries.filter (·.id ∉ more)) :
    after.Numbered entries (gone ++ more) where
  numbers := numbered.numbers
  nextId := same.trans numbered.nextId
  registered := by
    rw [left, numbered.registered, List.filter_filter]
    refine List.filter_congr fun e _ => ?_
    rw [Bool.eq_iff_iff]
    simp [and_comm]
  once := by
    refine numbered.once.append distinct fun id old new => ?_
    obtain ⟨e, member, rfl⟩ := List.mem_map.mp (within new)
    rw [numbered.registered] at member
    simpa [old] using (List.mem_filter.mp member).2
  known id listed := by
    rcases List.mem_append.mp listed with old | new
    · exact numbered.known id old
    · have registered := within new
      rw [ids, numbered.registered] at registered
      exact (List.filter_sublist.map _).subset registered

end Numbered

theorem remove_fst_iff (r : Roster) (id : SubscriberId) : (r.remove id).1 = true ↔ id ∈ r.ids := by
  simp [remove, ids]

theorem remove_entries (r : Roster) (id : SubscriberId) :
    (r.remove id).2.entries = r.entries.filter (·.id ∉ [id]) :=
  List.filter_congr fun e _ => by
    rw [Bool.eq_iff_iff]
    simp

theorem remove_unregistered (unregistered : id ∉ r.ids) : r.remove id = (false, r) := by
  have absent : (r.remove id).1 = false := Bool.eq_false_iff.mpr (mt (remove_fst_iff r id).mp unregistered)
  have same : r.entries.filter (·.id != id) = r.entries := by
    refine List.filter_eq_self.mpr fun e member => ?_
    have other : e.id ≠ id := fun same => unregistered (same ▸ List.mem_map_of_mem member)
    simpa using other
  exact Prod.ext absent (congrArg (fun entries => { r with entries }) same)

/-- Where no two registrations have one number, one is ended and the others stay in their order. -/
theorem remove_registered (distinct : r.ids.Nodup) {before after : List Entry} {e : Entry}
    (parts : r.entries = before ++ e :: after) :
    r.remove e.id = (true, { r with entries := before ++ after }) := by
  have listed : e.id ∈ r.ids := by simp [ids, parts]
  have others : ∀ other ∈ before ++ after, (other.id != e.id) = true := by
    intro other member
    rw [ids, parts, List.map_append, List.map_cons, List.nodup_middle, ← List.map_append] at distinct
    have different : other.id ≠ e.id := fun same =>
      (List.nodup_cons.mp distinct).1 (same ▸ List.mem_map_of_mem member)
    simpa using different
  have kept : r.entries.filter (·.id != e.id) = before ++ after := by
    rw [parts, List.filter_append, List.filter_cons_of_neg (by simp), ← List.filter_append]
    exact List.filter_eq_self.mpr others
  exact Prod.ext ((remove_fst_iff r e.id).mpr listed) (congrArg (fun entries => { r with entries }) kept)

end Roster

theorem Tally.of_evicted_sublist (answers : List (Entry × Option Refusal)) :
    (Tally.of answers).evicted.Sublist (answers.map (·.1.id)) :=
  List.filter_sublist.map _

theorem Hub.evicted_sublist (h : Hub) (m : Message) : (h.broadcast m).1.evicted.Sublist h.roster.ids := by
  have evicted := Tally.of_evicted_sublist (h.answers (Frame.encode m) h.roster.entries)
  have everybody := congrArg (List.map Entry.id) (h.answers_fst (Frame.encode m) h.roster.entries)
  rw [List.map_map] at everybody
  rw [h.broadcast_tally m]
  exact evicted.trans (everybody ▸ List.Sublist.refl _)

/-- Whatever is done with the registrations, they stay numbered. -/
theorem Hub.Files.numbered (files : start.Files past now) (begins : start.roster.Numbered entries []) :
    now.roster.Numbered (enrolled entries past) (departed past) := by
  induction files with
  | start => exact begins
  | enter subscriber _ ih =>
    have entered := ih.enter subscriber
    rw [departed, Filing.departures, List.append_nil]
    exact entered
  | @remove past h id _ ih =>
    by_cases registered : id ∈ h.roster.ids
    · have found : (h.remove id).1 = true := (Roster.remove_fst_iff h.roster id).mpr registered
      rw [enrolled, departed, Filing.departures, if_pos found]
      exact ih.part (List.nodup_singleton id) (by simpa using registered) rfl (h.roster.remove_entries id)
    · have same := Roster.remove_unregistered registered
      have found : (h.remove id).1 = false := congrArg Prod.fst same
      rw [enrolled, departed, Filing.departures, found, if_neg Bool.false_ne_true, List.append_nil]
      have roster : (h.remove id).2.roster = h.roster := congrArg Prod.snd same
      exact roster.symm ▸ ih
  | @broadcast past h m _ ih =>
    have evicted := h.evicted_sublist m
    have roster := h.broadcast_roster m
    rw [enrolled, departed, Filing.departures]
    refine ih.part (ih.ids_nodup.sublist evicted) evicted.subset (by rw [roster]; rfl) ?_
    rw [roster, Roster.evict_entries]
  | aside _ same ih => exact same ▸ ih

/-- Registrations have numbers of their own. Whoever is registered, from the start or later, is given the
next number, and none is given out again; the registered ones stand in the order of their numbers. Each
number leaves at most once, when somebody who ends its registration is told that there was one or when a
report lists it as evicted, and whoever has not left is registered. To end a registration is granted to
whom one is found for, and it takes out that one and no other; who has left already takes nobody out. -/
theorem Hub.Files.numbers_are_not_reused (files : start.Files past now)
    (begins : start.roster = .ofSubscribers subscribers) :
    let ever := enrolled start.roster.entries past
    let gone := departed past
    let r := now.roster
    (r.ids.Pairwise (·.number < ·.number) ∧ ∀ id ∈ r.ids, id.number < r.nextId) ∧
    ((ever.map (·.id)).Nodup ∧ ever.map (·.id) = (List.range ever.length).map (fun i => ⟨i + 1⟩) ∧
      r.nextId = ever.length + 1) ∧
    (gone.Nodup ∧ (∀ id ∈ gone, id ∈ ever.map (·.id)) ∧ r.entries = ever.filter (·.id ∉ gone)) ∧
    (∀ id, ((now.remove id).1 = true ↔ id ∈ r.ids) ∧
      (id ∉ r.ids → (now.remove id).2 = now) ∧
      ∀ before e after, r.entries = before ++ e :: after → e.id = id →
        (now.remove id).2 = { now with roster := { r with entries := before ++ after } }) ∧
    ∀ id ∈ gone, now.remove id = (false, now) := by
  intro ever gone r
  have numbered : r.Numbered ever gone := files.numbered (begins ▸ Roster.ofSubscribers_numbered subscribers)
  have among : r.ids.Sublist (ever.map (·.id)) := by
    rw [Roster.ids, numbered.registered]
    exact List.filter_sublist.map _
  have refused {id : SubscriberId} (unregistered : id ∉ r.ids) : now.remove id = (false, now) :=
    congrArg (fun answer : Bool × Roster => (answer.1, { now with roster := answer.2 }))
      (Roster.remove_unregistered unregistered)
  refine ⟨⟨numbered.increasing.sublist among, fun id listed => ?_⟩,
    ⟨numbered.distinct, numbered.numbers, numbered.nextId⟩,
    ⟨numbered.once, numbered.known, numbered.registered⟩, fun id => ⟨r.remove_fst_iff id, ?_, ?_⟩, ?_⟩
  · obtain ⟨e, member, rfl⟩ := List.mem_map.mp (among.subset listed)
    exact numbered.number_lt member
  · exact fun unregistered => congrArg Prod.snd (refused unregistered)
  · rintro before e after parts rfl
    exact congrArg (fun answer : Bool × Roster => { now with roster := answer.2 })
      (Roster.remove_registered numbered.ids_nodup parts)
  · intro id left
    refine refused fun listed => ?_
    rw [Roster.ids, numbered.registered] at listed
    obtain ⟨e, member, rfl⟩ := List.mem_map.mp listed
    simpa [left] using (List.mem_filter.mp member).2

/-- A subscriber whose reader is gone is registered twice. The later registration is ended and a broadcast
evicts the earlier one, and when the subscriber is registered again it is given a fourth number. -/
theorem Hub.Files.evicted_number_is_not_reused :
    let shut : Subscriber := .mailbox { Mailbox.ofCapacity "gone" 1 with isOpen := false }
    let start := (Feed.start {} [shut, .log] (.ofWords fun _ => 0)).hub
    ∃ past now, start.Files past now ∧ departed past = [⟨3⟩, ⟨1⟩] ∧
      enrolled start.roster.entries past = [⟨⟨1⟩, 0⟩, ⟨⟨2⟩, 1⟩, ⟨⟨3⟩, 0⟩, ⟨⟨4⟩, 0⟩] ∧
      now.roster.entries = [⟨⟨2⟩, 1⟩, ⟨⟨4⟩, 0⟩] ∧ now.roster.nextId = 5 ∧ now.remove ⟨1⟩ = (false, now) := by
  intro shut start
  have begins : start.Files [] start := .start
  have files := (((begins.enter 0).remove ⟨3⟩).broadcast (.raw "a")).enter 0
  obtain ⟨-, -, -, -, refused⟩ := files.numbers_are_not_reused (Roster.ofCount_eq 2)
  exact ⟨_, _, files, by decide, by decide, by decide, by decide, refused ⟨1⟩ (by decide)⟩

end LiveTiming
