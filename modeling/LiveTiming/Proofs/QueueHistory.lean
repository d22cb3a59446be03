import LiveTiming.Proofs.ServiceFloor

namespace LiveTiming

/-- The answers to the broadcast under way, in turn. -/
def replies : List Occurrence → List (Entry × Option Refusal)
  | [] => []
  | .began _ :: _ | .ended .. :: _ => []
  | .answered e _ answer :: past => replies past ++ [(e, answer)]
  | .called _ _ :: past | .entered _ :: past | .removed _ :: past => replies past

/-- The report of some answers: who took the frame is counted as delivered, who refused it for now as
dropped, and who is gone is listed to be evicted. -/
def Tally.of (replies : List (Entry × Option Refusal)) : Tally where
  delivered := replies.countP (·.2.isNone)
  dropped := replies.countP (·.2.any (!·.isFinal))
  evicted := (replies.filter (·.2.any (·.isFinal))).map (·.1.id)

/-- What the subscriber with an index answers, and to which frame. -/
def Occurrence.verdict? (i : Nat) : Occurrence → Option (Bytes × Option Refusal)
  | .answered e frame answer => if e.subscriber = i then some (frame, answer) else none
  | _ => none

/-- The frames that the subscriber with an index was given and its answers, in turn. -/
def verdicts (i : Nat) (past : List Occurrence) : List (Bytes × Option Refusal) :=
  (past.filterMap (Occurrence.verdict? i)).reverse

/-- The frames that the subscriber with an index took, in turn. -/
def accepted (i : Nat) (past : List Occurrence) : List Bytes :=
  ((verdicts i past).filter (·.2.isNone)).map Prod.fst

/-- The frames that the reader of the queue has taken, in turn. -/
def received (past : List Remark) : List Bytes :=
  past.reverse.flatMap Remark.frames

/-- A queue stands where the past says since it was empty. -/
structure Mailbox.Stands (i capacity : Nat) (past : List Remark) (b : Mailbox) : Prop where
  capacity : b.capacity = max capacity 1
  bounded : b.queue.size ≤ b.capacity
  isOpen : b.isOpen = true ↔ .closed ∉ past
  /-- What was taken out of the queue and what is in it is what was put in. -/
  kept : b.isOpen = true → received past ++ b.queue.toList = accepted i (occurrences past)
  discarded : b.isOpen = false → b.queue = #[] ∧ received past <+: accepted i (occurrences past)

variable {entries : List Entry} {past earlier during later more : List Occurrence} {e self : Entry}
  {i capacity : Nat} {id : SubscriberId} {frame : Bytes} {answer : Option Refusal} {h after : Hub} {b : Mailbox}

theorem verdicts_cons (i : Nat) (x : Occurrence) (past : List Occurrence) :
    verdicts i (x :: past) = verdicts i past ++ (x.verdict? i).toList := by
  cases found : x.verdict? i <;> simp [verdicts, found]

theorem verdicts_append (i : Nat) (later earlier : List Occurrence) :
    verdicts i (later ++ earlier) = verdicts i earlier ++ verdicts i later := by
  simp [verdicts]

theorem verdicts_subset (within : during ⊆ past) : verdicts i during ⊆ verdicts i past := by
  intro v listed
  obtain ⟨x, member, same⟩ := List.mem_filterMap.mp (List.mem_reverse.mp listed)
  exact List.mem_reverse.mpr (List.mem_filterMap.mpr ⟨x, within member, same⟩)

theorem accepted_cons (i : Nat) (x : Occurrence) (past : List Occurrence) :
    accepted i (x :: past) = accepted i past ++ (((x.verdict? i).toList.filter (·.2.isNone)).map Prod.fst) := by
  rw [accepted, verdicts_cons, List.filter_append, List.map_append, accepted]

theorem received_cons (x : Remark) (past : List Remark) : received (x :: past) = received past ++ x.frames := by
  simp [received]

theorem accepted_mute {more past : List Remark} (mute : verdicts i (occurrences more) = []) :
    accepted i (occurrences (more ++ past)) = accepted i (occurrences past) := by
  rw [accepted, occurrences_append, verdicts_append, mute, List.append_nil, accepted]

theorem received_foreign {new past : List Remark} (foreign : ∀ x ∈ new, x.IsForeign i) :
    received (new ++ past) = received past := by
  have quiet : received new = [] := by
    refine List.flatMap_eq_nil_iff.mpr fun x listed => ?_
    exact (foreign x (List.mem_reverse.mp listed)).frames
  rw [received, List.reverse_append, List.flatMap_append]
  exact (congrArg _ quiet).trans (List.append_nil _)

theorem Tally.of_append (answered : List (Entry × Option Refusal)) (e : Entry) (answer : Option Refusal) :
    Tally.of (answered ++ [(e, answer)]) = (Tally.of answered).count e.id answer := by
  cases answer with
  | none => simp [Tally.of, Tally.count]
  | some refusal => cases final : refusal.isFinal <;> simp [Tally.of, Tally.count, final]

theorem lost_eq (past : List Occurrence) : lost past = (Tally.of (replies past)).evicted := by
  induction past with
  | nil => rfl
  | cons x past ih =>
    cases x with
    | began | ended => rfl
    | called | entered | removed => exact ih
    | answered e frame answer =>
      rw [lost, replies, Tally.of_append, Tally.count_evicted, ih]

/-- Whoever was called has answered, but for one who still may. -/
theorem replies_reached (orderly : Orderly entries past) :
    (replies past).map Prod.fst ++ (calling past).toList.map Prod.fst = reached past := by
  induction past with
  | nil => rfl
  | cons x past ih =>
    have before := ih orderly.2
    cases x with
    | began | ended => rfl
    | entered | removed => exact before
    | called e frame =>
      have free : calling past = none := orderly.1.1
      rw [free] at before
      simpa [replies, calling, reached] using before
    | answered e frame answer =>
      have waits : calling past = some (e, frame) := orderly.1
      rw [waits] at before
      simpa [replies, calling, reached] using before

theorem replies_settled (orderly : Orderly entries past) (settled : Settled entries past) :
    (replies past).map Prod.fst = audience entries past := by
  have all := replies_reached orderly
  rw [settled.1, settled.2] at all
  simpa using all

theorem lost_joined (orderly : Orderly entries past) (gone : id ∈ lost past) :
    id ∈ (joined entries past).map (·.id) := by
  rw [lost_eq] at gone
  obtain ⟨reply, listed, rfl⟩ := List.mem_map.mp gone
  have answered : reply.1 ∈ reached past := by
    rw [← replies_reached orderly]
    exact List.mem_append_left _ (List.mem_map_of_mem (List.mem_filter.mp listed).1)
  exact List.mem_map_of_mem ((audience_sublist entries past).subset ((reached_first orderly).subset answered))

theorem calling_underway (orderly : Orderly entries past) (waits : calling past = some (e, frame)) :
    ∃ call, underway past = some call ∧ frame = Frame.encode call.message := by
  induction past with
  | nil => cases waits
  | cons x past ih =>
    cases x with
    | began | ended | answered => cases waits
    | called =>
      cases waits
      exact orderly.1.2.2
    | entered | removed => exact ih orderly.2 waits

theorem calling_idle (orderly : Orderly entries past) (idle : underway past = none) : calling past = none := by
  cases waits : calling past with
  | none => rfl
  | some waiting =>
    obtain ⟨call, busy, _⟩ := @calling_underway _ _ waiting.1 waiting.2 orderly waits
    exact absurd (idle.symm.trans busy) (by simp)

theorem calling_joined (orderly : Orderly entries past) (waits : calling past = some (e, frame)) :
    e ∈ joined entries past :=
  (audience_sublist entries past).subset ((reached_first orderly).subset (calling_reached waits))

/-- Who was never registered never answers. -/
theorem mute_of_unknown (orderly : Orderly entries past) (unknown : ∀ e ∈ joined entries past, e.subscriber ≠ i) :
    verdicts i past = [] := by
  induction past with
  | nil => rfl
  | cons x past ih =>
    rw [verdicts_cons, ih orderly.2 fun e member => unknown e ((joined_grows entries [x] past).subset member)]
    cases x with
    | began | called | ended | entered | removed => rfl
    | answered e frame answer =>
      have registered := answered_registered orderly
      have other : e.subscriber ≠ i :=
        unknown e ((joined_grows entries [_] past).subset ((registered_sublist _ _).subset registered))
      simp [Occurrence.verdict?, other]

/-- Who is not registered any more does not answer. -/
theorem mute_while_gone (orderly : Orderly entries (later ++ earlier))
    (single : ∀ e ∈ joined entries (later ++ earlier), e.subscriber = self.subscriber → e = self)
    (known : self ∈ joined entries earlier) (gone : self.id ∉ (registeredAfter entries earlier).map (·.id)) :
    verdicts self.subscriber later = [] := by
  induction later with
  | nil => rfl
  | cons x later ih =>
    have silent := ih orderly.2 fun e member => single e ((joined_grows entries [x] _).subset member)
    have still := (silent_while_gone orderly.2 (List.mem_map_of_mem known) gone).2
    rw [verdicts_cons, silent]
    cases x with
    | began | called | ended | entered | removed => rfl
    | answered e frame answer =>
      have registered := answered_registered orderly
      have other : e.subscriber ≠ self.subscriber := by
        intro same
        have old := (registered_sublist _ _).subset registered
        obtain rfl := single e ((joined_grows entries [_] _).subset old) same
        exact still (List.mem_map_of_mem registered)
      simp [Occurrence.verdict?, other]

/-- Whoever is registered once and is called with a frame answers to it, but for the last one. -/
theorem heard_verdicts (orderly : Orderly entries past)
    (same : ∀ e ∈ joined entries past, e.subscriber = i ↔ e.id = id) :
    heard id past = (verdicts i past).map Prod.fst ++
      ((calling past).toList.filter (·.1.id = id)).map Prod.snd := by
  induction past with
  | nil => rfl
  | cons x past ih =>
    have before := ih orderly.2 fun e member => same e ((joined_grows entries [x] past).subset member)
    rw [heard_cons, before, verdicts_cons]
    cases x with
    | began call =>
      have free := calling_idle orderly.2 orderly.1
      simp [free, calling, Occurrence.heard?, Occurrence.verdict?]
    | ended call evicted =>
      have free : calling past = none := orderly.1.1.1
      simp [free, calling, Occurrence.heard?, Occurrence.verdict?]
    | entered | removed => simp [calling, Occurrence.heard?, Occurrence.verdict?]
    | called e frame =>
      have free : calling past = none := orderly.1.1
      by_cases own : e.id = id <;> simp [free, calling, Occurrence.heard?, Occurrence.verdict?, own]
    | answered e frame answer =>
      have waits : calling past = some (e, frame) := orderly.1
      have known : e ∈ joined entries past := calling_joined orderly.2 waits
      have own := same e known
      by_cases ours : e.id = id <;> simp [waits, calling, Occurrence.heard?, Occurrence.verdict?, own, ours]

/-- A subscriber that is registered once answers, in their order, to all the broadcasts that begin between
its registration and the end of that, but for the one under way. -/
theorem verdicts_stretch (orderly : Orderly entries (later ++ during ++ earlier))
    (distinct : (entries.map (·.id)).Nodup) (joins : Joins entries self earlier)
    (stays : ∀ x ∈ during, ¬x.Ends self.id) (leaves : ∀ x, later.getLast? = some x → x.Ends self.id)
    (once : ∀ e ∈ joined entries (later ++ during ++ earlier), e.subscriber = self.subscriber → e = self) :
    ∃ pending, pending.Sublist ((underway (later ++ during ++ earlier)).toList.map fun call =>
        Frame.encode call.message) ∧
      (verdicts self.subscriber (later ++ during ++ earlier)).map Prod.fst ++ pending =
        (sent during).map Frame.encode := by
  have whole := heard_stretch orderly distinct joins stays leaves
  generalize total : later ++ during ++ earlier = past at *
  have known : self ∈ joined entries past := by
    rw [← total]
    exact (joined_grows entries _ earlier).subset ((registered_sublist entries earlier).subset
      (registered_joins joins))
  have same : ∀ e ∈ joined entries past, e.subscriber = self.subscriber ↔ e.id = self.id := fun e member =>
    ⟨fun own => once e member own ▸ rfl, fun own =>
      List.inj_on_of_nodup_map (joined_nodup orderly distinct) member known own ▸ rfl⟩
  rw [heard_verdicts orderly same, List.append_assoc] at whole
  refine ⟨_, ?_, whole⟩
  cases waits : calling past with
  | none =>
    rw [awaited]
    split
    · exact List.Sublist.refl _
    · exact List.nil_sublist _
  | some waiting =>
    obtain ⟨e, frame⟩ := waiting
    obtain ⟨call, busy, rfl⟩ := calling_underway orderly waits
    by_cases own : e.id = self.id
    · -- Who is called is not awaited any more.
      have joins := calling_joined orderly waits
      have itself : e = self := once e joins ((same e joins).mpr own)
      have called : self ∈ reached past := itself ▸ calling_reached waits
      simp [awaited, called, busy, own]
    · simp only [Option.toList_some, List.filter_cons, own, decide_false, Bool.false_eq_true, if_false,
        List.filter_nil, List.map_nil, List.nil_append, awaited]
      split
      · exact List.Sublist.refl _
      · exact List.nil_sublist _

section

variable {call : Call} {evicted : List SubscriberId}

/-- What the answers to a broadcast say of one subscriber. -/
theorem pass_verdicts (orderly : Orderly entries (during ++ .began call :: earlier))
    (lasts : ∀ x ∈ during, ∀ c evicted, x ≠ .ended c evicted) :
    verdicts i during = ((replies (during ++ .began call :: earlier)).filter (·.1.subscriber = i)).map
      fun reply => (Frame.encode call.message, reply.2) := by
  induction during with
  | nil => rfl
  | cons x during ih =>
    have lasting : ∀ y ∈ during, ∀ c evicted, y ≠ .ended c evicted :=
      fun y listed => lasts y (List.mem_cons_of_mem _ listed)
    have before := ih orderly.2 lasting
    have busy := (pass_calls orderly.2 lasting).1
    rw [verdicts_cons, before]
    cases x with
    | began =>
      have idle : underway (during ++ .began call :: earlier) = none := orderly.1
      exact absurd (idle.symm.trans busy) (by simp)
    | ended c evicted => exact absurd rfl (lasts _ (List.mem_cons_self ..) c evicted)
    | called | entered | removed => exact List.append_nil _
    | answered e frame answer =>
      have waits : calling (during ++ .began call :: earlier) = some (e, frame) := orderly.1
      obtain ⟨c, under, rfl⟩ := calling_underway orderly.2 waits
      cases busy.symm.trans under
      rw [List.cons_append, replies, List.filter_append, List.map_append]
      by_cases own : e.subscriber = i <;> simp [Occurrence.verdict?, own]

/-- Whoever is registered when a broadcast begins has answered it once when it ends, and is evicted
exactly if it is gone. -/
theorem pass_verdict (orderly : Orderly entries (.ended call evicted :: (during ++ .began call :: earlier)))
    (lasts : ∀ x ∈ during, ∀ c evicted, x ≠ .ended c evicted) (distinct : (entries.map (·.id)).Nodup)
    (member : self ∈ registeredAfter entries earlier)
    (once : ∀ e ∈ registeredAfter entries earlier, e.subscriber = self.subscriber → e = self) :
    let answers := replies (during ++ .began call :: earlier)
    answers.map Prod.fst = registeredAfter entries earlier ∧ ∃ answer, (self, answer) ∈ answers ∧
      verdicts self.subscriber during = [(Frame.encode call.message, answer)] ∧
      (self.id ∈ evicted ↔ answer.any (·.isFinal) = true) := by
  intro answers
  obtain ⟨settled, _, lists⟩ : Settled entries _ ∧ underway _ = some call ∧ evicted = lost _ := orderly.1
  have everybody : answers.map Prod.fst = registeredAfter entries earlier :=
    (replies_settled orderly.2 settled).trans (pass_calls orderly.2 lasts).2.1
  have ids : ((registeredAfter entries earlier).map (·.id)).Nodup :=
    (joined_nodup orderly.2.of_append.2 distinct).sublist ((registered_sublist entries earlier).map _)
  have nodup : (answers.map fun reply => reply.1.id).Nodup := by
    rw [← everybody, List.map_map] at ids
    exact ids
  obtain ⟨answer, listed⟩ : ∃ answer, (self, answer) ∈ answers := by
    obtain ⟨⟨_, answer⟩, listed, rfl⟩ := List.mem_map.mp (everybody ▸ member)
    exact ⟨answer, listed⟩
  have single : ∀ reply ∈ answers, reply.1.id = self.id → reply = (self, answer) :=
    fun reply answered same => List.inj_on_of_nodup_map nodup answered listed same
  refine ⟨everybody, answer, listed, ?_, ?_⟩
  · have own : ∀ reply ∈ answers, decide (reply.1.subscriber = self.subscriber) = (reply == (self, answer)) := by
      intro reply answered
      have known : reply.1 ∈ registeredAfter entries earlier := everybody ▸ List.mem_map_of_mem answered
      by_cases same : reply.1.subscriber = self.subscriber
      · have itself := single reply answered (once _ known same ▸ rfl)
        simp [itself]
      · have other : reply ≠ (self, answer) := fun itself => same (itself ▸ rfl)
        simp [same, other]
    rw [pass_verdicts orderly.2 lasts, List.filter_congr own, List.filter_beq,
      List.count_eq_one_of_mem nodup.of_map listed]
    rfl
  · rw [lists, lost_eq, Tally.of, List.mem_map]
    constructor
    · rintro ⟨reply, gone, same⟩
      obtain ⟨answered, final⟩ := List.mem_filter.mp gone
      rwa [single reply answered same] at final
    · exact fun final => ⟨_, List.mem_filter.mpr ⟨listed, final⟩, rfl⟩

end

namespace Mailbox

theorem offer_cases (b : Mailbox) (frame : Bytes) :
    b.isOpen = false ∧ b.offer frame = (some .closed, b) ∨
    b.isOpen = true ∧ b.capacity ≤ b.queue.size ∧ b.offer frame = (some .full, b) ∨
    b.isOpen = true ∧ b.queue.size < b.capacity ∧
      b.offer frame = (none, { b with queue := b.queue.push frame }) := by
  unfold offer
  cases b.isOpen with
  | false => exact Or.inl ⟨rfl, rfl⟩
  | true =>
    rcases Nat.lt_or_ge b.queue.size b.capacity with room | full
    · exact Or.inr (Or.inr ⟨rfl, room, if_neg (Nat.not_le_of_lt room)⟩)
    · exact Or.inr (Or.inl ⟨rfl, full, if_pos full⟩)

/-- A queue that is open takes a frame while it has room, and is full otherwise. -/
theorem offer_answer (b : Mailbox) (frame : Bytes) :
    ((b.offer frame).1 = none ↔ b.isOpen = true ∧ b.queue.size < b.capacity) ∧
      ((b.offer frame).1 = some .full ↔ b.isOpen = true ∧ b.capacity ≤ b.queue.size) ∧
      ((b.offer frame).1 = some .closed ↔ b.isOpen = false) := by
  rcases b.offer_cases frame with ⟨shut, offers⟩ | ⟨isOpen, full, offers⟩ | ⟨isOpen, room, offers⟩ <;>
    rw [offers]
  · simp [shut]
  · simp [isOpen, full]
  · simp [isOpen, room]

/-- A queue is empty at first. -/
theorem stands_fresh (i : Nat) (name : String) (capacity : Nat) :
    (ofCapacity name capacity).Stands i capacity [] where
  capacity := rfl
  bounded := Nat.zero_le _
  isOpen := by simp [ofCapacity]
  kept _ := rfl
  discarded isClosed := by cases isClosed

/-- Nothing is put into the queue, nothing is taken out of it, and nobody leaves. -/
theorem Stands.unmoved {past : List Remark} {x : Remark} (stands : b.Stands i capacity past)
    (opened : x ≠ .closed) (quiet : x.frames = [])
    (put : accepted i (occurrences (x :: past)) = accepted i (occurrences past)) :
    b.Stands i capacity (x :: past) := by
  have taken : received (x :: past) = received past := by rw [received_cons, quiet, List.append_nil]
  refine ⟨stands.capacity, stands.bounded, ?_, ?_, ?_⟩
  · rw [stands.isOpen, List.mem_cons, not_or]
    exact ⟨fun never => ⟨opened.symm, never⟩, And.right⟩
  · rw [taken, put]
    exact stands.kept
  · rw [taken, put]
    exact stands.discarded

theorem Stands.noticed {past : List Remark} {x : Remark} {y : Occurrence} (stands : b.Stands i capacity past)
    (opened : x ≠ .closed) (quiet : x.frames = []) (same : x.occurrence? = some y)
    (apart : y.verdict? i = none) : b.Stands i capacity (x :: past) := by
  refine stands.unmoved opened quiet ?_
  have seen : occurrences (x :: past) = y :: occurrences past := by simp [occurrences, same]
  rw [seen, accepted_cons, apart]
  exact List.append_nil _

/-- The queue is offered a frame. -/
theorem Stands.offer {past : List Remark} (stands : b.Stands i capacity past) (frame : Bytes)
    (own : e.subscriber = i) :
    (b.offer frame).2.Stands i capacity (.noticed (.answered e frame (b.offer frame).1) :: past) := by
  have put (answer : Option Refusal) : accepted i (occurrences (.noticed (.answered e frame answer) :: past)) =
      accepted i (occurrences past) ++ if answer.isNone then [frame] else [] := by
    have seen : occurrences (.noticed (.answered e frame answer) :: past) =
        .answered e frame answer :: occurrences past := rfl
    rw [seen, accepted_cons, Occurrence.verdict?, if_pos own]
    cases answer <;> rfl
  have refused (refusal : Refusal) : b.Stands i capacity (.noticed (.answered e frame (some refusal)) :: past) :=
    stands.unmoved nofun rfl ((put (some refusal)).trans (List.append_nil _))
  rcases b.offer_cases frame with ⟨_, offers⟩ | ⟨_, _, offers⟩ | ⟨isOpen, room, offers⟩ <;> rw [offers]
  · exact refused .closed
  · exact refused .full
  · refine ⟨stands.capacity, ?_, ?_, fun _ => ?_, fun shut => ?_⟩
    · simpa using Nat.succ_le_of_lt room
    · rw [stands.isOpen, List.mem_cons, not_or]
      exact ⟨fun never => ⟨nofun, never⟩, And.right⟩
    · rw [put, ← stands.kept isOpen, received_cons]
      simp [Remark.frames]
    · rw [isOpen] at shut
      cases shut

theorem Stands.receive {past : List Remark} (stands : b.Stands i capacity past) (count : Nat) :
    (b.receive count).2.Stands i capacity (.received (b.receive count).1 :: past) := by
  have put : accepted i (occurrences (.received (b.receive count).1 :: past)) = accepted i (occurrences past) := rfl
  have parts : (b.receive count).1 ++ (b.receive count).2.queue.toList = b.queue.toList := by
    rw [Mailbox.receive, ← Array.toList_append, Array.extract_append_extract]
    simp
  refine ⟨stands.capacity, ?_, ?_, fun isOpen => ?_, fun shut => ?_⟩
  · refine le_trans ?_ stands.bounded
    simp [Mailbox.receive]
  · rw [List.mem_cons, not_or]
    exact stands.isOpen.trans ⟨fun never => ⟨by simp, never⟩, And.right⟩
  · rw [put, ← stands.kept isOpen, received_cons, ← parts]
    simp [Remark.frames]
  · obtain ⟨empty, first⟩ := stands.discarded shut
    refine ⟨by simp [Mailbox.receive, empty], ?_⟩
    rw [put, received_cons]
    simpa [Remark.frames, Mailbox.receive, empty] using first

theorem Stands.close {past : List Remark} (stands : b.Stands i capacity past) :
    b.close.Stands i capacity (.closed :: past) where
  capacity := stands.capacity
  bounded := Nat.zero_le _
  isOpen := by simp [Mailbox.close]
  kept isOpen := by cases isOpen
  discarded _ := by
    refine ⟨rfl, ?_⟩
    have taken : received (.closed :: past) = received past := by
      rw [received_cons]
      exact List.append_nil _
    rw [taken]
    cases isOpen : b.isOpen with
    | true =>
      have whole := stands.kept isOpen
      exact ⟨_, whole⟩
    | false => exact (stands.discarded isOpen).2

/-- A queue that nobody read and that was offered nothing is as it was. -/
theorem Stands.untouched {past : List Remark} (stands : b.Stands i capacity past)
    (foreign : ∀ x ∈ past, x.IsForeign i) (mute : verdicts i (occurrences past) = []) :
    b = .ofCapacity b.name capacity := by
  have isOpen : b.isOpen = true := stands.isOpen.mpr fun closed => foreign _ closed
  have taken : received past = [] := by
    rw [← List.append_nil past]
    exact received_foreign foreign
  have empty := stands.kept isOpen
  rw [taken, accepted, mute] at empty
  have queue : b.queue = #[] := Array.toList_eq_nil_iff.mp empty
  rw [ofCapacity, ← stands.capacity, ← queue, ← isOpen]

end Mailbox

namespace Floor

variable {f g k start now : Floor} {new : Option Remark} {past : List Remark}

/-- A step that anybody takes changes a queue as it is noticed there. -/
theorem Move.stands (move : f.Move i new g) (queued : f.hub.mailbox? i = some b)
    (stands : b.Stands i capacity past) :
    ∃ b', g.hub.mailbox? i = some b' ∧ b'.Stands i capacity (new.toList ++ past) := by
  cases move with
  | still step same => exact ⟨b, same b queued, stands⟩
  | @receive t h joining count =>
    refine ⟨(b.receive count).2, ?_, ?_⟩
    · rw [Hub.receive_adjusts]
      exact Hub.adjust_mailbox queued _
    · rw [Hub.receive_frames queued]
      exact stands.receive count
  | close => exact ⟨_, Hub.adjust_mailbox queued _, stands.close⟩
  | report busy concludes =>
    obtain ⟨_, _, _, rfl⟩ := Turns.conclude_eq busy concludes
    exact ⟨b, queued, stands.noticed nofun rfl rfl rfl⟩
  | notice step unended =>
    cases step with
    | begin | call => exact ⟨b, queued, stands.noticed nofun rfl rfl rfl⟩
    | enter _ enters =>
      obtain ⟨_, rfl⟩ := Turns.enter_eq enters
      exact ⟨b, queued, stands.noticed nofun rfl rfl rfl⟩
    | remove removes =>
      obtain ⟨_, rfl⟩ := Turns.remove_eq removes
      exact ⟨b, queued, stands.noticed nofun rfl rfl rfl⟩
    | conclude => exact absurd rfl (unended _ _)
    | @answer t h joining p e later time answer after busy left held takes =>
      obtain ⟨rfl, rfl⟩ : (h.take e.subscriber p.frame).1 = answer ∧ (h.take e.subscriber p.frame).2 = after :=
        Prod.ext_iff.mp takes
      by_cases own : e.subscriber = i
      · obtain ⟨answers, kept⟩ := Hub.take_mailbox queued p.frame
        rw [own, answers]
        exact ⟨_, kept, stands.offer p.frame own⟩
      · refine ⟨b, (Hub.take_elsewhere own p.frame).trans queued, stands.noticed nofun rfl rfl ?_⟩
        exact if_neg own

theorem Moves.stands {name : String} (moves : start.Moves i past now)
    (queued : start.hub.mailbox? i = some (.ofCapacity name capacity)) :
    ∃ b, now.hub.mailbox? i = some b ∧ b.Stands i capacity past := by
  induction moves with
  | start => exact ⟨_, queued, Mailbox.stands_fresh i name capacity⟩
  | next _ move ih =>
    obtain ⟨b, queued, stands⟩ := ih
    exact move.stands queued stands

/-- The subscriber answers what its queue does. -/
theorem Move.answers (move : f.Move i (some (.noticed (.answered e frame answer))) g)
    (queued : f.hub.mailbox? i = some b) (own : e.subscriber = i) : answer = (b.offer frame).1 := by
  cases move with
  | notice step =>
    cases step with
    | answer _ _ _ takes =>
      rw [← (Hub.take_mailbox queued _).1, ← own]
      exact (Prod.ext_iff.mp takes).1.symm

theorem Moves.answers {name : String} {v : Bytes × Option Refusal} (moves : start.Moves i past now)
    (queued : start.hub.mailbox? i = some (.ofCapacity name capacity))
    (listed : v ∈ verdicts i (occurrences past)) : v.2 = none ∨ v.2 = some .full ∨ v.2 = some .closed := by
  obtain ⟨x, member, same⟩ := List.mem_filterMap.mp (List.mem_reverse.mp listed)
  obtain ⟨y, noticed, seen⟩ := List.mem_filterMap.mp member
  obtain ⟨e, frame, answer, rfl, own, rfl⟩ : ∃ e frame answer,
      x = .answered e frame answer ∧ e.subscriber = i ∧ v = (frame, answer) := by
    cases x with
    | answered e frame answer =>
      rw [Occurrence.verdict?] at same
      split at same
      · rename_i own
        exact ⟨e, frame, answer, rfl, own, (Option.some.inj same).symm⟩
      · cases same
    | began | called | ended | entered | removed => cases same
  obtain rfl : y = .noticed (.answered e frame answer) := by
    cases y with
    | noticed => exact congrArg Remark.noticed (Option.some.inj seen)
    | reported | received | closed => cases seen
  obtain ⟨later, earlier, parts⟩ := List.append_of_mem noticed
  obtain ⟨f, g, then_, move⟩ := moves.split parts
  obtain ⟨b, standing, _⟩ := then_.stands queued
  have same := move.answers standing own
  rcases b.offer_cases frame with ⟨_, offers⟩ | ⟨_, _, offers⟩ | ⟨_, _, offers⟩ <;> rw [offers] at same
  · exact Or.inr (Or.inr same)
  · exact Or.inr (Or.inl same)
  · exact Or.inl same

/-- The report of a broadcast under way counts the answers. -/
theorem Step.counts {x : Option Occurrence} (step : f.Step x g) {earlier : List Occurrence}
    (counted : ∀ p, f.turns.pass = some p → p.tally = .of (replies earlier)) :
    ∀ p, g.turns.pass = some p → p.tally = .of (replies (x.toList ++ earlier)) := by
  cases step with
  | queue | enter | remove | reserve | aside => exact counted
  | begin =>
    rintro p ⟨⟩
    rfl
  | call busy =>
    rintro p ⟨⟩
    have same := counted _ busy
    exact same
  | answer busy =>
    rintro p ⟨⟩
    rw [Option.toList_some, List.singleton_append, replies, Tally.of_append, ← counted _ busy]
  | conclude busy concludes =>
    obtain ⟨_, _, rfl, _⟩ := Turns.conclude_eq busy concludes
    nofun

theorem Run.counts {total : List Occurrence} (run : start.Run total now) (idle : start.turns.pass = none) :
    ∀ p, now.turns.pass = some p → p.tally = .of (replies total) := by
  induction run with
  | start =>
    intro p busy
    rw [idle] at busy
    cases busy
  | next _ step ih => exact step.counts ih

/-- The report of a broadcast counts the answers to it. -/
theorem Moves.reported {origin : Floor} {before : List Occurrence} {during earlier : List Remark} {call : Call}
    {tally : Tally} (earliest : origin.Run before start) (idle : origin.turns.pass = none)
    (moves : start.Moves i (during ++ .noticed (.began call) :: earlier) f)
    (ends : f.Move i (some (.reported call tally)) g) :
    let whole := occurrences during ++ .began call :: (occurrences earlier ++ before)
    tally = .of (replies whole) ∧ origin.Run (.ended call tally.evicted :: whole) g := by
  intro whole
  have run : origin.Run whole f := by
    have run := earliest.trans moves.run
    rw [occurrences_append, List.append_assoc] at run
    exact run
  refine ⟨?_, run.next ends.step⟩
  cases ends with
  | report busy concludes =>
    rw [(Turns.conclude_eq busy concludes).2.1]
    exact run.counts idle _ busy

theorem not_ended {during : List Remark} (lasts : ∀ call tally, .reported call tally ∉ during)
    (moves : start.Moves i (during ++ past) now) :
    ∀ x ∈ occurrences during, ∀ call evicted, x ≠ .ended call evicted := by
  rintro _ listed call evicted rfl
  obtain ⟨x, member, same⟩ := List.mem_filterMap.mp listed
  cases x with
  | reported call tally => exact lasts call tally member
  | received | closed => cases same
  | noticed x =>
    cases same
    obtain ⟨later, earlier, rfl⟩ := List.append_of_mem member
    obtain ⟨f, g, _, move⟩ := moves.split (List.append_assoc later _ past)
    cases move with
    | notice _ unended => exact unended call evicted rfl

/-- A queue with a reader, whose subscriber is registered once, never holds more than its room, and takes
a frame while it is open and has room; otherwise it is full, or its reader is gone. What the reader has
taken, followed by what is in the queue while that is open, are the frames that the queue took, each once
and in the order of their broadcasts. While the subscriber is registered every broadcast that begins has
an answer, but for the one under way, and its report counts that: the frame was delivered, or it was
dropped and the subscriber stays, or the subscriber is evicted because its reader is gone. -/
theorem queue_loses_nothing_silently {origin : Floor} {before : List Occurrence} {name : String}
    (sound : origin.Sound) (idle : origin.turns.pass = none) (earliest : origin.Run before start)
    (unused : verdicts self.subscriber before = [])
    (made : start.hub.mailbox? self.subscriber = some (.ofCapacity name capacity))
    (moves : start.Moves self.subscriber past now)
    (once : ∀ e ∈ joined origin.hub.roster.entries (occurrences past ++ before),
      e.subscriber = self.subscriber → e = self) :
    let entries := origin.hub.roster.entries
    let total := occurrences past ++ before
    ∃ b, now.hub.mailbox? self.subscriber = some b ∧
      b.queue.size ≤ max capacity 1 ∧ (b.isOpen = true ↔ .closed ∉ past) ∧
      (∀ frame, let answer := (now.hub.take self.subscriber frame).1
        (answer = none ↔ b.isOpen = true ∧ b.queue.size < max capacity 1) ∧
        (answer = some .full ↔ b.isOpen = true ∧ b.queue.size = max capacity 1) ∧
        (answer = some .closed ↔ b.isOpen = false)) ∧
      (∀ frame answer after, now.Move self.subscriber (some (.noticed (.answered self frame answer))) after →
        answer = (now.hub.take self.subscriber frame).1) ∧
      (b.isOpen = true → received past ++ b.queue.toList = accepted self.subscriber total) ∧
      (b.isOpen = false → received past <+: accepted self.subscriber total) ∧
      (∀ later during earlier, total = later ++ during ++ earlier → Joins entries self earlier →
        (∀ x ∈ during, ¬x.Ends self.id) → (∀ x, later.getLast? = some x → x.Ends self.id) →
        ∃ pending, pending.Sublist ((underway total).toList.map fun call => Frame.encode call.message) ∧
          (verdicts self.subscriber total).map Prod.fst ++ pending = (sent during).map Frame.encode) ∧
      (∀ later call tally during earlier,
        past = later ++ .reported call tally :: (during ++ .noticed (.began call) :: earlier) →
        (∀ c t, .reported c t ∉ during) → self ∈ registeredAfter entries (occurrences earlier ++ before) →
        ∃ answers answer, tally = .of answers ∧
          answers.map Prod.fst = registeredAfter entries (occurrences earlier ++ before) ∧
          (self, answer) ∈ answers ∧
          verdicts self.subscriber (occurrences during) = [(Frame.encode call.message, answer)] ∧
          (answer = none ∨ answer = some .full ∨ answer = some .closed) ∧
          (self.id ∈ tally.evicted ↔ answer = some .closed)) ∧
      ∀ s t : Service, (∃ action, s.step? action = some t) ∨ (∃ errand reply, s.Does errand reply t) →
        s.Shifts self.subscriber t := by
  intro entries total
  obtain ⟨b, queued, stands⟩ := moves.stands made
  have run : origin.Run total now := earliest.trans moves.run
  obtain ⟨orderly, agrees⟩ := run.agrees sound idle
  have distinct : (entries.map (·.id)).Nodup := sound.distinct.of_append_left
  have once : ∀ e ∈ joined entries total, e.subscriber = self.subscriber → e = self := once
  have whole : accepted self.subscriber total = accepted self.subscriber (occurrences past) := by
    rw [accepted, verdicts_append, unused]
    rfl
  refine ⟨b, queued, stands.capacity ▸ stands.bounded, stands.isOpen, ?_, ?_, ?_, ?_, ?_, ?_, ?_⟩
  · intro frame answer
    have room := stands.bounded
    obtain ⟨takes, full, gone⟩ := b.offer_answer frame
    rw [← (Hub.take_mailbox queued frame).1] at takes full gone
    rw [← stands.capacity]
    refine ⟨takes, full.trans (and_congr_right fun _ => ?_), gone⟩
    omega
  · intro frame answer after move
    rw [move.answers queued rfl, (Hub.take_mailbox queued frame).1]
  · rw [whole]
    exact stands.kept
  · rw [whole]
    exact fun shut => (stands.discarded shut).2
  · rintro later during earlier parts joins stays leaves
    rw [parts] at orderly once ⊢
    exact verdicts_stretch orderly distinct joins stays leaves once
  · rintro later call tally during earlier parts lasts member
    obtain ⟨f, g, begins, ends⟩ := moves.split parts
    obtain ⟨counts, ended⟩ := begins.reported earliest idle ends
    have whole : total = occurrences (later ++ .reported call tally :: (during ++ [.noticed (.began call)])) ++
        (occurrences earlier ++ before) := by
      simp [total, parts, occurrences_append, occurrences_cons, Remark.occurrence?]
    have known : registeredAfter entries (occurrences earlier ++ before) ⊆ joined entries total := by
      rw [whole]
      exact fun e registered => (joined_grows entries _ _).subset ((registered_sublist entries _).subset registered)
    obtain ⟨everybody, answer, listed, verdict, evicts⟩ := pass_verdict (ended.agrees sound idle).1
      (not_ended lasts begins) distinct member fun e registered => once e (known registered)
    have within : occurrences during ⊆ occurrences past := by
      intro x happened
      simp [parts, occurrences_append, occurrences_cons, happened]
    have kinds := moves.answers made (verdicts_subset within (verdict ▸ List.mem_singleton_self _))
    refine ⟨_, answer, counts, everybody, listed, verdict, kinds, evicts.trans ?_⟩
    rcases kinds with same | same | same <;> cases same <;> simp [Refusal.isFinal]
  · rintro s t (⟨action, steps⟩ | ⟨errand, reply, does⟩)
    · exact Service.step_shifts steps
    · exact Service.does_shifts does

/-- A broadcast to a single subscriber. -/
theorem single_pass {e : Entry} {call : Call} {tally : Tally} (single : h.roster.entries = [e])
    (takes : h.take e.subscriber (Frame.encode call.message) = (answer, after))
    (counts : Tally.count {} e.id answer = tally) :
    (Floor.mk {} h []).Moves i [.reported call tally, .noticed (.answered e (Frame.encode call.message) answer),
        .noticed (.called e (Frame.encode call.message)), .noticed (.began call)]
      ⟨{}, { after with roster := after.roster.evict tally.evicted }, []⟩ := by
  subst counts
  let pass : Pass := { call, frame := Frame.encode call.message, left := [e] }
  let waiting : Pass := { pass with heldUntil := some 0 }
  let finished : Pass := { pass with left := [], tally := Tally.count {} e.id answer }
  have began : Move i ⟨{}, h, []⟩ (some (.noticed (.began call))) ⟨{ pass }, h, []⟩ := by
    have begins := @Step.begin {} h [] [] call rfl
    rw [Turns.start, single] at begins
    exact .notice begins (by simp)
  have called : Move i ⟨{ pass }, h, []⟩ (some (.noticed (.called e pass.frame)))
      ⟨{ pass := waiting }, h, []⟩ :=
    .notice (@Step.call { pass } h [] pass e [] 0 rfl rfl rfl) (by simp)
  have answered : Move i ⟨{ pass := waiting }, h, []⟩ (some (.noticed (.answered e pass.frame answer)))
      ⟨{ pass := finished }, after, []⟩ :=
    .notice (@Step.answer { pass := waiting } h [] waiting e [] 0 answer after rfl rfl rfl takes) (by simp)
  have reported : Move i ⟨{ pass := finished }, after, []⟩ (some (.reported call finished.tally))
      ⟨{}, { after with roster := after.roster.evict finished.tally.evicted }, []⟩ :=
    @Move.report i { pass := finished } after [] finished _ _ _ _ rfl rfl
  exact ((began.moves.next called).next answered).next reported

/-- A queue with room for one frame drops the second of two frames, takes one again when its reader has
taken the first, and is evicted when the reader has left. -/
theorem small_queue_recovers :
    let self : Entry := ⟨⟨1⟩, 0⟩
    let start : Floor := ⟨{}, { subscribers := #[.mailbox (.ofCapacity "probe" 0)], roster := .ofCount 1 }, []⟩
    let call (text : String) : Call := ⟨.operator, .raw text⟩
    let frame (text : String) : Bytes := Frame.encode (call text).message
    ∃ past now, start.Sound ∧ start.Moves 0 past now ∧
      verdicts 0 (occurrences past) = [(frame "a", none), (frame "b", some .full), (frame "c", none),
        (frame "d", some .closed)] ∧
      (sent (occurrences past)).map Frame.encode = [frame "a", frame "b", frame "c", frame "d"] ∧
      received past = [frame "a"] ∧ received past <+: accepted 0 (occurrences past) ∧
      .reported (call "b") { dropped := 1 } ∈ past ∧ .reported (call "d") { evicted := [self.id] } ∈ past ∧
      now.hub.roster.entries = [] := by
  intro self start call frame
  let hub (queue : Array Bytes) (isOpen : Bool) (given : List String) : Hub :=
    { subscribers := #[.mailbox ⟨"probe", 1, queue, isOpen⟩], roster := .ofCount 1
      journal := ⟨given.map fun text => ⟨0, 0, frame text⟩⟩ }
  have first := @single_pass 0 none (hub #[] true []) (hub #[frame "a"] true ["a"]) self (call "a")
    { delivered := 1 } rfl rfl rfl
  have second := @single_pass 0 (some .full) (hub #[frame "a"] true ["a"]) (hub #[frame "a"] true ["a", "b"]) self
    (call "b") { dropped := 1 } rfl rfl rfl
  have third := @single_pass 0 none (hub #[] true ["a", "b"]) (hub #[frame "c"] true ["a", "b", "c"]) self
    (call "c") { delivered := 1 } rfl rfl rfl
  have fourth := @single_pass 0 (some .closed) (hub #[] false ["a", "b", "c"]) (hub #[] false ["a", "b", "c", "d"])
    self (call "d") { evicted := [⟨1⟩] } rfl rfl rfl
  have moves : start.Moves 0 _ _ :=
    (((first.trans second).next (.receive 1)).trans third).next .close |>.trans fourth
  have sound : start.Sound := sound_ofCount rfl
  obtain ⟨b, _, _, isOpen, _, _, _, discarded, _⟩ := @queue_loses_nothing_silently self 0 start _ _
    start [] "probe" sound rfl .start rfl rfl moves fun e member _ => List.mem_singleton.mp member
  have shut : b.isOpen = false := by simpa using isOpen
  exact ⟨_, _, sound, moves, rfl, rfl, rfl, discarded shut, by simp, .head _, rfl⟩

end Floor

end LiveTiming
