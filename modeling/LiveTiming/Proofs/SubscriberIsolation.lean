import LiveTiming.Proofs.Errands

namespace LiveTiming

/-- Two quiet services that agree on everything but the subscribers that are set apart. -/
structure Service.Twins (apart : Nat → Bool) (s t : Service) : Prop where
  left : s.Quiet
  right : t.Quiet
  feed : s.feed.Agree apart True t.feed
  driver : t.driver = s.driver

variable {apart : Nat → Bool} {h k after last : Hub} {s s' t t' : Service}
  {errand : Errand} {reply reply' : Reply} {fired fired' : List (Nat × Event)} {time : Nat}

namespace Hub

theorem Agree.sends (agree : h.Agree apart True k) (sends : h.Sends fired after) :
    ∃ last, k.Sends fired last ∧ after.Agree apart True last := by
  induction sends generalizing k with
  | rest rested =>
    obtain ⟨last, also, same⟩ := agree.takeDue rested
    exact ⟨last, .rest also, same⟩
  | @send h e rest fired after taken _ ih =>
    obtain ⟨next, also, same⟩ := agree.takeDue taken
    obtain ⟨last, later, agrees⟩ := ih (same.broadcast e.message)
    exact ⟨last, agree.clock ▸ .send also later, agrees⟩

end Hub

namespace Service

/-- The driver of two services does the same next in both. -/
theorem Twins.stride (twins : Twins apart s t) {sent : Option Event} {next : Service}
    (strides : s.stride? = some (sent, next)) :
    ∃ last, t.stride? = some (sent, last) ∧ Twins apart next last := by
  suffices ∃ last, t.stride? = some (sent, last) ∧ next.feed.Agree apart True last.feed ∧
      last.driver = next.driver by
    obtain ⟨last, also, feed, driver⟩ := this
    exact ⟨last, also, (twins.left.stride strides).1, (twins.right.stride also).1, feed, driver⟩
  have stopping : t.feed.stopping = s.feed.stopping := by rw [twins.feed.rest]
  have wake : t.hub.wake = s.hub.wake := twins.feed.hub.wake trivial
  have clock : t.hub.clock = s.hub.clock := twins.feed.hub.clock
  have same {d : Driver} (driver : s.driver = some d) : t.driver = some d := twins.driver.trans driver
  cases strides_of strides with
  | send looks taken =>
    obtain ⟨last, there, agree⟩ := twins.feed.hub.takeDue taken
    exact ⟨_, stride_sends (same looks) there, twins.feed.withHub (agree.broadcast _), twins.driver⟩
  | look looks taken =>
    obtain ⟨last, there, agree⟩ := twins.feed.hub.takeDue taken
    exact ⟨_, stride_looks (same looks) there, twins.feed.withHub agree, rfl⟩
  | plan plans =>
    obtain ⟨deadline, agree⟩ := twins.feed.hub.timeline.nextTime
    refine ⟨_, stride_plans (same plans), twins.feed.withHub (twins.feed.hub.reschedule agree fun _ => wake), ?_⟩
    exact congrArg (some ∘ Driver.planned) deadline
  | rest planned => exact ⟨_, stride_rests (same planned), twins.feed, rfl⟩
  | stop sleeps stops => exact ⟨_, stride_stops (same sleeps) (stopping.trans stops), twins.feed, rfl⟩
  | rouse sleeps runs asked =>
    refine ⟨_, stride_rouses (same sleeps) (stopping.trans runs) (wake.trans asked), ?_, rfl⟩
    exact twins.feed.withHub (twins.feed.hub.reschedule twins.feed.hub.timeline fun _ => rfl)
  | ring sleeps runs quiet due =>
    exact ⟨_, stride_rings (same sleeps) (stopping.trans runs) (wake.trans quiet) (due.trans_eq clock.symm),
      twins.feed, rfl⟩

theorem Twins.stride_none (twins : Twins apart s t) (rests : s.stride? = none) : t.stride? = none := by
  refine Option.eq_none_iff_forall_ne_some.mpr fun ⟨sent, last⟩ strides => ?_
  have mirror : Twins apart t s := ⟨twins.right, twins.left, twins.feed.symm, twins.driver.symm⟩
  obtain ⟨next, also, _⟩ := mirror.stride strides
  rw [rests] at also
  cases also

theorem Twins.nextTime (twins : Twins apart s t) : t.nextTime? = s.nextTime? := by
  unfold nextTime?
  rw [twins.left.idle, twins.right.idle, twins.driver]

theorem Twins.moveClock (twins : Twins apart s t) (time : Nat) :
    Twins apart (s.moveClock time) (t.moveClock time) where
  left := twins.left.moveClock time
  right := twins.right.moveClock time
  feed := twins.feed.withHub (twins.feed.hub.moveClock time)
  driver := twins.driver

theorem Twins.sleeps (twins : Twins apart s s') (sleeps : s.Sleeps time fired t) :
    ∃ t', s'.Sleeps time fired t' ∧ Twins apart t t' := by
  induction sleeps generalizing s' with
  | @stride s next t sent fired strides _ ih =>
    obtain ⟨last, also, same⟩ := twins.stride strides
    obtain ⟨t', later, agrees⟩ := ih same
    have clock : s'.hub.clock = s.hub.clock := twins.feed.hub.clock
    exact ⟨t', clock ▸ .stride also later, agrees⟩
  | wait rests rings early _ ih =>
    obtain ⟨t', later, agrees⟩ := ih (twins.moveClock _)
    exact ⟨t', .wait (twins.stride_none rests) (twins.nextTime.trans rings) early later, agrees⟩
  | rest rests late =>
    refine ⟨_, .rest (twins.stride_none rests) fun alarm rings => ?_, twins.moveClock time⟩
    exact late alarm (twins.nextTime ▸ rings)

/-- An operator who does the same at two services is told the same, apart from what is told of those
who are set apart, and the same events are sent at the same times. -/
theorem Twins.does (twins : Twins apart s s') (does : s.Does errand reply t) (fires : s.Fires errand fired t)
    (also : s'.Does errand reply' t') (again : s'.Fires errand fired' t') :
    fired' = fired ∧ reply'.plain apart = reply.plain apart ∧ Twins apart t t' := by
  suffices fired' = fired ∧ reply'.plain apart = reply.plain apart ∧ t.feed.Agree apart True t'.feed ∧
      t'.driver = t.driver by
    obtain ⟨events, replies, feed, driver⟩ := this
    exact ⟨events, replies, twins.left.does does, twins.right.does also, feed, driver⟩
  cases acts : errand.act? with
  | some act =>
    obtain ⟨rfl, ⟨_, rfl⟩, _⟩ := twins.left.acts acts does
    obtain ⟨rfl, ⟨_, rfl⟩, _⟩ := twins.right.acts acts also
    obtain ⟨answer, same⟩ := twins.feed.act acts
    have events : fired' = fired := ((fires_act acts).mp again).trans ((fires_act acts).mp fires).symm
    exact ⟨events, answer, same, twins.driver⟩
  | none =>
    rcases Errand.act_none acts with rfl | ⟨duration, rfl⟩
    · obtain ⟨_, _, sends, rfl⟩ := does_sendDue.mp does
      obtain ⟨_, _, sends', rfl⟩ := does_sendDue.mp also
      obtain ⟨events, hub, pass, rfl, _, rfl⟩ := twins.left.sendDue_does sends
      obtain ⟨events', hub', pass', rfl, _, rfl⟩ := twins.right.sendDue_does sends'
      obtain ⟨last, other, same⟩ := twins.feed.hub.sends pass
      obtain ⟨rfl, rfl⟩ := other.unique pass'
      obtain ⟨rfl, _⟩ := pass.unique fires
      obtain ⟨rfl, _⟩ := pass'.unique again
      exact ⟨rfl, rfl, twins.feed.withHub same, twins.driver⟩
    · obtain ⟨rfl, _⟩ := does_sleep.mp does
      obtain ⟨rfl, _⟩ := does_sleep.mp also
      have clock : s'.hub.clock = s.hub.clock := twins.feed.hub.clock
      have woken : s'.Sleeps (s.hub.clock + duration) fired' t' := by
        rw [← clock]
        exact again
      obtain ⟨last, other, same⟩ := twins.sleeps fires
      obtain ⟨rfl, rfl⟩ := other.unique woken
      exact ⟨rfl, rfl, same.feed, same.driver⟩

theorem Twins.does_too (twins : Twins apart s s') (fires : s.Fires errand fired t) :
    ∃ reply' fired' t', s'.Does errand reply' t' ∧ s'.Fires errand fired' t' := by
  cases acts : errand.act? with
  | some act =>
    obtain ⟨t', does⟩ := twins.right.act_ends acts
    exact ⟨_, [], t', does, (fires_act acts).mpr rfl⟩
  | none =>
    rcases Errand.act_none acts with rfl | ⟨duration, rfl⟩
    · obtain ⟨last, other, _⟩ := twins.feed.hub.sends fires
      obtain ⟨fuel, t', sends⟩ := twins.right.sendDue_ends other
      obtain ⟨events, hub, pass, _, _, rfl⟩ := twins.right.sendDue_does sends
      exact ⟨_, events, _, does_sendDue.mpr ⟨fuel, _, sends, rfl⟩, pass⟩
    · have clock : s'.hub.clock = s.hub.clock := twins.feed.hub.clock
      obtain ⟨t', other, _⟩ := twins.sleeps fires
      rw [← clock] at other
      exact ⟨_, fired, t', does_sleep.mpr ⟨rfl, twins.right.sleeps_iff.mpr ⟨fired, other⟩⟩, other⟩

variable {errands : List Errand} {replies replies' : List Reply}

theorem Twins.attends (twins : Twins apart s s') (attends : s.Attends errands replies fired t)
    (also : s'.Attends errands replies' fired' t') :
    fired' = fired ∧ replies'.map (Reply.plain apart) = replies.map (Reply.plain apart) ∧ Twins apart t t' := by
  induction attends generalizing s' replies' fired' with
  | done =>
    cases also
    exact ⟨rfl, rfl, twins⟩
  | next does fires _ ih =>
    cases also with
    | next also again later =>
      obtain ⟨rfl, answer, same⟩ := twins.does does fires also again
      obtain ⟨rfl, answers, ends⟩ := ih same later
      exact ⟨rfl, by rw [List.map_cons, List.map_cons, answer, answers], ends⟩

theorem Twins.attends_too (twins : Twins apart s s') (attends : s.Attends errands replies fired t) :
    ∃ replies' fired' t', s'.Attends errands replies' fired' t' := by
  induction attends generalizing s' with
  | done => exact ⟨_, _, _, .done⟩
  | next does fires _ ih =>
    obtain ⟨_, _, _, also, again⟩ := twins.does_too fires
    obtain ⟨_, _, same⟩ := twins.does does fires also again
    obtain ⟨_, _, _, later⟩ := ih same
    exact ⟨_, _, _, .next also again later⟩

/-- The service with another subscriber in the place of one. -/
def withSubscriber (s : Service) (i : Nat) (x : Subscriber) : Service :=
  s.withHub { s.hub with subscribers := s.hub.subscribers.setIfInBounds i x }

theorem Quiet.withSubscriber (quiet : s.Quiet) (i : Nat) {x : Subscriber} (prompt : x.Prompt) :
    (s.withSubscriber i x).Quiet := by
  refine quiet.withHub ?_ quiet.sound
  intro other member
  rcases Array.mem_or_eq_of_mem_setIfInBounds member with old | rfl
  · exact quiet.prompt other old
  · exact prompt

theorem Quiet.twins (quiet : s.Quiet) (distinct : s.hub.roster.Distinct) (i : Nat) {x y : Subscriber}
    (first : x.Prompt ∧ x.Silent) (second : y.Prompt ∧ y.Silent) :
    Twins (· == i) (s.withSubscriber i x) (s.withSubscriber i y) := by
  refine ⟨quiet.withSubscriber i first.1, quiet.withSubscriber i second.1, ⟨rfl, ?_⟩, rfl⟩
  have meek {x : Subscriber} (fits : x.Prompt ∧ x.Silent) : (s.withSubscriber i x).hub.Meek (· == i) := by
    intro j other isApart known
    obtain rfl : j = i := by simpa using isApart
    have placed : (s.hub.subscribers.setIfInBounds j x)[j]? = some other := known
    rw [Array.getElem?_setIfInBounds_self] at placed
    split at placed
    · cases placed
      exact fits
    · cases placed
  exact {
    clock := rfl
    timeline := .refl quiet.sound
    roster := .refl distinct
    wake := fun _ => rfl
    others := fun j ordinary => by
      have different : i ≠ j := by
        rintro rfl
        simp at ordinary
      have same (x : Subscriber) : (s.hub.subscribers.setIfInBounds i x)[j]? = s.hub.subscribers[j]? :=
        Array.getElem?_setIfInBounds_ne different
      exact (same y).trans (same x).symm
    left := meek first
    right := meek second
    journal := rfl }

/-- What one subscriber answers, who neither waits nor schedules anything, does not matter to anybody
else. Whether he takes the frames, drops them or is gone, an operator who does the same is answered
the same, apart from reports of broadcasts, numbers of subscribers, and that subscriber's own
registrations and queue; the same events are sent at the same times; and everybody else is given
the same frames at the same times. -/
theorem answers_stay_apart (quiet : s.Quiet) (distinct : s.hub.roster.Distinct) (i : Nat) {x y : Subscriber}
    (first : x.Prompt ∧ x.Silent) (second : y.Prompt ∧ y.Silent) (errands : List Errand) :
    ((∃ replies fired t, (s.withSubscriber i x).Attends errands replies fired t) ↔
      ∃ replies fired t, (s.withSubscriber i y).Attends errands replies fired t) ∧
    ∀ replies fired t replies' fired' t', (s.withSubscriber i x).Attends errands replies fired t →
      (s.withSubscriber i y).Attends errands replies' fired' t' →
      fired' = fired ∧ replies'.map (Reply.plain (· == i)) = replies.map (Reply.plain (· == i)) ∧
      t'.hub.journal.toList.filter (·.subscriber != i) = t.hub.journal.toList.filter (·.subscriber != i) ∧
      t'.hub.roster.entries.filter (·.subscriber != i) = t.hub.roster.entries.filter (·.subscriber != i) ∧
      t'.hub.clock = t.hub.clock ∧ t'.hub.timeline.pending = t.hub.timeline.pending ∧
      t'.hub.timeline.nextId = t.hub.timeline.nextId ∧ t'.feed.races = t.feed.races ∧
      t'.feed.generator = t.feed.generator ∧ t'.driver = t.driver := by
  have twins := quiet.twins distinct i first second
  have mirror := quiet.twins distinct i second first
  refine ⟨⟨fun ⟨_, _, _, attends⟩ => twins.attends_too attends,
    fun ⟨_, _, _, attends⟩ => mirror.attends_too attends⟩, ?_⟩
  intro replies fired t replies' fired' t' attends also
  obtain ⟨events, answers, ends⟩ := twins.attends attends also
  have rest := ends.feed.rest
  exact ⟨events, answers, ends.feed.hub.journal, ends.feed.hub.roster.entries, ends.feed.hub.clock,
    ends.feed.hub.timeline.pending, ends.feed.hub.timeline.nextId, by rw [rest], by rw [rest], ends.driver⟩

/-- A subscriber who is gone is evicted, and the other one is given the same frames at the same times
as if he had stayed. -/
theorem eviction_stays_apart :
    let s : Service := { feed := .start {} [.log, .log] (.ofWords fun _ => 0) }
    let gone : Subscriber := .watcher ⟨fun _ => 0, fun _ _ => [], fun _ => some .closed⟩ 0
    let errands := [.broadcast (.raw "first"), .broadcast (.raw "last")]
    ∃ t t', (s.withSubscriber 0 gone).Attends errands
        [.told { delivered := 1, evicted := [⟨1⟩] }, .told { delivered := 1 }] [] t ∧
      (s.withSubscriber 0 .log).Attends errands [.told { delivered := 2 }, .told { delivered := 2 }] [] t' ∧
      t'.hub.journal.toList.filter (·.subscriber != 0) = t.hub.journal.toList.filter (·.subscriber != 0) := by
  intro s gone errands
  have quiet : s.Quiet := by
    refine quiet_start {} (fun x member => ?_) _ nofun
    obtain rfl : x = .log := by simpa using member
    trivial
  have distinct : s.hub.roster.Distinct := Roster.ofCount_distinct 2
  obtain ⟨t, leaves⟩ : ∃ t, (s.withSubscriber 0 gone).Attends errands
      [.told { delivered := 1, evicted := [⟨1⟩] }, .told { delivered := 1 }] [] t :=
    ⟨_, @Attends.next _ _ _ _ _ [] _ _ _ ⟨1, rfl⟩ rfl (@Attends.next _ _ _ _ _ [] _ _ _ ⟨1, rfl⟩ rfl Attends.done)⟩
  obtain ⟨t', stays⟩ : ∃ t, (s.withSubscriber 0 .log).Attends errands
      [.told { delivered := 2 }, .told { delivered := 2 }] [] t :=
    ⟨_, @Attends.next _ _ _ _ _ [] _ _ _ ⟨1, rfl⟩ rfl (@Attends.next _ _ _ _ _ [] _ _ _ ⟨1, rfl⟩ rfl Attends.done)⟩
  have meek : gone.Prompt ∧ gone.Silent := ⟨fun _ => rfl, fun _ _ => rfl⟩
  have stayer : Subscriber.log.Prompt ∧ Subscriber.log.Silent := ⟨trivial, trivial⟩
  have agree := (answers_stay_apart quiet distinct 0 meek stayer errands).2 _ _ _ _ _ _ leaves stays
  exact ⟨t, t', leaves, stays, agree.2.2.1⟩

end Service

end LiveTiming
