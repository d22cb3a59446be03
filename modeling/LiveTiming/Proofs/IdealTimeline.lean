import LiveTiming.Proofs.DriverAtWork

namespace LiveTiming

/-- An event is to come no longer, and nothing else has changed, however the others are kept. -/
structure Hub.Without (h : Hub) (e : Event) (after : Hub) : Prop where
  rest : h.Rescheduled after
  sound : after.timeline.Sound
  pending : after.timeline.pending = h.timeline.pending.erase e
  nextId : after.timeline.nextId = h.timeline.nextId

/-- The ideal course of a hub until a time. Again and again the first event to come is sent, at its
own time unless that is past, until none is to come before the end. -/
inductive Hub.Ideal (time : Nat) : Hub → List (Nat × Event) → Hub → Prop
  | rest {h : Hub} : (∀ e ∈ h.timeline.pending, time < e.time) → Ideal time h [] (h.moveClock time)
  | send {h rest after : Hub} {e fired} : e ∈ h.timeline.pending →
      (∀ other ∈ h.timeline.pending, e.le other = true) → e.time ≤ time → (h.moveClock e.time).Without e rest →
      Ideal time (rest.broadcast e.message).2 fired after → Ideal time h ((max h.clock e.time, e) :: fired) after

/-- The ideal course of a feed whose operator does some errands. -/
inductive Feed.Plays : Feed → List Errand → List (Nat × Event) → Feed → Prop
  | done {f} : Plays f [] [] f
  | act {f g errand act later fired} : errand.act? = some act → Plays (act f).2 later fired g →
      Plays f (errand :: later) fired g
  | sleep {f g duration hub later fired others} : f.hub.Ideal (f.hub.clock + duration) fired hub →
      Plays { f with hub } later others g → Plays f (.sleep duration :: later) (fired ++ others) g

/-- Two feeds that are the same, however they keep the events to come. -/
structure Feed.Matches (f g : Feed) : Prop where
  rest : g = { f with hub := g.hub }
  hub : f.hub.Rescheduled g.hub
  timeline : f.hub.timeline.Agree g.hub.timeline

def nobody (_ : Nat) : Bool :=
  false

variable {h k after last : Hub} {f g : Feed} {s next t : Service} {time now : Nat}
  {fired : List (Nat × Event)} {e : Event}

namespace Hub

theorem moveClock_past (past : now ≤ h.clock) : h.moveClock now = h := by
  simp only [moveClock, max_eq_left past]

theorem moveClock_twice (later : now ≤ time) : (h.moveClock now).moveClock time = h.moveClock time := by
  simp only [moveClock, max_assoc, max_eq_right later]

/-- Two hubs that agree on everything are the same, however they keep the events to come. -/
theorem Agree.same {alert : Prop} (agree : h.Agree nobody alert k) : h.Rescheduled k := by
  have subscribers : k.subscribers = h.subscribers := Array.ext_getElem? fun i => agree.others i rfl
  have entries : k.roster.entries = h.roster.entries := by
    simpa [nobody] using agree.roster.entries
  have journal : k.journal = h.journal := by
    simpa [nobody] using agree.journal
  have roster : k.roster = h.roster := by
    cases left : k.roster
    cases right : h.roster
    have number := agree.roster.nextId
    rw [left, right] at entries number
    simp_all
  rw [Rescheduled, ← agree.clock, ← subscribers, ← roster, ← journal]

theorem Agree.rescheduled {apart : Nat → Bool} {h' k' : Hub} (agree : h.Agree apart False k)
    (left : h.Rescheduled h') (right : k.Rescheduled k') (same : h'.timeline.Agree k'.timeline) :
    h'.Agree apart False k' := by
  rw [left, right]
  exact agree.reschedule same False.elim

theorem Agree.tidied {apart : Nat → Bool} (agree : h.Agree apart False k) (tidied : h.Tidied after) :
    after.Agree apart False k := by
  have timeline := tidied.timeline agree.timeline.left
  exact agree.rescheduled tidied.rest (.refl k) (timeline.symm.trans agree.timeline)

/-- Time that passes before the first event to come makes no difference. -/
theorem Ideal.sooner (ideal : (h.moveClock now).Ideal time fired after) (soon : now ≤ time)
    (early : ∀ e ∈ h.timeline.pending, now ≤ e.time) : h.Ideal time fired after := by
  cases ideal with
  | rest late =>
    rw [moveClock_twice soon]
    exact .rest late
  | @send _ rest _ e fired member least due without later =>
    rw [moveClock_twice (early e member)] at without
    have sent : max (h.moveClock now).clock e.time = max h.clock e.time := by
      have bound := early e member
      simp only [moveClock]
      omega
    rw [sent]
    exact .send member least due without later

end Hub

theorem Feed.Agree.matches (agree : f.Agree nobody False g) : f.Matches g :=
  ⟨agree.rest, agree.hub.same, agree.hub.timeline⟩

namespace Service

/-- What a driver does while it sleeps is the ideal course. -/
theorem Sleeps.ideal (sleeps : s.Sleeps time fired t) (atWork : s.AtWork) (future : s.hub.clock ≤ time)
    (agree : s.hub.Agree nobody False k) :
    ∃ after, k.Ideal time fired after ∧ t.hub.Agree nobody False after := by
  induction sleeps generalizing k with
  | @stride s next t sent fired strides _ ih =>
    have nextAtWork := atWork.stride strides
    rcases stride_cases strides with
      ⟨e, rest, _, taken, rfl, rfl⟩ | ⟨rfl, d, rest, _, _, tidied, rfl⟩
    · obtain ⟨member, due, least, sound, pending, number⟩ :=
        Timeline.takeDue_some atWork.quiet.sound (Hub.takeDue_eq taken).1
      let others : Hub := { k with timeline := rest.timeline }
      have past : e.time ≤ k.clock := agree.clock ▸ due
      have without : (k.moveClock e.time).Without e others := by
        rw [Hub.moveClock_past past]
        exact ⟨rfl, sound, by rw [agree.timeline.pending]; exact pending,
          by rw [agree.timeline.nextId]; exact number⟩
      have same : rest.Agree nobody False others :=
        agree.rescheduled (Hub.takeDue_rescheduled taken) rfl (.refl sound)
      have prompt : rest.Prompt := (Hub.takeDue_rescheduled taken).prompt atWork.quiet.prompt
      have clock : (rest.broadcast e.message).2.clock = s.hub.clock :=
        (prompt.broadcast e.message).2.trans (Hub.takeDue_eq taken).2.1
      obtain ⟨after, later, ends⟩ := ih nextAtWork (clock.trans_le future) (same.broadcast e.message)
      have sent : max k.clock e.time = s.hub.clock := (max_eq_left past).trans agree.clock
      refine ⟨after, sent ▸ .send ?_ ?_ (due.trans future) without later, ends⟩
      · rw [agree.timeline.pending]
        exact member
      · rw [agree.timeline.pending]
        exact least
    · exact ih nextAtWork (tidied.rest.clock.trans_le future) (agree.tidied tidied)
  | @wait s t alarm fired rests rings early _ ih =>
    obtain ⟨deadline, _, next, meets, _⟩ := atWork.waits rests
    obtain rfl : deadline = some alarm := next.symm.trans rings
    obtain ⟨after, later, ends⟩ := ih (atWork.moveClock alarm) (max_le future early) (agree.moveClock alarm)
    refine ⟨after, later.sooner early fun e member => ?_, ends⟩
    obtain ⟨first, same, bound⟩ := meets e (agree.timeline.pending ▸ member)
    cases same
    exact bound
  | @rest s rests late =>
    obtain ⟨deadline, _, next, meets, _⟩ := atWork.waits rests
    refine ⟨k.moveClock time, .rest fun e member => ?_, agree.moveClock time⟩
    obtain ⟨alarm, rfl, bound⟩ := meets e (agree.timeline.pending ▸ member)
    exact (late alarm next).trans_le bound

/-- While a service sends nothing its clock moves on, but not beyond the first event to come. -/
theorem Idles.agrees (idles : Idles time s next) (atWork : s.AtWork) (future : s.hub.clock ≤ time)
    (agree : s.hub.Agree nobody False k) :
    next.hub.Agree nobody False (k.moveClock next.hub.clock) ∧ s.hub.clock ≤ next.hub.clock ∧
      next.hub.clock ≤ time ∧ ∀ e ∈ k.timeline.pending, next.hub.clock ≤ max s.hub.clock e.time := by
  induction idles generalizing k with
  | @refl s =>
    rw [← agree.clock, Hub.moveClock_past le_rfl]
    exact ⟨agree, le_rfl, agree.clock ▸ future, fun _ _ => le_max_left _ _⟩
  | @stride s _ t strides _ ih =>
    have nextAtWork := atWork.stride strides
    rcases stride_cases strides with ⟨_, _, _, _, sent, _⟩ | ⟨_, d, rest, _, _, tidied, rfl⟩
    · cases sent
    · have later := ih nextAtWork (tidied.rest.clock.trans_le future) (agree.tidied tidied)
      rw [← tidied.rest.clock]
      exact later
  | @wait s t alarm rests rings early _ ih =>
    obtain ⟨deadline, _, next, meets, ahead⟩ := atWork.waits rests
    obtain rfl : deadline = some alarm := next.symm.trans rings
    obtain ⟨ends, bound, soon, first⟩ :=
      ih (atWork.moveClock alarm) (max_le future early) (agree.moveClock alarm)
    have passed : max s.hub.clock alarm ≤ t.hub.clock := bound
    rw [Hub.moveClock_twice ((le_max_right _ _).trans passed)] at ends
    refine ⟨ends, (le_max_left _ _).trans passed, soon, fun e member => ?_⟩
    obtain ⟨other, same, before⟩ := meets e (agree.timeline.pending ▸ member)
    cases same
    have reached : t.hub.clock ≤ max (max s.hub.clock alarm) e.time := first e member
    omega

end Service

/-- A driver goes through the whole ideal course while it sleeps. -/
theorem Hub.Ideal.sleeps (ideal : k.Ideal time fired after) (atWork : s.AtWork) (future : s.hub.clock ≤ time)
    (agree : s.hub.Agree nobody False k) :
    ∃ t, s.Sleeps time fired t ∧ t.hub.Agree nobody False after := by
  induction ideal generalizing s with
  | @rest k late =>
    obtain ⟨next, idles, poised⟩ := atWork.settles time
    obtain ⟨ends, _, soon, _⟩ := idles.agrees atWork future agree
    have goesOn := idles.atWork atWork
    cases poised with
    | @sends e rest looks taken =>
      obtain ⟨member, due, _⟩ := Timeline.takeDue_some goesOn.quiet.sound (Hub.takeDue_eq taken).1
      rw [← ends.timeline.pending] at member
      exact absurd (due.trans soon) (Nat.not_le_of_lt (late e member))
    | rests rests silent =>
      have last := ends.moveClock time
      rw [Hub.moveClock_twice soon] at last
      exact ⟨_, idles.sleeps (.rest rests silent), last⟩
  | @send k rest after e fired member least due without _ ih =>
    obtain ⟨next, idles, poised⟩ := atWork.settles time
    obtain ⟨ends, bound, soon, first⟩ := idles.agrees atWork future agree
    have goesOn := idles.atWork atWork
    have waiting : e ∈ next.hub.timeline.pending := by
      rw [← ends.timeline.pending]
      exact member
    cases poised with
    | rests rests silent =>
      obtain ⟨deadline, _, alarm, meets, _⟩ := goesOn.waits rests
      obtain ⟨ring, rfl, early⟩ := meets e waiting
      exact absurd (early.trans due) (Nat.not_le_of_lt (silent ring alarm))
    | @sends other taken looks takes =>
      obtain ⟨otherWaits, otherDue, otherLeast, sound, pending, number⟩ :=
        Timeline.takeDue_some goesOn.quiet.sound (Hub.takeDue_eq takes).1
      have unsent : other ∈ k.timeline.pending := by
        rw [← ends.timeline.pending] at otherWaits
        exact otherWaits
      have same : other.id = e.id := Event.id_eq_of_le (otherLeast e waiting) (least other unsent)
      obtain rfl : other = e := goesOn.quiet.sound.pending_eq otherWaits waiting same
      -- The clock has moved on to the event, or stood still if that was past.
      have clock : next.hub.clock = max k.clock other.time := by
        have reached := first other member
        rw [agree.clock]
        omega
      have moved : k.moveClock next.hub.clock = k.moveClock other.time := by
        simp only [Hub.moveClock, clock, max_eq_right (le_max_left k.clock other.time)]
      rw [moved] at ends
      have timeline : taken.timeline.Agree rest.timeline :=
        ⟨sound, without.sound, by rw [without.pending, ends.timeline.pending, pending],
          by rw [without.nextId, ends.timeline.nextId, number]⟩
      have agrees : taken.Agree nobody False rest :=
        ends.rescheduled (Hub.takeDue_rescheduled takes) without.rest timeline
      have prompt : taken.Prompt := (Hub.takeDue_rescheduled takes).prompt goesOn.quiet.prompt
      have still : (taken.broadcast other.message).2.clock = next.hub.clock :=
        (prompt.broadcast other.message).2.trans (Hub.takeDue_eq takes).2.1
      have strides := Service.stride_sends looks takes
      obtain ⟨t, later, last⟩ := ih (goesOn.stride strides) (still.trans_le soon) (agrees.broadcast other.message)
      exact ⟨t, idles.sleeps (clock ▸ .stride strides later), last⟩

namespace Service

variable {errands : List Errand} {replies : List Reply}

theorem Sleeps.atWork (sleeps : s.Sleeps time fired t) (atWork : s.AtWork) : t.AtWork := by
  induction sleeps with
  | stride strides _ ih => exact ih (atWork.stride strides)
  | wait _ _ _ _ ih => exact ih (atWork.moveClock _)
  | rest => exact atWork.moveClock _

theorem Sleeps.feed (sleeps : s.Sleeps time fired t) (quiet : s.Quiet) :
    t.feed = { s.feed with hub := t.hub } := by
  induction sleeps with
  | stride strides _ ih =>
    rw [ih (quiet.stride strides).1]
    rcases stride_cases strides with ⟨_, _, _, _, _, rfl⟩ | ⟨_, _, _, _, _, _, rfl⟩ <;> rfl
  | wait _ _ _ _ ih =>
    rw [ih (quiet.moveClock _)]
    rfl
  | rest => rfl

/-- What comes of the errands of an operator, while a driver is at work, is what they come to
ideally. -/
theorem Attends.plays (attends : s.Attends errands replies fired t) (timely : ∀ errand ∈ errands, errand.Timely)
    (atWork : s.AtWork) (agree : s.feed.Agree nobody False f) :
    ∃ g, f.Plays errands fired g ∧ t.feed.Agree nobody False g := by
  induction attends generalizing f with
  | done => exact ⟨f, .done, agree⟩
  | @next s t u errand reply fired later replies others does fires _ ih =>
    have first := timely errand (List.mem_cons_self ..)
    have rest := fun errand member => timely errand (List.mem_cons_of_mem _ member)
    cases acts : errand.act? with
    | some act =>
      have goesOn := atWork.acts acts first does
      obtain ⟨_, ⟨_, rfl⟩, _⟩ := atWork.quiet.acts acts does
      obtain rfl := (fires_act acts).mp fires
      obtain ⟨g, plays, ends⟩ := ih rest goesOn (agree.act acts).2
      exact ⟨g, .act acts plays, ends⟩
    | none =>
      rcases Errand.act_none acts with rfl | ⟨duration, rfl⟩
      · exact first.elim
      · have sleeps : s.Sleeps (s.hub.clock + duration) fired t := fires
        have clock : f.hub.clock = s.hub.clock := agree.hub.clock
        obtain ⟨hub, ideal, same⟩ := sleeps.ideal atWork (Nat.le_add_right _ _) agree.hub
        have feed : t.feed.Agree nobody False { f with hub } := by
          refine ⟨?_, same⟩
          rw [sleeps.feed atWork.quiet, agree.rest]
        obtain ⟨g, plays, ends⟩ := ih rest (sleeps.atWork atWork) feed
        exact ⟨g, .sleep (clock ▸ ideal) plays, ends⟩

end Service

/-- While a driver is at work the errands of an operator come to what they come to ideally. -/
theorem Feed.Plays.attends {errands : List Errand} (plays : f.Plays errands fired g)
    (timely : ∀ errand ∈ errands, errand.Timely) (atWork : s.AtWork) (agree : s.feed.Agree nobody False f) :
    ∃ replies t, s.Attends errands replies fired t ∧ t.feed.Agree nobody False g := by
  induction plays generalizing s with
  | done => exact ⟨[], s, .done, agree⟩
  | @act f g errand act later fired acts _ ih =>
    obtain ⟨t, does⟩ := atWork.quiet.act_ends acts
    have goesOn := atWork.acts acts (timely errand (List.mem_cons_self ..)) does
    obtain ⟨_, ⟨_, rfl⟩, _⟩ := atWork.quiet.acts acts does
    obtain ⟨replies, last, attends, ends⟩ :=
      ih (fun errand member => timely errand (List.mem_cons_of_mem _ member)) goesOn (agree.act acts).2
    exact ⟨_, last, .next does ((Service.fires_act acts).mpr rfl) attends, ends⟩
  | @sleep f g duration hub later fired others ideal _ ih =>
    have clock : f.hub.clock = s.hub.clock := agree.hub.clock
    rw [clock] at ideal
    obtain ⟨t, sleeps, same⟩ := ideal.sleeps atWork (Nat.le_add_right _ _) agree.hub
    have feed : t.feed.Agree nobody False { f with hub } := by
      refine ⟨?_, same⟩
      rw [sleeps.feed atWork.quiet, agree.rest]
    obtain ⟨replies, last, attends, ends⟩ :=
      ih (fun errand member => timely errand (List.mem_cons_of_mem _ member)) (sleeps.atWork atWork) feed
    have does : s.Does (.sleep duration) .done t :=
      Service.does_sleep.mpr ⟨rfl, atWork.quiet.sleeps_iff.mpr ⟨fired, sleeps⟩⟩
    exact ⟨_, last, .next does sleeps attends, ends⟩

end LiveTiming
