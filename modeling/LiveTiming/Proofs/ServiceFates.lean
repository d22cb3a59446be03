import LiveTiming.Proofs.ServiceDesk
import LiveTiming.Proofs.ServiceTasks

namespace LiveTiming

/-- What is noticed of actions that a service takes by itself. -/
def Notice.IsOfService (x : Notice) : Prop :=
  ∃ action : Action, action.Shows x

variable {past more : List Notice} {d after : Desk} {others first rest : List Sender} {x : Notice}

theorem Notice.IsOfPass.isOfService (kind : x.IsOfPass) : x.IsOfService := by
  cases x with
  | posted | told => exact ⟨.visit, trivial⟩
  | taken | began => exact ⟨.look, trivial⟩
  | ended => exact ⟨.conclude, trivial⟩
  | cancelled | given | enrolled | returned => cases kind

namespace Service

variable {s t : Service} {n count fuel : Nat}

/-- An operator who has sent so many events waits for the broadcast of one, until he has his answer. -/
def awaited (s : Service) (n : Nat) : Duty :=
  if s.answer.isSome then .looking (n + 1) else .sending n

/-- An operator waits for the broadcast of an event, and the service does its work meanwhile. -/
def Awaits (n : Nat) (s t : Service) : Prop :=
  ∀ others d, s.WorksAt (s.awaited n) others d → ∃ more after, d.Run more after ∧
    (∀ x ∈ more, x.IsOfService) ∧ t.WorksAt (t.awaited n) others after

theorem awaited_resume (s : Service) (n : Nat) : (s.awaited n).resume = .looking (n + 1) := by
  unfold awaited
  split <;> rfl

theorem awaits_course (n : Nat) : Course (Awaits n) where
  refl _ _ d works := ⟨[], d, .start, nofun, works⟩
  trans first second others d works := by
    obtain ⟨early, middle, run, kinds, works⟩ := first others d works
    obtain ⟨late, after, further, more, works⟩ := second others middle works
    exact ⟨_, after, run.trans further, fun x member => (List.mem_append.mp member).elim (more x) (kinds x), works⟩
  step := by
    intro s t action steps others d works
    obtain ⟨more, after, duty, run, shows, works, answers⟩ := works.acts steps
    refine ⟨more, after, run, fun x member => ⟨action, shows x member⟩, ?_⟩
    rcases answers with ⟨rfl, same⟩ | ⟨rfl, answered⟩
    · rw [awaited, same]
      exact works
    · rw [awaited, if_pos answered, ← awaited_resume s]
      exact works
  clock s time others d works := by
    obtain ⟨hub, senders⟩ := d
    obtain rfl : hub = s.hub := works.hub
    exact ⟨[], _, @Desk.Step.run none _ _ .moveClock, nofun, works.withHub _⟩

/-- An operator takes an event that is due, and waits for its broadcast. -/
theorem WorksAt.sends {hub : Hub} {e : Event} {tally : Tally} (works : s.WorksAt (.looking n) others d)
    (taken : s.hub.takeDue = (some e, hub))
    (sends : (broadcast fuel e.message).run (s.withHub hub) = some (tally, t)) :
    ∃ more after, d.Run (more ++ [.taken e s.hub.clock]) after ∧ (∀ x ∈ more, x.IsOfService) ∧
      t.WorksAt (.looking (n + 1)) others after := by
  obtain ⟨h, senders⟩ := d
  obtain ⟨rfl, k, own, guest, driver, guests, rfl⟩ := works
  have takes (own : List Sender) : (Desk.mk s.hub (own ++ ⟨n, .looking⟩ :: others)).Run [.taken e s.hub.clock]
      ⟨hub, own ++ ⟨n, .taken e⟩ :: others⟩ := Desk.Step.run (.work (.take taken))
  cases alone : (s.withHub hub).isAlone with
  | true =>
    rw [broadcast_alone alone] at sends
    cases sends
    obtain ⟨rfl, away⟩ := guests.looking
    obtain ⟨telling, evicted, broadcasts, only⟩ := Desk.broadcast_run n e hub own others
    refine ⟨_, _, (takes own).trans broadcasts, fun x member => ?_,
      ⟨rfl, k, own, [⟨n + 1, .looking⟩], driver, away.absent.2 (n + 1), rfl⟩⟩
    simp only [List.mem_append, List.mem_cons, List.not_mem_nil, or_false] at member
    rcases member with rfl | told | rfl
    · exact ⟨.conclude, trivial⟩
    · exact (only x told).isOfPass.isOfService
    · exact ⟨.begin, trivial⟩
  | false =>
    rw [broadcast_busy alone] at sends
    obtain ⟨last, waits, answers⟩ := Option.bind_eq_some_iff.mp sends
    obtain ⟨_, answered, same⟩ := Option.map_eq_some_iff.mp answers
    cases same
    let asking : Service := { s.withHub hub with answer := none, turns := s.turns.ask hub ⟨.operator, e.message⟩ }
    -- The broadcast that he has asked for may have begun at once.
    have asks : ∃ early middle, (Desk.mk s.hub (own ++ (guest ++ others))).Run (early ++ [.taken e s.hub.clock])
        middle ∧ (∀ x ∈ early, x.IsOfService) ∧ asking.WorksAt (.sending n) others middle := by
      have keeps := driver.asked ⟨.operator, e.message⟩ nofun hub
      obtain ⟨rfl, waiting | telling⟩ := guests.asks hub e
      · exact ⟨[], _, takes own, nofun, rfl, k, own, _, keeps, waiting, rfl⟩
      · have begins := (takes own).next (.work .begin)
        refine ⟨[_], _, begins, fun x member => ?_, rfl, k, own, _, keeps, telling, rfl⟩
        rw [List.mem_singleton.mp member]
        exact ⟨.begin, trivial⟩
    obtain ⟨early, middle, begins, kinds, works⟩ := asks
    obtain ⟨late, after, goesOn, others, works⟩ := (awaits_course n).runUntil waits _ middle works
    have free : t.awaited n = .looking (n + 1) := if_pos (Option.isSome_of_mem answered)
    rw [free] at works
    refine ⟨late ++ early, after, ?_, fun x member => (List.mem_append.mp member).elim (others x) (kinds x), works⟩
    rw [List.append_assoc]
    exact begins.trans goesOn

/-- An operator sends what is due: he takes one event after the other until none is due, and waits for the
broadcast of each. These are the events. -/
inductive SendsOff (fuel : Nat) : Service → List Event → Service → Prop
  | rest {s hub} : s.hub.takeDue = (none, hub) → SendsOff fuel s [] (s.withHub hub)
  | send {s hub e tally told sent t} : s.hub.takeDue = (some e, hub) →
      (broadcast fuel e.message).run (s.withHub hub) = some (tally, told) → SendsOff fuel told sent t →
      SendsOff fuel s (e :: sent) t

theorem sendsOff_of_alone {after : Hub} {fired : List (Nat × Event)} (sends : s.hub.Sends fired after)
    (alone : s.isAlone = true) : SendsOff fuel s (fired.map (·.2)) (s.withHub after) := by
  generalize start : s.hub = h at sends
  induction sends generalizing s with
  | rest rested => exact .rest (start ▸ rested)
  | @send h e rest _ _ taken _ ih =>
    let told : Service := s.withHub (rest.broadcast e.message).2
    have tells : (broadcast fuel e.message).run (s.withHub rest) = some ((rest.broadcast e.message).1, told) :=
      @broadcast_alone fuel (s.withHub rest) alone e.message
    exact .send (start ▸ taken) tells (@ih told alone rfl)

theorem sendsOff_inTurns (sends : (sendInTurns fuel count).run s = some (n, t)) :
    ∃ sent, SendsOff fuel s sent t ∧ n = sent.length := by
  induction count generalizing s n with
  | zero => cases sends
  | succ count ih =>
    rcases taken : s.hub.takeDue with ⟨_ | e, hub⟩
    · rw [sendInTurns_rests taken] at sends
      cases sends
      exact ⟨[], .rest taken, rfl⟩
    · rw [sendInTurns_sends taken] at sends
      obtain ⟨⟨tally, told⟩, first, rest⟩ := Option.bind_eq_some_iff.mp sends
      obtain ⟨⟨others, _⟩, later, same⟩ := Option.map_eq_some_iff.mp rest
      cases same
      obtain ⟨sent, goesOn, rfl⟩ := ih later
      exact ⟨e :: sent, .send taken first goesOn, rfl⟩

/-- The result of a pass is the number of the events that were sent in it. -/
theorem sendDue_sendsOff (sends : (sendDue fuel).run s = some (count, t)) :
    ∃ sent, SendsOff fuel s sent t ∧ count = sent.length := by
  rw [sendDue_run] at sends
  split at sends
  · rename_i alone
    obtain ⟨⟨_, hub⟩, passes, same⟩ := Option.map_eq_some_iff.mp sends
    cases same
    obtain ⟨fired, pass, rfl⟩ := Hub.sendDue_iff.mp ⟨fuel, passes⟩
    exact ⟨_, sendsOff_of_alone pass alone, (List.length_map _).symm⟩
  · exact sendsOff_inTurns sends

variable {sent : List Event}

/-- An operator sends what is due from the desk, and returns. -/
theorem SendsOff.run (off : SendsOff fuel s sent t) (works : s.WorksAt (.looking n) others d) :
    ∃ more after, d.Run (.returned (n + sent.length) :: more) after ∧ (∀ x ∈ more, x.IsOfService) ∧
      (sent.map Event.id).Sublist (more.filterMap Notice.taken?).reverse ∧ t.WorksAt .away others after := by
  induction off generalizing n d with
  | @rest s hub rested =>
    obtain ⟨h, senders⟩ := d
    obtain ⟨rfl, k, own, guest, driver, guests, rfl⟩ := works
    obtain ⟨rfl, away⟩ := guests.looking
    have leaves : (Desk.mk s.hub (own ++ ([⟨n, .looking⟩] ++ others))).Run [.returned n] ⟨hub, own ++ others⟩ :=
      Desk.Step.run (.leave rested)
    exact ⟨[], _, leaves, nofun, .slnil, rfl, k, own, [], driver, away, rfl⟩
  | @send s hub e tally told sent t taken sends _ ih =>
    obtain ⟨early, middle, first, kinds, works⟩ := works.sends taken sends
    obtain ⟨late, after, rest, others, listed, works⟩ := ih works
    have whole := first.trans rest
    rw [Nat.add_assoc, Nat.add_comm 1, List.cons_append] at whole
    refine ⟨late ++ (early ++ [.taken e s.hub.clock]), after, whole, fun x member => ?_, ?_, works⟩
    · simp only [List.mem_append, List.mem_singleton] at member
      rcases member with later | earlier | rfl
      · exact others x later
      · exact kinds x earlier
      · exact ⟨.look, trivial⟩
    · have first : (e.id :: sent.map Event.id).Sublist
          (((early ++ [Notice.taken e s.hub.clock]).filterMap Notice.taken?).reverse ++
            (late.filterMap Notice.taken?).reverse) := by
        simpa [List.filterMap_append] using List.sublist_append_of_sublist_right listed
      simpa [List.filterMap_append] using first

/-- An operator comes to the desk to send what is due. -/
theorem WorksAt.calls (works : s.WorksAt .away others d) :
    ∃ after, d.Run [] after ∧ s.WorksAt (.looking 0) others after := by
  obtain ⟨h, senders⟩ := d
  obtain ⟨rfl, k, own, guest, driver, guests, rfl⟩ := works
  obtain ⟨rfl, looking⟩ := guests.absent
  exact ⟨_, @Desk.Step.run none _ _ .call, rfl, k, own, [{}], driver, looking 0, rfl⟩

end Service

namespace Desk

/-- Events are scheduled and cancelled, and sent by anybody who comes for them, in whatever order. Then every
event that was scheduled is to come, or was taken to be broadcast once, or was cancelled before that. The
timeline and those who send keep the right account, and the journal shows who was told. The run may go on
with a pass that nobody disturbs: it sends all that it takes, which is as many events as it returns, and
nothing else is noticed of it. A service in which nobody sends may come there, and others may go on meanwhile.
With what the service does by itself the run goes on, and nothing is noticed but what its action shows. An
operator who lets it send what is due takes as many events as he returns. -/
theorem every_event_has_one_fate {h : Hub} (run : (fresh h).Run past d) :
    d.Fates h past ∧
      (∀ fuel count rest, d.hub.sendDue fuel = some (count, rest) →
        ∃ pass, d.Run (.returned count :: pass) ⟨rest, d.senders⟩ ∧
          (∀ x ∈ pass, x.IsOfPass) ∧ pass.filterMap Notice.ended? = pass.filterMap Notice.taken? ∧
          (pass.filterMap Notice.taken?).length = count ∧
          (Desk.mk rest d.senders).Fates h (.returned count :: pass ++ past)) ∧
      (∀ s : Service, s.hub = d.hub → s.turns = {} → s.driver ≠ some .sending →
        ∃ after, d.Run [] after ∧ s.WorksAt .away d.senders after ∧ after.Fates h past) ∧
      (∀ (s : Service) operator others new hub, s.WorksAt operator others d → d.Step new ⟨hub, d.senders⟩ →
        (s.withHub hub).WorksAt operator others ⟨hub, d.senders⟩ ∧
          (Desk.mk hub d.senders).Fates h (new.toList ++ past)) ∧
      (∀ (s next : Service) operator others action, s.WorksAt operator others d → s.step? action = some next →
        ∃ more after duty, d.Run more after ∧ (∀ x ∈ more, action.Shows x) ∧ next.WorksAt duty others after ∧
          (duty = operator ∧ next.answer = s.answer ∨ duty = operator.resume ∧ next.answer.isSome = true) ∧
          after.Fates h (more ++ past)) ∧
      ∀ (s t : Service) others fuel count, s.WorksAt .away others d →
        (Service.sendDue fuel).run s = some (count, t) →
        ∃ sent more after, Service.SendsOff fuel s sent t ∧ sent.length = count ∧
          d.Run (.returned count :: more) after ∧ (∀ x ∈ more, x.IsOfService) ∧
          (sent.map Event.id).Sublist (more.filterMap Notice.taken?).reverse ∧
          t.WorksAt .away others after ∧ after.Fates h (.returned count :: more ++ past) := by
  refine ⟨run.fates, fun fuel count rest sends => ?_, fun s same idle free => ?_,
    fun s operator others new hub works step => ⟨works.withHub hub, (run.next step).fates⟩,
    fun s next operator others action works steps => ?_, fun s t others fuel count works sends => ?_⟩
  · obtain ⟨pass, later, kinds, same, counted⟩ := sendDue_run 0 d.hub [] d.senders sends
    have called := (Step.run (@Step.call d.hub [] d.senders)).trans later
    rw [Nat.zero_add, Option.toList_none, List.append_nil] at called
    exact ⟨pass, called, kinds, same, counted, (run.trans called).fates⟩
  · obtain ⟨hub, senders⟩ := d
    obtain rfl : s.hub = hub := same
    obtain ⟨after, comes, works⟩ := Service.worksAt_idle idle free senders
    exact ⟨after, comes, works, (run.trans comes).fates⟩
  · obtain ⟨more, after, duty, later, shows, works, answers⟩ := works.acts steps
    exact ⟨more, after, duty, later, shows, works, answers, (run.trans later).fates⟩
  · obtain ⟨sent, off, rfl⟩ := Service.sendDue_sendsOff sends
    obtain ⟨called, comes, looks⟩ := works.calls
    obtain ⟨more, after, later, kinds, listed, works⟩ := off.run looks
    have whole := comes.trans later
    rw [Nat.zero_add, List.append_nil] at whole
    exact ⟨sent, more, after, off, rfl, whole, kinds, listed, works, (run.trans whole).fates⟩

/-- One of two events is cancelled, and the pass that sends what is due tells the subscriber of the other one. -/
theorem one_sent_and_one_cancelled :
    let sent : Event := ⟨0, 0, .raw "sent"⟩
    let entry : Entry := ⟨⟨1⟩, 0⟩
    let start : Hub := { subscribers := #[.log], roster := .ofCount 1 }
    let past := [.cancelled 1 true, .posted ⟨0, 1, .raw "cancelled"⟩, .posted sent]
    let pass := [.ended sent [], .told sent entry 0, .began sent [entry], .taken sent 0]
    ∃ hub rest, (fresh start).Run past ⟨hub, []⟩ ∧ hub.sendDue 2 = some (1, rest) ∧
      (fresh start).Run (.returned 1 :: pass ++ past) ⟨rest, []⟩ ∧
      (Desk.mk rest []).Fates start (.returned 1 :: pass ++ past) ∧
      rest.journal.toList = [⟨0, 0, Frame.encode (.raw "sent")⟩] := by
  intro sent entry start past pass
  let hub := (((start.postAt 0 (.raw "sent")).2.postAt 0 (.raw "cancelled")).2.cancel 1).2
  let left := hub.takeDue.2
  let told := (left.give 0 (Frame.encode sent.message)).2
  have posted : (fresh start).Run past ⟨hub, []⟩ := ((Run.start.next .post).next .post).next .cancel
  have called := posted.next (@Step.call _ [] _)
  have took : (fresh start).Run (pass.drop 3 ++ past) ⟨left, [⟨0, .taken sent⟩]⟩ :=
    called.next (@Step.work _ [] _ [] _ _ _ (.take rfl))
  have began : (fresh start).Run (pass.drop 2 ++ past) ⟨left, [⟨0, .telling sent [entry] {}⟩]⟩ :=
    took.next (@Step.work _ [] _ [] _ _ _ .begin)
  have tells : (fresh start).Run (pass.drop 1 ++ past) ⟨told, [⟨0, .telling sent [] { delivered := 1 }⟩]⟩ :=
    began.next (@Step.work _ [] _ [] _ _ _ .tell)
  have ended := tells.next (@Step.work _ [] _ [] _ _ _ .finish)
  have run : (fresh start).Run (.returned 1 :: pass ++ past)
      ⟨{ told with roster := told.roster.evict [] }.takeDue.2, []⟩ :=
    ended.next (@Step.leave _ [] 1 [] _ (Prod.ext rfl rfl))
  have fates := (every_event_has_one_fate run).1
  exact ⟨hub, _, posted, rfl, run, fates, fates.journal⟩

end Desk

end LiveTiming
