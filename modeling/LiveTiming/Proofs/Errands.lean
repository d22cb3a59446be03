import LiveTiming.Proofs.HubAgreement
import LiveTiming.Proofs.PromptTasks

namespace LiveTiming

/-- Something that an operator does at a service, or the reader of a subscriber's queue, or the time
that passes. It passes at once, or everything happens at its own time meanwhile. -/
inductive Errand
  | perform (c : Command)
  | broadcast (m : Message)
  | post (delay : Nat) (m : Message)
  | postAt (time : Nat) (m : Message)
  | cancel (id : EventId)
  | sendDue
  | register (subscriber : Nat)
  | remove (id : SubscriberId)
  | receive (subscriber count : Nat)
  | close (subscriber : Nat)
  | jump (time : Nat)
  | sleep (duration : Nat)

/-- The answer to an errand. That a registration ends is told with whose it was. -/
inductive Reply
  | performed (result : Except Failure Outcome)
  | told (tally : Tally)
  | posted (id : EventId)
  | cancelled (answer : Bool)
  | sent (count : Nat)
  | registered (id : SubscriberId)
  | removed (answer : Bool) (holder : Option Nat)
  | received (subscriber : Nat) (frames : List Bytes)
  | done

/-- What a reply says apart from what it tells of subscribers that are set apart: reports, numbers of
subscribers, their own registrations and queues. -/
def Reply.plain (apart : Nat → Bool) : Reply → Reply
  | .performed result => .performed (result.map Outcome.plain)
  | .told _ => .told {}
  | .removed answer holder => .removed (answer && holder.all (!apart ·)) (holder.filter (!apart ·))
  | .received i frames => .received i (if apart i then [] else frames)
  | reply => reply

def Errand.task (fuel : Nat) : Errand → Service.Task Reply
  | .perform c => .performed <$> Service.perform fuel c
  | .broadcast m => .told <$> Service.broadcast fuel m
  | .post delay m => .posted <$> Service.onHub (·.post delay m)
  | .postAt time m => .posted <$> Service.onHub (·.postAt time m)
  | .cancel id => .cancelled <$> Service.onHub (·.cancel id)
  | .sendDue => .sent <$> Service.sendDue fuel
  | .register subscriber => .registered <$> Service.register fuel subscriber
  | .remove id => do
    let holder := (← get).hub.roster.holder? id
    return .removed (← Service.remove fuel id) holder
  | .receive subscriber count => .received subscriber <$> Service.onHub (·.receive subscriber count)
  | .close subscriber => Service.onHub fun h => (.done, h.closeMailbox subscriber)
  | .jump time => do
    modify (·.moveClock time)
    return .done
  | .sleep duration => do
    let s ← get
    set (← StateT.lift (s.sleepUntil (s.hub.clock + duration) fuel))
    return .done

namespace Service

/-- A service answers an errand, if that is given time enough. -/
def Does (s : Service) (errand : Errand) (reply : Reply) (t : Service) : Prop :=
  ∃ fuel, (errand.task fuel).run s = some (reply, t)

/-- The events that are sent because they are due while an errand is run, with their times. -/
def Fires (s : Service) (errand : Errand) (fired : List (Nat × Event)) (t : Service) : Prop :=
  match errand with
  | .sleep duration => s.Sleeps (s.hub.clock + duration) fired t
  | .sendDue => s.hub.Sends fired t.hub
  | _ => fired = []

/-- A service answers errands in turn. -/
inductive Attends : Service → List Errand → List Reply → List (Nat × Event) → Service → Prop
  | done {s} : Attends s [] [] [] s
  | next {s t u : Service} {errand reply fired later replies others} :
      s.Does errand reply t → s.Fires errand fired t →
      Attends t later replies others u → Attends s (errand :: later) (reply :: replies) (fired ++ others) u

end Service

/-- What an errand does to a hub that nothing else happens at, if it takes no time, sends nothing and
asks for nothing but the hub. -/
def Errand.atOnce? : Errand → Option (Hub → Reply × Hub)
  | .post delay m => some fun h => (.posted (h.post delay m).1, (h.post delay m).2)
  | .postAt time m => some fun h => (.posted (h.postAt time m).1, (h.postAt time m).2)
  | .cancel id => some fun h => (.cancelled (h.cancel id).1, (h.cancel id).2)
  | .register subscriber => some fun h =>
    (.registered h.reserve.1, h.reserve.2.enter h.reserve.1 subscriber)
  | .remove id => some fun h => (.removed (h.remove id).1 (h.roster.holder? id), (h.remove id).2)
  | .receive subscriber count => some fun h =>
    (.received subscriber (h.receive subscriber count).1, (h.receive subscriber count).2)
  | .close subscriber => some fun h => (.done, h.closeMailbox subscriber)
  | .jump time => some fun h => (.done, h.moveClock time)
  | .perform _ | .broadcast _ | .sendDue | .sleep _ => none

/-- What an errand does to a feed that nothing else happens at, if no event is sent meanwhile. -/
def Errand.act? : Errand → Option (Feed → Reply × Feed)
  | .perform c => some fun f => (.performed (f.perform c).1, (f.perform c).2)
  | .broadcast m => some fun f => (.told (f.hub.broadcast m).1, { f with hub := (f.hub.broadcast m).2 })
  | errand => errand.atOnce?.map fun change f => ((change f.hub).1, { f with hub := (change f.hub).2 })

variable {errand : Errand} {reply : Reply}

/-- An errand changes the hub at once, or it is a command, a broadcast, a pass or a sleep. -/
theorem Errand.act_cases {act : Feed → Reply × Feed} (acts : errand.act? = some act) :
    (∃ c, errand = .perform c ∧ act = fun f => (.performed (f.perform c).1, (f.perform c).2)) ∨
    (∃ m, errand = .broadcast m ∧
      act = fun f => (.told (f.hub.broadcast m).1, { f with hub := (f.hub.broadcast m).2 })) ∨
    ∃ change, errand.atOnce? = some change ∧
      act = fun f => ((change f.hub).1, { f with hub := (change f.hub).2 }) := by
  cases errand with
  | perform c =>
    cases acts
    exact Or.inl ⟨c, rfl, rfl⟩
  | broadcast m =>
    cases acts
    exact Or.inr (Or.inl ⟨m, rfl, rfl⟩)
  | sendDue | sleep => cases acts
  | post | postAt | cancel | register | remove | receive | close | jump =>
    cases acts
    exact Or.inr (Or.inr ⟨_, rfl, rfl⟩)

/-- All errands but a pass and a sleep are done at the feed. -/
theorem Errand.act_none (sends : errand.act? = none) :
    errand = .sendDue ∨ ∃ duration, errand = .sleep duration := by
  cases errand with
  | sendDue => exact Or.inl rfl
  | sleep duration => exact Or.inr ⟨duration, rfl⟩
  | perform | broadcast | post | postAt | cancel | register | remove | receive | close | jump => cases sends

section Agreement

variable {apart : Nat → Bool} {alert : Prop} {h k : Hub} {f g : Feed}

namespace Hub

/-- The answer to the end of a registration tells the same in both hubs, unless the registration is of
somebody who is set apart. -/
theorem Agree.removed (agree : h.Agree apart alert k) (id : SubscriberId) :
    (Reply.removed (k.remove id).1 (k.roster.holder? id)).plain apart =
      (Reply.removed (h.remove id).1 (h.roster.holder? id)).plain apart := by
  have plain (r : Roster) : (Reply.removed (r.remove id).1 (r.holder? id)).plain apart =
      .removed ((r.holder? id).filter (!apart ·)).isSome ((r.holder? id).filter (!apart ·)) := by
    rw [Reply.plain, Roster.remove_answer]
    cases r.holder? id with
    | none => rfl
    | some i => cases isApart : apart i <;> simp [Option.filter, isApart]
  calc (Reply.removed (k.roster.remove id).1 (k.roster.holder? id)).plain apart
      = _ := plain k.roster
    _ = _ := by rw [agree.roster.holder id]
    _ = (Reply.removed (h.roster.remove id).1 (h.roster.holder? id)).plain apart := (plain h.roster).symm

/-- What takes no time is answered alike in both hubs, and leaves them in agreement. -/
theorem Agree.at_once (agree : h.Agree apart alert k) {f : Hub → Reply × Hub} (atOnce : errand.atOnce? = some f) :
    (f k).1.plain apart = (f h).1.plain apart ∧ (f h).2.Agree apart alert (f k).2 := by
  cases errand with
  | perform | broadcast | sendDue | sleep => cases atOnce
  | post delay m =>
    cases atOnce
    obtain ⟨number, same⟩ := agree.post delay m
    exact ⟨congrArg Reply.posted number, same⟩
  | postAt time m =>
    cases atOnce
    obtain ⟨number, same⟩ := agree.postAt time m
    exact ⟨congrArg Reply.posted number, same⟩
  | cancel id =>
    cases atOnce
    obtain ⟨answer, same⟩ := agree.cancel id
    exact ⟨congrArg Reply.cancelled answer, same⟩
  | register subscriber =>
    cases atOnce
    obtain ⟨number, same⟩ := agree.register subscriber
    exact ⟨congrArg Reply.registered number, same⟩
  | remove id =>
    cases atOnce
    exact ⟨agree.removed id, agree.remove id⟩
  | receive i count =>
    cases atOnce
    obtain ⟨frames, same⟩ := agree.receive i count
    refine ⟨?_, same⟩
    cases isApart : apart i with
    | true => simp [Reply.plain, isApart]
    | false => simp [Reply.plain, isApart, frames isApart]
  | close i =>
    cases atOnce
    exact ⟨rfl, agree.closeMailbox i⟩
  | jump time =>
    cases atOnce
    exact ⟨rfl, agree.moveClock time⟩

end Hub

theorem Feed.Agree.withHub (agree : f.Agree apart alert g) (same : h.Agree apart alert k) :
    ({ f with hub := h } : Feed).Agree apart alert { g with hub := k } := by
  refine ⟨?_, same⟩
  rw [agree.rest]

/-- An errand at two feeds that agree has the same reply, and leaves them in agreement. -/
theorem Feed.Agree.act (agree : f.Agree apart alert g) {act : Feed → Reply × Feed}
    (acts : errand.act? = some act) :
    (act g).1.plain apart = (act f).1.plain apart ∧ (act f).2.Agree apart alert (act g).2 := by
  rcases Errand.act_cases acts with ⟨c, rfl, rfl⟩ | ⟨m, rfl, rfl⟩ | ⟨change, atOnce, rfl⟩
  · obtain ⟨answer, same⟩ := agree.perform c
    exact ⟨congrArg Reply.performed answer, same⟩
  · exact ⟨rfl, agree.withHub (agree.hub.broadcast m)⟩
  · obtain ⟨answer, same⟩ := agree.hub.at_once atOnce
    exact ⟨answer, agree.withHub same⟩

end Agreement

namespace Service

variable {s t : Service} {fuel : Nat} {fired : List (Nat × Event)}

/-- An errand that is done at the feed fires nothing. -/
theorem fires_act {act : Feed → Reply × Feed} (acts : errand.act? = some act) :
    s.Fires errand fired t ↔ fired = [] := by
  cases errand with
  | sendDue | sleep => cases acts
  | perform | broadcast | post | postAt | cancel | register | remove | receive | close | jump => rfl

/-- What is done at the hub at once is done without waiting at a service without a broadcast. -/
theorem does_at_once (idle : s.turns = {}) {change : Hub → Reply × Hub}
    (atOnce : errand.atOnce? = some change) :
    s.Does errand reply t ↔ reply = (change s.hub).1 ∧ t = s.withHub (change s.hub).2 := by
  have runs : ∀ fuel, (errand.task fuel).run s = some ((change s.hub).1, s.withHub (change s.hub).2) ∨
      fuel = 0 ∧ (errand.task fuel).run s = none := by
    intro fuel
    cases errand with
    | perform | broadcast | sendDue | sleep => cases atOnce
    | post | postAt | cancel | receive | close | jump =>
      cases atOnce
      exact Or.inl rfl
    | register subscriber =>
      cases atOnce
      cases fuel <;> simp [Errand.task, register_run idle]
    | remove id =>
      cases atOnce
      cases fuel <;> simp [Errand.task, remove_run idle]
  constructor
  · rintro ⟨fuel, does⟩
    rcases runs fuel with same | ⟨_, none⟩
    · rw [same] at does
      cases does
      exact ⟨rfl, rfl⟩
    · rw [none] at does
      cases does
  · rintro ⟨rfl, rfl⟩
    exact ⟨1, (runs 1).resolve_right (by simp)⟩

theorem does_map {α : Type} {task : Nat → Task α} {wrap : α → Reply}
    (same : ∀ fuel, errand.task fuel = wrap <$> task fuel) :
    s.Does errand reply t ↔ ∃ fuel a, (task fuel).run s = some (a, t) ∧ reply = wrap a := by
  unfold Does
  simp only [same, StateT.run_map, Option.map_eq_map, Option.map_eq_some_iff, Prod.mk.injEq, Prod.exists]
  constructor
  · rintro ⟨fuel, a, _, runs, rfl, rfl⟩
    exact ⟨fuel, a, runs, rfl⟩
  · rintro ⟨fuel, a, runs, rfl⟩
    exact ⟨fuel, a, t, runs, rfl, rfl⟩

theorem does_perform {c : Command} : s.Does (.perform c) reply t ↔
    ∃ fuel result, (perform fuel c).run s = some (result, t) ∧ reply = .performed result :=
  does_map fun _ => rfl

theorem does_broadcast {m : Message} : s.Does (.broadcast m) reply t ↔
    ∃ fuel tally, (broadcast fuel m).run s = some (tally, t) ∧ reply = .told tally :=
  does_map fun _ => rfl

theorem does_sendDue : s.Does .sendDue reply t ↔
    ∃ fuel n, (sendDue fuel).run s = some (n, t) ∧ reply = .sent n :=
  does_map fun _ => rfl

theorem does_sleep {duration : Nat} : s.Does (.sleep duration) reply t ↔
    reply = .done ∧ ∃ fuel, s.sleepUntil (s.hub.clock + duration) fuel = some t := by
  have runs : ∀ fuel, (Errand.task fuel (.sleep duration)).run s =
      (s.sleepUntil (s.hub.clock + duration) fuel).map fun t => (.done, t) := by
    intro fuel
    unfold Errand.task
    simp only [StateT.run_bind, StateT.run_get, Option.pure_def, Option.bind_eq_bind, Option.bind_some]
    cases sleeps : s.sleepUntil (s.hub.clock + duration) fuel <;> simp
  unfold Does
  simp only [runs, Option.map_eq_some_iff, Prod.mk.injEq]
  constructor
  · rintro ⟨fuel, _, sleeps, rfl, rfl⟩
    exact ⟨rfl, fuel, sleeps⟩
  · rintro ⟨rfl, fuel, sleeps⟩
    exact ⟨fuel, t, sleeps, rfl, rfl⟩

/-- It leaves the hub prompt and sound. -/
theorem at_once_keeps {h : Hub} {change : Hub → Reply × Hub} (atOnce : errand.atOnce? = some change)
    (prompt : h.Prompt) (sound : h.timeline.Sound) : (change h).2.Prompt ∧ (change h).2.timeline.Sound := by
  cases errand with
  | perform | broadcast | sendDue | sleep => cases atOnce
  | post | postAt =>
    cases atOnce
    exact ⟨prompt, Timeline.insert_sound sound _ _⟩
  | cancel =>
    cases atOnce
    exact ⟨prompt, Timeline.cancel_sound sound _⟩
  | register | remove | jump =>
    cases atOnce
    exact ⟨prompt, sound⟩
  | receive i count =>
    cases atOnce
    dsimp only
    rw [Hub.receive_adjusts, Hub.adjust_timeline]
    exact ⟨prompt.adjust i _, sound⟩
  | close i =>
    cases atOnce
    dsimp only
    rw [Hub.closeMailbox_adjusts, Hub.adjust_timeline]
    exact ⟨prompt.adjust i _, sound⟩

/-- While a service is quiet an errand that sends no event does nothing but what it does to the feed. -/
theorem Quiet.acts (quiet : s.Quiet) {act : Feed → Reply × Feed} (acts : errand.act? = some act)
    (does : s.Does errand reply t) : reply = (act s.feed).1 ∧ s.Becomes (act s.feed).2 t ∧ t.Quiet := by
  rcases Errand.act_cases acts with ⟨c, rfl, rfl⟩ | ⟨m, rfl, rfl⟩ | ⟨change, atOnce, rfl⟩
  · obtain ⟨fuel, result, performed, rfl⟩ := does_perform.mp does
    obtain ⟨rfl, becomes⟩ := quiet.performs performed
    have after := quiet.after_perform c
    exact ⟨rfl, becomes, quiet.becomes after.prompt after.sound becomes⟩
  · obtain ⟨fuel, tally, sends, rfl⟩ := does_broadcast.mp does
    obtain ⟨rfl, same⟩ := quiet.broadcast_iff.mp ⟨fuel, sends⟩
    have told := quiet.broadcast m
    exact ⟨rfl, ⟨_, same⟩, quiet.becomes told.prompt told.sound ⟨_, same⟩⟩
  · obtain ⟨rfl, same⟩ := (does_at_once quiet.idle atOnce).mp does
    obtain ⟨prompt, sound⟩ := at_once_keeps atOnce quiet.prompt quiet.sound
    exact ⟨rfl, ⟨_, same⟩, same ▸ quiet.withHub prompt sound⟩

/-- Every errand that is done at the feed comes to its reply. -/
theorem Quiet.act_ends (quiet : s.Quiet) {act : Feed → Reply × Feed} (acts : errand.act? = some act) :
    ∃ t, s.Does errand (act s.feed).1 t := by
  rcases Errand.act_cases acts with ⟨c, rfl, rfl⟩ | ⟨m, rfl, rfl⟩ | ⟨change, atOnce, rfl⟩
  · obtain ⟨fuel, t, performed⟩ := quiet.perform_ends c
    exact ⟨t, does_perform.mpr ⟨fuel, _, performed, rfl⟩⟩
  · obtain ⟨fuel, t, sends, _⟩ := quiet.broadcast_ends m
    exact ⟨t, does_broadcast.mpr ⟨fuel, _, sends, rfl⟩⟩
  · exact ⟨_, (does_at_once quiet.idle atOnce).mpr ⟨rfl, rfl⟩⟩

/-- A quiet service is quiet after every errand. -/
theorem Quiet.does (quiet : s.Quiet) (does : s.Does errand reply t) : t.Quiet := by
  cases acts : errand.act? with
  | some act => exact (quiet.acts acts does).2.2
  | none =>
    rcases Errand.act_none acts with rfl | ⟨duration, rfl⟩
    · obtain ⟨fuel, n, sends, _⟩ := does_sendDue.mp does
      obtain ⟨fired, hub, pass, _, becomes⟩ := quiet.sendDue_does sends
      obtain ⟨prompt, sound⟩ := pass.prompt_sound quiet.prompt quiet.sound
      exact quiet.becomes prompt sound becomes
    · obtain ⟨_, sleeps⟩ := does_sleep.mp does
      obtain ⟨fired, strides⟩ := quiet.sleeps_iff.mp sleeps
      exact strides.quiet quiet

end Service

end LiveTiming
