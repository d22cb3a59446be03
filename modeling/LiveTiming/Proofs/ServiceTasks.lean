import LiveTiming.Proofs.Errands
import LiveTiming.Proofs.ServiceRun
import LiveTiming.Service.Task

namespace LiveTiming

namespace Service

/-- Whatever comes of a task, the relation holds between the services before and after it. -/
def Follows {α : Type} (R : Service → Service → Prop) (task : Task α) : Prop :=
  ∀ s a after, task.run s = some (a, after) → R s after

/-- A relation that holds along a course of a service, and whatever sends messages there. -/
structure Routine (R : Service → Service → Prop) : Prop extends Course R where
  ask : ∀ s call answer, R s { s with answer, turns := s.turns.ask s.hub call }
  takeDue : ∀ s, R s (s.withHub s.hub.takeDue.2)
  /-- A message that nobody comes between. -/
  tell : ∀ {s}, s.isAlone = true → ∀ m, R s (s.withHub (s.hub.broadcast m).2)

/-- A relation that holds along a course of a service, and whatever is done there, but for commands and for
events that are scheduled for a point in time. -/
structure Upkeep (R : Service → Service → Prop) : Prop extends Routine R where
  post : ∀ s delay m, R s (s.withHub (s.hub.post delay m).2)
  cancel : ∀ s id, R s (s.withHub (s.hub.cancel id).2)
  aside : ∀ s {hub : Hub}, hub.timeline = s.hub.timeline → hub.clock = s.hub.clock → R s (s.withHub hub)
  connections : ∀ s connections, R s { s with connections }

variable {R : Service → Service → Prop} {s last : Service} {fuel : Nat}

theorem onFreeHub_run {α : Type} {f : Turns → Hub → Option (α × Hub)} {a : α}
    (done : (onFreeHub fuel f).run s = some (a, last)) : ∃ middle hub,
      s.runUntil (fun s => (f s.turns s.hub).isSome) fuel = some middle ∧
      f middle.turns middle.hub = some (a, hub) ∧ last = middle.withHub hub := by
  unfold onFreeHub at done
  simp only [StateT.run_bind, StateT.run_get, Option.pure_def, Option.bind_eq_bind, Option.bind_some] at done
  obtain ⟨⟨middle, _⟩, waits, rest⟩ := Option.bind_eq_some_iff.mp done
  obtain ⟨reached, runs, same⟩ := Option.bind_eq_some_iff.mp waits
  cases same
  obtain ⟨⟨⟨b, hub⟩, _⟩, changes, rest⟩ := Option.bind_eq_some_iff.mp rest
  obtain ⟨_, changed, same⟩ := Option.bind_eq_some_iff.mp changes
  cases same
  cases rest
  exact ⟨middle, hub, runs, changed, rfl⟩

namespace Course

variable {α β : Type}

theorem pure (course : Course R) (a : α) : Follows R (Pure.pure a) := by
  rintro s _ _ ⟨⟩
  exact course.refl s

/-- Tasks that follow a relation follow it one after the other. -/
theorem bind (course : Course R) {task : Task α} {rest : α → Task β} (first : Follows R task)
    (second : ∀ a, Follows R (rest a)) : Follows R (task >>= rest) := by
  intro s b after done
  rw [StateT.run_bind] at done
  obtain ⟨⟨a, middle⟩, start, final⟩ := Option.bind_eq_some_iff.mp done
  exact course.trans (first _ _ _ start) (second a _ _ _ final)

theorem get (course : Course R) : Follows R (MonadState.get : Task Service) := by
  rintro s _ _ ⟨⟩
  exact course.refl s

theorem map (course : Course R) {task : Task α} {f : α → β} (follows : Follows R task) :
    Follows R (f <$> task) :=
  course.bind follows fun a => course.pure (f a)

theorem replyTo (course : Course R) (performs : ∀ c, Follows R (perform fuel c)) (line : String) :
    Follows R (Console.replyTo (perform fuel) line) := by
  unfold Console.replyTo
  split
  · exact course.pure _
  · exact course.map (performs _)
  · exact course.pure _

/-- A session on a console. -/
theorem converse (course : Course R) (performs : ∀ c, Follows R (perform fuel c)) (prompt : String)
    (inputs : List Console.Input) (out : Console.Output) :
    Follows R (Console.converse (perform fuel) prompt inputs out) := by
  induction inputs generalizing out with
  | nil => exact course.pure out
  | cons input later ih =>
    cases input with
    | broken => exact course.pure out
    | tooLong =>
      unfold Console.converse
      split
      · exact course.pure out
      · split
        · exact course.pure _
        · exact ih _
    | line line =>
      unfold Console.converse
      split
      · exact course.pure out
      · refine course.bind (course.replyTo performs line) fun reply => ?_
        · split
          · exact course.pure _
          · split
            · exact course.pure _
            · split
              · exact course.pure _
              · exact ih _

/-- A console follows any relation that each of its commands follows. -/
theorem console (course : Course R) (performs : ∀ c, Follows R (perform fuel c))
    (inputs : List Console.Input) (out : Console.Output) : Follows R (console fuel inputs out) := by
  unfold Service.console Console.session
  refine course.bind course.get fun s => ?_
  split
  · exact course.pure out
  · exact course.converse performs _ inputs _

/-- A task that asks for the hub when the broadcasts allow it. -/
theorem onFreeHub (course : Course R) {f : Turns → Hub → Option (α × Hub)}
    (changes : ∀ {s a hub}, f s.turns s.hub = some (a, hub) → R s (s.withHub hub)) :
    Follows R (onFreeHub fuel f) := by
  intro s a last done
  obtain ⟨middle, hub, waits, changed, rfl⟩ := onFreeHub_run done
  exact course.trans (course.runUntil waits) (changes changed)

end Course

namespace Routine

/-- A broadcast follows what its visits follow. -/
theorem broadcast (routine : Routine R) (fuel : Nat) (m : Message) : Follows R (broadcast fuel m) := by
  intro s tally last sends
  cases alone : s.isAlone with
  | true =>
    rw [broadcast_alone alone] at sends
    cases sends
    exact routine.tell alone m
  | false =>
    rw [broadcast_busy alone] at sends
    obtain ⟨after, runs, answers⟩ := Option.bind_eq_some_iff.mp sends
    obtain ⟨_, _, same⟩ := Option.map_eq_some_iff.mp answers
    cases same
    exact routine.trans (routine.ask s _ none) (routine.toCourse.runUntil runs)

/-- Nobody waits for the answer to such a broadcast. -/
theorem askFor (routine : Routine R) (m : Message) : Follows R (askFor m) := by
  rintro s _ _ ⟨⟩
  exact routine.ask s _ s.answer

/-- A command, if the relation holds for what is done up to the sending of a message. -/
theorem perform (routine : Routine R) (reacts : ∀ s c, R s { s with feed := (s.feed.react c).2 }) (fuel : Nat)
    (c : Command) : Follows R (perform fuel c) := by
  refine routine.toCourse.bind (fun s a last done => ?_) fun reaction => ?_
  · cases done
    exact reacts s c
  · cases reaction with
    | answer result => exact routine.toCourse.pure _
    | send m => exact routine.toCourse.bind (routine.broadcast fuel m) fun tally => routine.toCourse.pure _

/-- Due events sent in turn follow what their broadcasts follow. -/
theorem sendInTurns (routine : Routine R) (fuel count : Nat) : Follows R (sendInTurns fuel count) := by
  induction count with
  | zero =>
    rintro s _ _ ⟨⟩
  | succ count ih =>
    intro s n last sends
    have taking := routine.takeDue s
    rcases taken : s.hub.takeDue with ⟨_ | e, after⟩ <;> rw [taken] at taking
    · rw [sendInTurns_rests taken] at sends
      cases sends
      exact taking
    · rw [sendInTurns_sends taken] at sends
      obtain ⟨⟨_, told⟩, tells, rest⟩ := Option.bind_eq_some_iff.mp sends
      obtain ⟨⟨_, _⟩, goesOn, same⟩ := Option.map_eq_some_iff.mp rest
      cases same
      exact routine.trans (routine.trans taking (routine.broadcast fuel e.message _ _ _ tells)) (ih _ _ _ goesOn)

/-- The pass of a service that nothing else happens in. -/
theorem sends (routine : Routine R) {h after : Hub} {fired : List (Nat × Event)} (sends : h.Sends fired after)
    (alone : s.isAlone = true) (same : s.hub = h) : R s (s.withHub after) := by
  induction sends generalizing s with
  | rest taken =>
    have taking := routine.takeDue s
    rwa [same, taken] at taking
  | @send _ e rest _ _ taken _ ih =>
    have taking := routine.takeDue s
    rw [same, taken] at taking
    have told := @Routine.tell R routine (s.withHub rest) alone e.message
    exact routine.trans (routine.trans taking told) (@ih (s.withHub (rest.broadcast e.message).2) alone rfl)

theorem sendDue (routine : Routine R) (fuel : Nat) : Follows R (sendDue fuel) := by
  intro s n last done
  rw [sendDue_run] at done
  split at done
  · rename_i alone
    obtain ⟨⟨_, hub⟩, passes, same⟩ := Option.map_eq_some_iff.mp done
    cases same
    obtain ⟨fired, pass, _⟩ := Hub.sendDue_iff.mp ⟨fuel, passes⟩
    exact routine.sends pass alone rfl
  · exact routine.sendInTurns fuel fuel s n last done

end Routine

namespace Upkeep

theorem onHub (upkeep : Upkeep R) {α : Type} {f : Hub → α × Hub}
    (asides : ∀ h, (f h).2.timeline = h.timeline ∧ (f h).2.clock = h.clock) : Follows R (onHub f) := by
  rintro s _ _ ⟨⟩
  exact upkeep.aside s (asides s.hub).1 (asides s.hub).2

theorem register (upkeep : Upkeep R) (fuel subscriber : Nat) : Follows R (register fuel subscriber) := by
  refine upkeep.toCourse.bind (upkeep.onHub fun _ => ⟨rfl, rfl⟩) fun id =>
    upkeep.toCourse.bind (upkeep.toCourse.onFreeHub fun enters => ?_) fun _ => upkeep.toCourse.pure id
  obtain ⟨_, entered, same⟩ := Option.map_eq_some_iff.mp enters
  cases same
  unfold Turns.enter? at entered
  split at entered <;> cases entered
  exact upkeep.aside _ rfl rfl

theorem remove (upkeep : Upkeep R) (fuel : Nat) (id : SubscriberId) : Follows R (remove fuel id) := by
  refine upkeep.toCourse.onFreeHub fun removes => ?_
  unfold Turns.remove? at removes
  split at removes <;> cases removes
  exact upkeep.aside _ rfl rfl

theorem onConnection (upkeep : Upkeep R) (index : Nat) (f : Connection → Connection) :
    Follows R (onConnection index f) := by
  rintro s _ _ ⟨⟩
  exact upkeep.connections s _

theorem connect (upkeep : Upkeep R) (fuel : Nat) (name : String) : Follows R (connect fuel name) := by
  refine upkeep.toCourse.bind upkeep.toCourse.get fun _ =>
    upkeep.toCourse.bind (upkeep.onHub fun _ => ⟨rfl, rfl⟩) fun mailbox =>
      upkeep.toCourse.bind (upkeep.register fuel mailbox) fun id => ?_
  rintro s _ _ ⟨⟩
  exact upkeep.connections s _

/-- What an operator does at a service, or the reader of a queue, or its time. -/
theorem does (upkeep : Upkeep R) {errand : Errand} {reply : Reply} (does : s.Does errand reply last)
    (performs : ∀ c, errand = .perform c → ∀ fuel, Follows R (perform fuel c))
    (places : ∀ time m, errand = .postAt time m → R s (s.withHub (s.hub.postAt time m).2)) : R s last := by
  obtain ⟨fuel, done⟩ := does
  have mapped {α : Type} {task : Task α} {wrap : α → Reply} (follows : Follows R task)
      (done : (wrap <$> task).run s = some (reply, last)) : R s last := upkeep.toCourse.map follows _ _ _ done
  cases errand with
  | perform c => exact mapped (performs c rfl fuel) done
  | broadcast m => exact mapped (upkeep.broadcast fuel m) done
  | sendDue => exact mapped (upkeep.sendDue fuel) done
  | register subscriber => exact mapped (upkeep.register fuel subscriber) done
  | remove id =>
    refine upkeep.toCourse.bind upkeep.toCourse.get (fun _ => ?_) _ _ _ done
    exact upkeep.toCourse.bind (upkeep.remove fuel id) fun _ => upkeep.toCourse.pure _
  | post delay m =>
    cases done
    exact upkeep.post s delay m
  | postAt time m =>
    cases done
    exact places time m rfl
  | cancel id =>
    cases done
    exact upkeep.cancel s id
  | receive subscriber count =>
    obtain ⟨same, clock⟩ := Hub.receive_aside s.hub subscriber count
    cases done
    exact upkeep.aside s same clock
  | close subscriber =>
    obtain ⟨same, clock⟩ := Hub.closeMailbox_aside s.hub subscriber
    cases done
    exact upkeep.aside s same clock
  | jump time =>
    cases done
    exact upkeep.clock s time
  | sleep duration =>
    obtain ⟨_, fuel, sleeps⟩ := does_sleep.mp ⟨fuel, done⟩
    exact upkeep.toCourse.sleepUntil sleeps

end Upkeep

end Service

end LiveTiming
