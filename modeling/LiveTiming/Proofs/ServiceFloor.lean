import LiveTiming.Proofs.Errands
import LiveTiming.Proofs.QueueMoves
import LiveTiming.Proofs.ServiceTasks

namespace LiveTiming

/-- Some steps lead from some broadcasts and a hub to others, whatever numbers are still to
be registered under, seen from the queue of the subscriber with index `i`. -/
def Floor.Shifts (i : Nat) (t : Turns) (h : Hub) (u : Turns) (after : Hub) : Prop :=
  ∀ joining, ∃ past, (Floor.mk t h joining).Moves i past ⟨u, after, joining⟩

/-- Some steps of others than the reader of that queue lead there. -/
def Floor.Drifts (i : Nat) (t : Turns) (h : Hub) (u : Turns) (after : Hub) : Prop :=
  ∀ joining, ∃ past, (Floor.mk t h joining).Moves i past ⟨u, after, joining⟩ ∧ ∀ x ∈ past, x.IsForeign i

/-- Some steps lead from one service to another, seen from the queue of the subscriber with index `i`. -/
def Service.Shifts (i : Nat) (s after : Service) : Prop :=
  Floor.Shifts i s.turns s.hub after.turns after.hub

/-- Others than the reader of the queue of the subscriber with index `i` lead from one service to another,
and no connection does. A service that was told to stop still is. -/
structure Service.Drifts (i : Nat) (s after : Service) : Prop where
  floor : Floor.Drifts i s.turns s.hub after.turns after.hub
  connections : after.connections = s.connections
  stopping : s.feed.stopping = true → after.feed.stopping = true

/-- A relation between services that holds along a course of one, and whatever others do at it. -/
structure Service.Habit (i : Nat) (R : Service → Service → Prop) : Prop where
  course : Course R
  drift : ∀ {s t}, s.Drifts i t → R s t

variable {i : Nat} {t u v : Turns} {h after final : Hub} {s next last : Service} {f : Feed}

namespace Floor

theorem Shifts.refl (t : Turns) (h : Hub) : Shifts i t h t h :=
  fun _ => ⟨[], .start⟩

theorem Shifts.trans (first : Shifts i t h u after) (second : Shifts i u after v final) :
    Shifts i t h v final := by
  intro joining
  obtain ⟨past, moves⟩ := first joining
  obtain ⟨more, later⟩ := second joining
  exact ⟨more ++ past, moves.trans later⟩

/-- Steps of others are steps. -/
theorem Drifts.shifts (drifts : Drifts i t h u after) : Shifts i t h u after := by
  intro joining
  obtain ⟨past, moves, _⟩ := drifts joining
  exact ⟨past, moves⟩

theorem Drifts.refl (t : Turns) (h : Hub) : Drifts i t h t h :=
  fun _ => ⟨[], .start, nofun⟩

theorem Drifts.trans (first : Drifts i t h u after) (second : Drifts i u after v final) :
    Drifts i t h v final := by
  intro joining
  obtain ⟨past, moves, foreign⟩ := first joining
  obtain ⟨more, later, foreigners⟩ := second joining
  refine ⟨more ++ past, moves.trans later, fun x listed => ?_⟩
  exact (List.mem_append.mp listed).elim (foreigners x) (foreign x)

theorem Drifts.single {new : Option Remark}
    (move : ∀ joining, Move i ⟨t, h, joining⟩ new ⟨u, after, joining⟩)
    (foreign : ∀ x ∈ new, x.IsForeign i) : Drifts i t h u after :=
  fun joining => ⟨_, (move joining).moves, fun x listed => foreign x (Option.mem_toList.mp listed)⟩

theorem Drifts.spares (spares : h.Spares i after) : Drifts i t h t after :=
  .single (fun _ => .still (.aside spares.alike.1 spares.alike.2) spares.queue) nofun

/-- Another reader takes from its own queue. -/
theorem receive_drifts (t : Turns) (h : Hub) {j : Nat} (other : j ≠ i) (count : Nat) :
    Drifts i t h t (h.receive j count).2 := by
  refine .spares ⟨Hub.receive_alike h j count, fun b queued => ?_⟩
  rw [Hub.receive_adjusts, Hub.adjust_elsewhere other, queued]

theorem receive_shifts (t : Turns) (h : Hub) (j count : Nat) : Shifts i t h t (h.receive j count).2 := by
  by_cases own : j = i
  · subst own
    exact fun _ => ⟨_, (Move.receive count).moves⟩
  · exact (receive_drifts t h own count).shifts

theorem closeMailbox_drifts (t : Turns) (h : Hub) {j : Nat} (other : j ≠ i) :
    Drifts i t h t (h.closeMailbox j) := by
  refine .spares ⟨Hub.closeMailbox_alike h j, fun b queued => ?_⟩
  rw [Hub.closeMailbox_adjusts, Hub.adjust_elsewhere other, queued]

theorem closeMailbox_shifts (t : Turns) (h : Hub) (j : Nat) : Shifts i t h t (h.closeMailbox j) := by
  by_cases own : j = i
  · subst own
    exact fun _ => ⟨_, Move.close.moves⟩
  · exact (closeMailbox_drifts t h own).shifts

theorem pass_none (idle : t.isIdle = true) : t.pass = none := by
  rw [Turns.isIdle, Bool.and_eq_true] at idle
  exact Option.isNone_iff_eq_none.mp idle.1

theorem begins_drifts (idle : t.pass = none) (h : Hub) (call : Call) (waiting : List Call) :
    Drifts i t h { t.start h call with waiting } h := by
  refine .single (fun _ => .notice (.begin idle) nofun) ?_
  rintro _ ⟨⟩
  exact trivial

/-- A broadcast that is asked for begins or waits in line. -/
theorem ask_drifts (t : Turns) (h : Hub) (call : Call) : Drifts i t h (t.ask h call) h := by
  unfold Turns.ask
  split
  · rename_i idle
    exact begins_drifts (pass_none idle) h call t.waiting
  · exact .single (fun _ => .still .queue fun _ => id) nofun

/-- The next broadcast in line begins. -/
theorem begin_drifts (begins : t.begin? h = some u) : Drifts i t h u h := by
  obtain ⟨call, later, none, _, rfl⟩ := Turns.begin_cases begins
  exact begins_drifts none h call later

/-- A subscriber is called and waited for. -/
theorem call_drifts {p : Pass} {e : Entry} {later : List Entry} (busy : t.pass = some p)
    (left : p.left = e :: later) (free : p.heldUntil = none) (h : Hub) (time : Nat) :
    Drifts i t h { t with pass := some { p with heldUntil := some time } } h := by
  refine .single (fun _ => .notice (.call busy left free) nofun) ?_
  rintro _ ⟨⟩
  exact trivial

/-- A subscriber who was waited for takes the frame. -/
theorem answer_drifts {p : Pass} {e : Entry} {later : List Entry} {time : Nat} (busy : t.pass = some p)
    (left : p.left = e :: later) (held : p.heldUntil = some time) :
    let taken := h.take e.subscriber p.frame
    Drifts i t h
      { t with pass := some { p with left := later, heldUntil := none, tally := p.tally.count e.id taken.1 } }
      taken.2 := by
  intro taken
  refine .single (fun _ => .notice (.answer busy left held rfl) nofun) ?_
  rintro _ ⟨⟩
  exact trivial

/-- A subscriber who does not wait is called and answers at once. -/
theorem take_drifts {p : Pass} {e : Entry} {later : List Entry} (busy : t.pass = some p)
    (left : p.left = e :: later) (free : p.heldUntil = none) :
    let taken := h.take e.subscriber p.frame
    Drifts i t h
      { t with pass := some { p with left := later, heldUntil := none, tally := p.tally.count e.id taken.1 } }
      taken.2 := by
  intro taken
  have waiting : Drifts i t h _ h := call_drifts busy left free h 0
  exact waiting.trans (@answer_drifts i { t with pass := some { p with heldUntil := some 0 } } h
    { p with heldUntil := some 0 } e later 0 rfl left rfl)

/-- A visit of a broadcast is not the doing of the reader. -/
theorem visit_drifts (visits : t.visit? h = some (u, after)) : Drifts i t h u after := by
  unfold Turns.visit? at visits
  split at visits
  · cases visits
  · rename_i p busy
    split at visits
    · cases visits
    · rename_i e later left
      dsimp only at visits
      split at visits
      · rename_i time held
        split at visits
        · cases visits
          exact answer_drifts busy left held
        · cases visits
      · rename_i free
        split at visits
        · cases visits
          exact take_drifts busy left free
        · cases visits
          exact call_drifts busy left free _ _

/-- Whoever asked for a broadcast may be told how it ended. -/
theorem conclude_drifts {caller : Caller} {tally : Tally}
    (concludes : t.conclude? h = some (caller, tally, u, after)) : Drifts i t h u after := by
  cases busy : t.pass with
  | none => simp [Turns.conclude?, busy] at concludes
  | some p =>
    refine .single (fun _ => .report busy concludes) ?_
    rintro _ ⟨⟩
    exact trivial

/-- A broadcast comes to those that are left, one after the other. -/
theorem deliverAll_drifts (call : Call) (frame : Bytes) (waiting : List Call) (entries : List Entry)
    (tally : Tally) (h : Hub) :
    let told := entries.foldl (Hub.deliver frame) (tally, h)
    Drifts i { pass := some { call, frame, left := entries, tally }, waiting } h
      { pass := some { call, frame, left := [], tally := told.1 }, waiting } told.2 := by
  induction entries generalizing tally h with
  | nil => exact .refl _ h
  | cons e later ih =>
    let stand (left : List Entry) (tally : Tally) : Turns :=
      { pass := some { call, frame, left, tally }, waiting }
    let held := h.moveClock (h.clock + h.hold e.subscriber)
    have waits : Drifts i (stand (e :: later) tally) h (stand (e :: later) tally) held :=
      .spares (Hub.spares_of_subscribers ⟨rfl, rfl⟩ rfl)
    have takes := @take_drifts i (stand (e :: later) tally) held _ e later rfl rfl rfl
    exact (waits.trans takes).trans (ih _ _)

theorem broadcast_drifts (idle : t.pass = none) (h : Hub) (m : Message) : Drifts i t h t (h.broadcast m).2 := by
  obtain ⟨pass, waiting⟩ := t
  cases idle
  have begins := @begins_drifts i ⟨none, waiting⟩ rfl h ⟨.background, m⟩ waiting
  have tells := @deliverAll_drifts i ⟨.background, m⟩ (Frame.encode m) waiting h.roster.entries {} h
  exact (begins.trans tells).trans (conclude_drifts rfl)

theorem remove_drifts {id : SubscriberId} {removed : Bool} (removes : t.remove? h id = some (removed, after)) :
    Drifts i t h t after := by
  refine .single (fun _ => .notice (.remove removes) nofun) ?_
  rintro _ ⟨⟩
  exact trivial

/-- A connection with another queue is one of the others. -/
theorem move_drifts {c d : Connection} {stopping : Bool} {move : ConnectionMove} (other : c.mailbox ≠ i)
    (moves : c.move? h t stopping move = some (d, after)) : Drifts i t h t after := by
  rcases Connection.move_cases moves with rfl | rfl | ⟨_, _, removes, rfl⟩
  · exact .refl t _
  · exact receive_drifts t h other 1
  · exact (remove_drifts removes).trans (closeMailbox_drifts t _ other)

/-- What a connection does takes steps of the floor. -/
theorem move_shifts {c d : Connection} {stopping : Bool} {move : ConnectionMove}
    (moves : c.move? h t stopping move = some (d, after)) : Shifts i t h t after := by
  rcases Connection.move_cases moves with rfl | rfl | ⟨_, _, removes, rfl⟩
  · exact .refl t _
  · exact receive_shifts t h c.mailbox 1
  · exact (remove_drifts removes).shifts.trans (closeMailbox_shifts t _ c.mailbox)

end Floor

namespace Service

theorem Drifts.refl (s : Service) : s.Drifts i s :=
  ⟨.refl _ _, rfl, id⟩

/-- What a service does by itself is the doing of others, or a connection makes a move. -/
theorem step_drifts {action : Action} (steps : s.step? action = some next) : s.Drifts i next ∨
    ∃ index c d hub move, s.connections[index]? = some c ∧
      c.move? s.hub s.turns s.feed.stopping move = some (d, hub) ∧
      next = { s.withHub hub with connections := s.connections.setIfInBounds index d } := by
  cases steps_of steps with
  | begin begins => exact Or.inl ⟨Floor.begin_drifts begins, rfl, id⟩
  | visit visits => exact Or.inl ⟨Floor.visit_drifts visits, rfl, id⟩
  | @conclude caller _ _ _ concludes =>
    have drifts := @Floor.conclude_drifts i _ _ _ _ _ _ concludes
    cases caller <;> exact Or.inl ⟨drifts, rfl, id⟩
  | send _ taken =>
    have spares := @Hub.takeDue_spares i s.hub
    rw [taken] at spares
    exact Or.inl ⟨(Floor.Drifts.spares spares).trans (Floor.ask_drifts _ _ _), rfl, id⟩
  | look _ taken =>
    have spares := @Hub.takeDue_spares i s.hub
    rw [taken] at spares
    exact Or.inl ⟨.spares spares, rfl, id⟩
  | plan | rouse => exact Or.inl ⟨.spares (Hub.spares_of_subscribers ⟨rfl, rfl⟩ rfl), rfl, id⟩
  | rest | stop | ring => exact Or.inl ⟨.refl _ _, rfl, id⟩
  | connection known moves => exact Or.inr ⟨_, _, _, _, _, known, moves, rfl⟩

/-- Time that passes is not the doing of the reader. -/
theorem clock_drifts (s : Service) (time : Nat) : s.Drifts i (s.moveClock time) :=
  ⟨.spares (Hub.spares_of_subscribers ⟨rfl, rfl⟩ rfl), rfl, id⟩

/-- Whatever a service does by itself, its floor takes steps in it. -/
theorem step_shifts {action : Action} (steps : s.step? action = some next) : s.Shifts i next := by
  rcases step_drifts steps with drifts | ⟨_, _, _, _, _, _, moves, rfl⟩
  · exact drifts.floor.shifts
  · exact Floor.move_shifts moves

theorem shifts_course : Course (Shifts i) where
  refl _ := .refl _ _
  trans := .trans
  step := step_shifts
  clock s time := (s.clock_drifts time).floor.shifts

theorem shifts_habit : Habit i (Shifts i) where
  course := shifts_course
  drift drifts := drifts.floor.shifts

theorem pass_none (alone : s.isAlone = true) : s.turns.pass = none := by
  rw [isAlone, Bool.and_eq_true, Bool.and_eq_true] at alone
  exact Floor.pass_none alone.1.1

namespace Habit

variable {R : Service → Service → Prop}

theorem routine (habit : Habit i R) : Routine R where
  toCourse := habit.course
  ask s call _ := habit.drift ⟨Floor.ask_drifts s.turns s.hub call, rfl, id⟩
  takeDue s := habit.drift ⟨.spares (Hub.takeDue_spares s.hub), rfl, id⟩
  tell alone m := habit.drift ⟨Floor.broadcast_drifts (pass_none alone) _ m, rfl, id⟩

theorem onHub (habit : Habit i R) {α : Type} {f : Hub → α × Hub} (spares : ∀ h : Hub, h.Spares i (f h).2) :
    Follows R (onHub f) := by
  rintro s _ _ ⟨⟩
  exact habit.drift ⟨.spares (spares s.hub), rfl, id⟩

theorem perform (habit : Habit i R) (fuel : Nat) (c : Command) : Follows R (perform fuel c) := by
  refine habit.routine.perform (fun s c => ?_) fuel c
  refine habit.drift ⟨.spares (s.feed.react_spares c), rfl, fun told => ?_⟩
  rw [(s.feed.react_keeps c).2.1, told]
  rfl

theorem remove (habit : Habit i R) (fuel : Nat) (id : SubscriberId) : Follows R (remove fuel id) :=
  habit.course.onFreeHub fun removes => habit.drift ⟨Floor.remove_drifts removes, rfl, fun told => told⟩

end Habit

/-- The number that a subscriber is registered under is given out first. -/
theorem register_awaits {fuel subscriber : Nat} {id : SubscriberId}
    (done : (register fuel subscriber).run s = some (id, last)) : ∃ middle hub,
      id = s.hub.reserve.1 ∧ (s.withHub s.hub.reserve.2).runUntil
        (fun s => (s.turns.enter? s.hub id subscriber).isSome) fuel = some middle ∧
      middle.turns.enter? middle.hub id subscriber = some hub ∧ last = middle.withHub hub := by
  unfold register at done
  rw [StateT.run_bind] at done
  obtain ⟨⟨given, reserved⟩, reserves, rest⟩ := Option.bind_eq_some_iff.mp done
  rw [StateT.run_bind] at rest
  obtain ⟨⟨_, entered⟩, enters, same⟩ := Option.bind_eq_some_iff.mp rest
  cases reserves
  cases same
  obtain ⟨middle, hub, waits, changes, rfl⟩ := onFreeHub_run enters
  obtain ⟨_, entering, same⟩ := Option.map_eq_some_iff.mp changes
  cases same
  simp only [Option.isSome_map] at waits
  exact ⟨middle, hub, rfl, waits, entering, rfl⟩

theorem register_shifts (fuel subscriber : Nat) : Follows (Shifts i) (register fuel subscriber) := by
  intro s id last done
  obtain ⟨middle, hub, rfl, waits, entering, rfl⟩ := register_awaits done
  intro joining
  -- Until the broadcasts allow the registration its number is one of those still to come.
  obtain ⟨past, moves⟩ := shifts_course.runUntil waits (s.hub.reserve.1 :: joining)
  have reserved : Floor.Move i _ none _ := .still (@Floor.Step.reserve s.turns s.hub joining) fun _ => id
  have entered := (reserved.moves.trans moves).next (.notice (.enter (List.mem_cons_self ..) entering) nofun)
  rw [List.erase_cons_head] at entered
  exact ⟨_, entered⟩

/-- What an operator does at a service is the doing of others than the reader of a queue, or time passes,
unless it is registered, or done in the name of a reader. -/
theorem Habit.does {R : Service → Service → Prop} {errand : Errand} {reply : Reply} (habit : Habit i R)
    (does : s.Does errand reply next)
    (registers : ∀ fuel j, errand = .register j → Follows R (register fuel j))
    (receives : ∀ j count, errand = .receive j count → R s (s.withHub (s.hub.receive j count).2))
    (closes : ∀ j, errand = .close j → R s (s.withHub (s.hub.closeMailbox j))) : R s next := by
  obtain ⟨fuel, done⟩ := does
  have mapped {α : Type} {task : Task α} {wrap : α → Reply} (follows : Follows R task)
      (done : (wrap <$> task).run s = some (reply, next)) : R s next := habit.course.map follows _ _ _ done
  cases errand with
  | perform c => exact mapped (habit.perform fuel c) done
  | broadcast m => exact mapped (habit.routine.broadcast fuel m) done
  | sendDue => exact mapped (habit.routine.sendDue fuel) done
  | register subscriber => exact mapped (registers fuel subscriber rfl) done
  | remove id =>
    refine habit.course.bind habit.course.get (fun _ => ?_) _ _ _ done
    exact habit.course.bind (habit.remove fuel id) fun _ => habit.course.pure _
  | post | postAt | cancel =>
    refine mapped (habit.onHub fun h => ?_) done
    exact Hub.spares_of_subscribers ⟨rfl, rfl⟩ rfl
  | receive subscriber count =>
    cases done
    exact receives subscriber count rfl
  | close subscriber =>
    cases done
    exact closes subscriber rfl
  | jump time =>
    cases done
    exact habit.course.clock _ _
  | sleep duration =>
    obtain ⟨_, fuel, sleeps⟩ := does_sleep.mp ⟨fuel, done⟩
    exact habit.course.sleepUntil sleeps

/-- What an operator or the reader of some queue does at a service, or its time, is seen as steps there. -/
theorem does_shifts {errand : Errand} {reply : Reply} (does : s.Does errand reply next) : s.Shifts i next :=
  shifts_habit.does does (fun fuel j _ => register_shifts fuel j) (fun _ _ _ => Floor.receive_shifts _ _ _ _)
    fun _ _ => Floor.closeMailbox_shifts _ _ _

/-- Whatever a service comes to, its broadcasts have taken turns, and the past tells who is
registered and what was delivered. -/
theorem Shifts.orderly {count : Nat} (counted : s.hub.roster = .ofCount count) (idle : s.turns.pass = none)
    (shifts : s.Shifts i last) : ∃ past, Orderly s.hub.roster.entries past ∧
      last.hub.roster.entries = registeredAfter s.hub.roster.entries past ∧
      last.hub.deliveries = s.hub.deliveries ++ given past := by
  obtain ⟨past, moves⟩ := shifts []
  obtain ⟨orderly, agrees⟩ := moves.run.agrees (Floor.sound_ofCount counted) idle
  exact ⟨occurrences past, orderly, agrees.registered.symm, moves.run.deliveries⟩

end Service

end LiveTiming
