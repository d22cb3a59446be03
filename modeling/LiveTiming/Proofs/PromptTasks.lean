import LiveTiming.Proofs.ConsoleSession
import LiveTiming.Proofs.PromptService

namespace LiveTiming

/-- A pass sends events that are due, one after the other, until none is. They are given with the
times at which they are sent. -/
inductive Hub.Sends : Hub → List (Nat × Event) → Hub → Prop
  | rest {h after} : h.takeDue = (none, after) → Sends h [] after
  | send {h e rest fired after} : h.takeDue = (some e, rest) →
      Sends (rest.broadcast e.message).2 fired after → Sends h ((h.clock, e) :: fired) after

variable {h after : Hub} {s next t : Service} {fuel more n : Nat} {m : Message}

/-- A pass ends with some fuel if and only if there is a course of it, whose length it counts. -/
theorem Hub.sendDue_iff : (∃ fuel, h.sendDue fuel = some (n, after)) ↔
    ∃ fired, h.Sends fired after ∧ n = fired.length := by
  constructor
  · rintro ⟨fuel, sends⟩
    induction fuel generalizing h n with
    | zero => cases sends
    | succ fuel ih =>
      unfold sendDue at sends
      split at sends
      · rename_i rested
        cases sends
        exact ⟨[], .rest rested, rfl⟩
      · rename_i taken
        obtain ⟨⟨others, _⟩, rest, same⟩ := Option.map_eq_some_iff.mp sends
        cases same
        obtain ⟨fired, later, rfl⟩ := ih rest
        exact ⟨_, .send taken later, rfl⟩
  · rintro ⟨fired, sends, rfl⟩
    induction sends with
    | rest rested => exact ⟨1, by simp [sendDue, rested]⟩
    | send taken _ ih =>
      obtain ⟨fuel, rest⟩ := ih
      exact ⟨fuel + 1, by simp [sendDue, taken, rest]⟩

/-- The course of a pass is determined. -/
theorem Hub.Sends.unique {fired fired' : List (Nat × Event)} {last : Hub} (sends : h.Sends fired after)
    (again : h.Sends fired' last) : fired' = fired ∧ last = after := by
  induction sends generalizing fired' with
  | rest rested =>
    cases again with
    | rest also =>
      rw [rested] at also
      cases also
      exact ⟨rfl, rfl⟩
    | send also =>
      rw [rested] at also
      cases also
  | send taken _ ih =>
    cases again with
    | rest also =>
      rw [taken] at also
      cases also
    | send also later =>
      rw [taken] at also
      cases also
      obtain ⟨rfl, rfl⟩ := ih later
      exact ⟨rfl, rfl⟩

/-- A pass over subscribers who do not wait leaves the hub as sound as it was, and takes no time. -/
theorem Hub.Sends.prompt_sound {fired : List (Nat × Event)} (sends : h.Sends fired after) (prompt : h.Prompt)
    (sound : h.timeline.Sound) : after.Prompt ∧ after.timeline.Sound := by
  induction sends with
  | rest rested =>
    exact ⟨(takeDue_rescheduled rested).prompt prompt, ((takeDue_tidied rested).timeline sound).right⟩
  | @send h e rest _ _ taken _ ih =>
    have told := ((takeDue_rescheduled taken).prompt prompt).broadcast e.message
    obtain ⟨_, _, _, kept, _⟩ := Timeline.takeDue_some sound (takeDue_eq taken).1
    exact ih told.1 ((rest.broadcast_grows e.message).sound kept)

namespace Service

section Running

variable {done : Service → Bool}

/-- More fuel than is needed changes nothing. -/
theorem runUntil_more (runs : s.runUntil done fuel = some t) (bound : fuel ≤ more) :
    s.runUntil done more = some t := by
  induction fuel generalizing s more with
  | zero => cases runs
  | succ fuel ih =>
    obtain ⟨more, rfl⟩ := Nat.exists_eq_add_of_le' (Nat.lt_of_lt_of_le (Nat.succ_pos fuel) bound)
    have less := Nat.le_of_succ_le_succ bound
    unfold runUntil at runs ⊢
    split at runs
    · rename_i finished
      rw [if_pos finished]
      exact runs
    · rename_i unfinished
      rw [if_neg unfinished]
      cases next : s.next? with
      | some after =>
        simp only [next] at runs ⊢
        exact ih runs less
      | none =>
        simp only [next] at runs ⊢
        obtain ⟨time, alarm, rest⟩ := Option.bind_eq_some_iff.mp runs
        simp only [alarm, Option.bind_some]
        exact ih rest less

theorem runUntil_of_goes (goes : s.Goes (done · = false) next) (finished : done next = true) :
    ∃ fuel, s.runUntil done fuel = some next := by
  induction goes using Relation.ReflTransGen.head_induction_on with
  | refl => exact ⟨1, by simp only [runUntil, finished, if_true]⟩
  | head step _ ih =>
    obtain ⟨fuel, rest⟩ := ih
    exact ⟨fuel + 1, by simpa only [runUntil, step.1, Bool.false_eq_true, if_false, step.2] using rest⟩

/-- What a service comes to does not depend on how long it may take. -/
theorem runUntil_iff (goes : s.Goes (done · = false) next) (finished : done next = true) :
    (∃ fuel, s.runUntil done fuel = some t) ↔ t = next := by
  obtain ⟨enough, ends⟩ := runUntil_of_goes goes finished
  constructor
  · rintro ⟨fuel, runs⟩
    have other := runUntil_more ends (Nat.le_max_left enough fuel)
    have same := runUntil_more runs (Nat.le_max_right enough fuel)
    exact Option.some.inj (same.symm.trans other)
  · rintro rfl
    exact ⟨enough, ends⟩

end Running

/-- An operator of a service with other tasks asks for a broadcast and waits for his answer. -/
theorem broadcast_busy (busy : s.isAlone = false) : (broadcast fuel m).run s =
    (({ s with answer := none, turns := s.turns.ask s.hub ⟨.operator, m⟩ } : Service).runUntil
      (·.answer.isSome) fuel).bind fun after => after.answer.map fun tally => (tally, after) := by
  unfold broadcast
  simp only [StateT.run_bind, StateT.run_get, Option.pure_def, Option.bind_eq_bind, Option.bind_some, busy,
    Bool.false_eq_true, if_false, StateT.run_modify, StateT.run_lift, StateT.run_set, Option.bind_assoc]
  refine congrArg _ (funext fun after => ?_)
  cases after.answer <;> rfl

/-- An operator's broadcast to subscribers who do not wait, while a driver sleeps or works, ends
before anything else happens. -/
theorem Quiet.broadcast_iff (quiet : s.Quiet) {tally : Tally} :
    (∃ fuel, (broadcast fuel m).run s = some (tally, t)) ↔
      tally = (s.hub.broadcast m).1 ∧
        t = { s.withHub (s.hub.broadcast m).2 with answer := if s.isAlone then s.answer else some tally } := by
  cases alone : s.isAlone with
  | true =>
    simp only [broadcast_alone alone, exists_const, Option.some.injEq, Prod.mk.injEq, if_true]
    exact ⟨fun ⟨a, b⟩ => ⟨a.symm, b.symm⟩, fun ⟨a, b⟩ => ⟨a.symm, b.symm⟩⟩
  | false =>
    let asked : Service := { s with
      answer := none
      turns := ⟨some { call := ⟨.operator, m⟩, frame := Frame.encode m, left := s.hub.roster.entries }, []⟩ }
    have asks : ({ s with answer := none, turns := s.turns.ask s.hub ⟨.operator, m⟩ } : Service) = asked := by
      simp [quiet.idle, Turns.ask, Turns.isIdle, Turns.start, asked]
    let ended : Service := { s.withHub (s.hub.broadcast m).2 with answer := some (s.hub.broadcast m).1 }
    have passes : asked.Goes (·.answer = asked.answer) { ended with turns := {} } :=
      pass_goes (s := asked) quiet.prompt rfl
    have back : ({ ended with turns := {} } : Service) = ended := by
      rw [← quiet.idle]
      rfl
    have goes : asked.Goes (·.answer.isSome = false) ended :=
      (back ▸ passes).weaken fun s same => by rw [same]; rfl
    have ends {t : Service} : (∃ fuel, asked.runUntil (·.answer.isSome) fuel = some t) ↔ t = ended :=
      runUntil_iff goes rfl
    simp only [broadcast_busy alone, asks, Option.bind_eq_some_iff, Bool.false_eq_true, if_false]
    constructor
    · rintro ⟨fuel, u, runs, same⟩
      rw [ends.mp ⟨fuel, runs⟩] at same
      obtain ⟨answer, final⟩ := Prod.mk.inj (Option.some.inj same)
      exact ⟨answer.symm, answer ▸ final.symm⟩
    · rintro ⟨rfl, rfl⟩
      obtain ⟨fuel, runs⟩ := ends.mpr rfl
      exact ⟨fuel, ended, runs, rfl⟩

/-- A service with another feed, whatever its operator was told last. -/
def Becomes (s : Service) (feed : Feed) (t : Service) : Prop :=
  ∃ answer, t = { s with feed, answer }

theorem Quiet.becomes (quiet : s.Quiet) {feed : Feed} (prompt : feed.hub.Prompt)
    (sound : feed.hub.timeline.Sound) (becomes : s.Becomes feed t) : t.Quiet := by
  obtain ⟨answer, rfl⟩ := becomes
  exact ⟨quiet.idle, quiet.alone, quiet.free, prompt, sound⟩

variable {c : Command} {result : Except Failure Outcome}

theorem Quiet.react (quiet : s.Quiet) (c : Command) : ({ s with feed := (s.feed.react c).2 } : Service).Quiet := by
  obtain ⟨more, run⟩ := Feed.react_run quiet.sound c
  exact ⟨quiet.idle, quiet.alone, quiet.free, (s.feed.react_rescheduled c).prompt quiet.prompt,
    (run.timeline quiet.sound).1⟩

theorem Quiet.after_perform (quiet : s.Quiet) (c : Command) :
    ({ s with feed := (s.feed.perform c).2 } : Service).Quiet := by
  have reacted := quiet.react c
  rcases reacts : s.feed.react c with ⟨answer | m, g⟩
  · rw [reacts] at reacted
    rwa [Feed.perform_answer reacts]
  · rw [reacts] at reacted
    rw [Feed.perform, reacts]
    exact ⟨quiet.idle, quiet.alone, quiet.free, (reacted.prompt.broadcast m).1,
      ((g.hub.broadcast_grows m).sound reacted.sound)⟩

/-- A command at a quiet service does what it does at the feed. -/
theorem Quiet.performs (quiet : s.Quiet) (performed : (perform fuel c).run s = some (result, t)) :
    result = (s.feed.perform c).1 ∧ s.Becomes (s.feed.perform c).2 t := by
  have reacted := quiet.react c
  rcases reacts : s.feed.react c with ⟨answer | m, g⟩
  · rw [perform_answers reacts] at performed
    cases performed
    rw [Feed.perform_answer reacts]
    exact ⟨rfl, s.answer, rfl⟩
  · rw [reacts] at reacted
    rw [perform_sends reacts] at performed
    obtain ⟨⟨tally, after⟩, sends, same⟩ := Option.map_eq_some_iff.mp performed
    cases same
    obtain ⟨rfl, rfl⟩ := reacted.broadcast_iff.mp ⟨fuel, sends⟩
    rw [Feed.perform, reacts]
    exact ⟨rfl, _, rfl⟩

/-- A command at a quiet service is answered. -/
theorem Quiet.perform_ends (quiet : s.Quiet) (c : Command) :
    ∃ fuel t, (perform fuel c).run s = some ((s.feed.perform c).1, t) := by
  have reacted := quiet.react c
  rcases reacts : s.feed.react c with ⟨answer | m, g⟩
  · rw [Feed.perform_answer reacts]
    exact ⟨0, _, perform_answers reacts⟩
  · rw [reacts] at reacted
    obtain ⟨fuel, sends⟩ := reacted.broadcast_iff (m := m) |>.mpr ⟨rfl, rfl⟩
    refine ⟨fuel, ?_⟩
    rw [perform_sends reacts, sends, Feed.perform, reacts]
    exact ⟨_, rfl⟩

variable {e : Event} {count : Nat}

/-- More fuel than a broadcast needs changes nothing. -/
theorem broadcast_more {tally : Tally} (sends : (broadcast fuel m).run s = some (tally, t)) (bound : fuel ≤ more) :
    (broadcast more m).run s = some (tally, t) := by
  cases alone : s.isAlone with
  | true => rwa [broadcast_alone alone] at sends ⊢
  | false =>
    rw [broadcast_busy alone] at sends ⊢
    obtain ⟨after, runs, told⟩ := Option.bind_eq_some_iff.mp sends
    rw [runUntil_more runs bound]
    exact told

theorem onHub_run {α : Type} (f : Hub → α × Hub) :
    (onHub f).run s = some ((f s.hub).1, s.withHub (f s.hub).2) :=
  rfl

theorem discard_run {α : Type} (task : Task α) :
    (discard task).run s = (task.run s).map fun (_, t) => ((), t) := by
  change ((Function.const α PUnit.unit) <$> task).run s = _
  rw [StateT.run_map]
  rfl

/-- The pass of an operator who finds nothing due ends. -/
theorem sendInTurns_rests (rested : s.hub.takeDue = (none, after)) :
    (sendInTurns fuel (count + 1)).run s = some (0, s.withHub after) := by
  unfold sendInTurns
  rw [StateT.run_bind, onHub_run, rested]
  rfl

/-- He who finds something due waits for its broadcast, and goes on. -/
theorem sendInTurns_sends (taken : s.hub.takeDue = (some e, after)) :
    (sendInTurns fuel (count + 1)).run s =
      ((broadcast fuel e.message).run (s.withHub after)).bind fun (_, told) =>
        ((sendInTurns fuel count).run told).map fun (n, t) => (n + 1, t) := by
  conv => lhs; unfold sendInTurns
  rw [StateT.run_bind, onHub_run, taken]
  simp only [Option.bind_eq_bind, Option.bind_some, StateT.run_bind, discard_run, Option.bind_map]
  refine congrArg _ (funext fun told => ?_)
  cases sends : (sendInTurns fuel count).run told.2 <;> simp [sends]

theorem Quiet.withHub (quiet : s.Quiet) (prompt : after.Prompt) (sound : after.timeline.Sound) :
    (s.withHub after).Quiet :=
  ⟨quiet.idle, quiet.alone, quiet.free, prompt, sound⟩

theorem Quiet.taken (quiet : s.Quiet) (taken : s.hub.takeDue = (some e, after)) : (s.withHub after).Quiet := by
  obtain ⟨_, _, _, sound, _⟩ := Timeline.takeDue_some quiet.sound (Hub.takeDue_eq taken).1
  exact quiet.withHub ((Hub.takeDue_rescheduled taken).prompt quiet.prompt) sound

theorem Quiet.broadcast (quiet : s.Quiet) (m : Message) : (s.withHub (s.hub.broadcast m).2).Quiet :=
  quiet.withHub (quiet.prompt.broadcast m).1 ((s.hub.broadcast_grows m).sound quiet.sound)

/-- A broadcast at a quiet service is answered. -/
theorem Quiet.broadcast_ends (quiet : s.Quiet) (m : Message) :
    ∃ fuel told, (Service.broadcast fuel m).run s = some ((s.hub.broadcast m).1, told) ∧
      s.Becomes { s.feed with hub := (s.hub.broadcast m).2 } told := by
  obtain ⟨fuel, run⟩ := quiet.broadcast_iff.mpr ⟨rfl, rfl⟩
  exact ⟨fuel, _, run, _, rfl⟩

theorem Quiet.sends_on (quiet : s.Quiet) (taken : s.hub.takeDue = (some e, after)) {told : Service}
    (becomes : (s.withHub after).Becomes { s.feed with hub := (after.broadcast e.message).2 } told) :
    told.Quiet ∧ told.isAlone = s.isAlone ∧ told.hub = (after.broadcast e.message).2 ∧
      ∀ hub t, told.Becomes { told.feed with hub } t → s.Becomes { s.feed with hub } t := by
  have next := (quiet.taken taken).broadcast e.message
  obtain ⟨answer, rfl⟩ := becomes
  exact ⟨⟨next.idle, next.alone, next.free, next.prompt, next.sound⟩, rfl, rfl,
    fun _ _ ⟨answer, same⟩ => ⟨answer, same⟩⟩

/-- The pass of an operator at a quiet service is one at its hub. -/
theorem Quiet.sendInTurns_does (quiet : s.Quiet) (sends : (sendInTurns fuel count).run s = some (n, t)) :
    ∃ fired hub, s.hub.Sends fired hub ∧ n = fired.length ∧ s.Becomes { s.feed with hub } t := by
  induction count generalizing s n with
  | zero => cases sends
  | succ count ih =>
    rcases taken : s.hub.takeDue with ⟨_ | e, after⟩
    · rw [sendInTurns_rests taken] at sends
      cases sends
      exact ⟨[], after, .rest taken, rfl, s.answer, rfl⟩
    · rw [sendInTurns_sends taken] at sends
      obtain ⟨⟨tally, told⟩, first, rest⟩ := Option.bind_eq_some_iff.mp sends
      obtain ⟨⟨others, _⟩, later, same⟩ := Option.map_eq_some_iff.mp rest
      cases same
      obtain ⟨_, becomes⟩ := (quiet.taken taken).broadcast_iff.mp ⟨fuel, first⟩
      obtain ⟨next, _, hub, back⟩ := quiet.sends_on taken ⟨_, becomes⟩
      obtain ⟨fired, final, passes, rfl, ends⟩ := ih next later
      exact ⟨_, final, .send taken (hub ▸ passes), rfl, back final _ ends⟩

/-- It ends if the one at the hub does. -/
theorem Quiet.sendInTurns_ends (quiet : s.Quiet) {fired : List (Nat × Event)} {hub : Hub}
    (sends : s.hub.Sends fired hub) : ∃ enough, ∀ fuel ≥ enough, ∀ count > fired.length,
      ∃ t, (sendInTurns fuel count).run s = some (fired.length, t) := by
  generalize start : s.hub = h at sends
  induction sends generalizing s with
  | rest rested =>
    refine ⟨0, fun fuel _ count more => ?_⟩
    obtain ⟨others, rfl⟩ := Nat.exists_eq_add_of_lt more
    exact ⟨_, sendInTurns_rests (start ▸ rested)⟩
  | @send h e rest fired _ taken _ ih =>
    rw [← start] at taken
    obtain ⟨first, told, begins, becomes⟩ := (quiet.taken taken).broadcast_ends e.message
    obtain ⟨next, _, hub, _⟩ := quiet.sends_on taken becomes
    obtain ⟨enough, later⟩ := ih next hub
    refine ⟨max first enough, fun fuel bound count more => ?_⟩
    obtain ⟨others, rfl⟩ := Nat.exists_eq_add_of_lt more
    have first := broadcast_more begins (le_trans (le_max_left _ _) bound)
    obtain ⟨t, ends⟩ := later fuel (le_trans (le_max_right _ _) bound) (fired.length + 1 + others) (by omega)
    refine ⟨t, ?_⟩
    rw [List.length_cons, sendInTurns_sends taken, first]
    simp only [Option.bind_some, ends, Option.map_some]

/-- An operator's pass is one at the hub if nobody else does anything; else he sends in turns. -/
theorem sendDue_run : (sendDue fuel).run s =
    if s.isAlone then (s.hub.sendDue fuel).map fun (count, hub) => (count, s.withHub hub)
    else (sendInTurns fuel fuel).run s := by
  unfold sendDue
  rw [StateT.run_bind, StateT.run_get]
  cases alone : s.isAlone with
  | true => cases sends : s.hub.sendDue fuel <;> simp [sends, alone]
  | false => simp [alone]

/-- A pass that an operator asks for sends what is due. -/
theorem Quiet.sendDue_does (quiet : s.Quiet) (sends : (sendDue fuel).run s = some (n, t)) :
    ∃ fired hub, s.hub.Sends fired hub ∧ n = fired.length ∧ s.Becomes { s.feed with hub } t := by
  rw [sendDue_run] at sends
  split at sends
  · obtain ⟨⟨_, hub⟩, passes, same⟩ := Option.map_eq_some_iff.mp sends
    cases same
    obtain ⟨fired, pass, rfl⟩ := Hub.sendDue_iff.mp ⟨fuel, passes⟩
    exact ⟨fired, hub, pass, rfl, s.answer, rfl⟩
  · exact quiet.sendInTurns_does sends

theorem Quiet.sendDue_ends (quiet : s.Quiet) {fired : List (Nat × Event)} {hub : Hub}
    (sends : s.hub.Sends fired hub) : ∃ fuel t, (sendDue fuel).run s = some (fired.length, t) := by
  simp only [sendDue_run]
  cases s.isAlone with
  | true =>
    obtain ⟨fuel, ends⟩ := Hub.sendDue_iff.mpr ⟨fired, sends, rfl⟩
    exact ⟨fuel, s.withHub hub, by simp [ends]⟩
  | false =>
    obtain ⟨enough, ends⟩ := quiet.sendInTurns_ends sends
    obtain ⟨t, run⟩ := ends (max enough (fired.length + 1)) (le_max_left _ _) _ (le_max_right enough _)
    exact ⟨_, t, run⟩

theorem onFreeHub_free {α : Type} {f : Turns → Hub → Option (α × Hub)} {a : α}
    (free : f s.turns s.hub = some (a, after)) :
    (onFreeHub fuel f).run s = if fuel = 0 then none else some (a, s.withHub after) := by
  cases fuel with
  | zero => simp [onFreeHub, runUntil]
  | succ fuel => simp [onFreeHub, runUntil, free]

/-- A registration at a service without a broadcast is entered at once. -/
theorem register_run (idle : s.turns = {}) (subscriber : Nat) : (register fuel subscriber).run s =
    if fuel = 0 then none
    else some (s.hub.reserve.1, s.withHub (s.hub.reserve.2.enter s.hub.reserve.1 subscriber)) := by
  let f : Turns → Hub → Option (Unit × Hub) := fun t h => (t.enter? h s.hub.reserve.1 subscriber).map ((), ·)
  have free : f (s.withHub s.hub.reserve.2).turns (s.withHub s.hub.reserve.2).hub =
      some ((), s.hub.reserve.2.enter s.hub.reserve.1 subscriber) := by
    have turns : (s.withHub s.hub.reserve.2).turns = {} := idle
    rw [turns]
    rfl
  have enters : (onFreeHub fuel f).run (s.withHub s.hub.reserve.2) = _ := onFreeHub_free free
  unfold register
  rw [StateT.run_bind, onHub_run, Option.bind_eq_bind, Option.bind_some, StateT.run_bind, enters]
  split <;> rfl

/-- So is its end. -/
theorem remove_run (idle : s.turns = {}) (id : SubscriberId) : (remove fuel id).run s =
    if fuel = 0 then none else some ((s.hub.remove id).1, s.withHub (s.hub.remove id).2) := by
  refine onFreeHub_free ?_
  rw [idle]
  rfl

end Service

end LiveTiming
