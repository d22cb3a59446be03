import LiveTiming.Proofs.Agreement
import LiveTiming.Proofs.DriverWaking
import LiveTiming.Proofs.PromptHub

namespace LiveTiming

variable {h after : Hub} {frame : Bytes} {s next t : Service} {sent : Option Event}

namespace Service

/-- The service goes on by itself from one state to another, and something holds before each of
its steps. -/
def Goes (keeps : Service → Prop) : Service → Service → Prop :=
  Relation.ReflTransGen fun s next => keeps s ∧ s.next? = some next

theorem Goes.weaken {keeps others : Service → Prop} (goes : s.Goes keeps t)
    (weaker : ∀ s, keeps s → others s) : s.Goes others t :=
  Relation.ReflTransGen.mono (fun _ _ step => ⟨weaker _ step.1, step.2⟩) _ _ goes

/-- A broadcast that is under way goes on before anything else is done. -/
theorem next_visit (visits : s.step? .visit = some next) : s.next? = some next := by
  simp [next?, preferred, visits]

/-- It ends when it has come to its last subscriber. -/
theorem next_conclude (free : s.step? .visit = none) (concludes : s.step? .conclude = some next) :
    s.next? = some next := by
  simp [next?, preferred, free, concludes]

/-- A broadcast that is under way comes to those who are left one after the other, and its report
goes to the caller, before anything else happens. -/
theorem pass_goes {call : Call} {left : List Entry} {tally : Tally} {waiting : List Call}
    (prompt : s.hub.Prompt) (busy : s.turns = ⟨some { call, frame, left, tally }, waiting⟩) :
    let told := left.foldl (Hub.deliver frame) (tally, s.hub)
    s.Goes (·.answer = s.answer)
      (({ s.withHub { told.2 with roster := told.2.roster.evict told.1.evicted } with
        turns := ⟨none, waiting⟩ } : Service).reportTo call.caller told.1) := by
  induction left generalizing s tally with
  | nil =>
    refine .single ⟨rfl, next_conclude ?_ ?_⟩
    · simp [step?, Turns.visit?, busy]
    · simp [step?, Turns.conclude?, busy]
  | cons e later ih =>
    let taken := s.hub.take e.subscriber frame
    let told : Service := { s.withHub taken.2 with
      turns := ⟨some { call, frame, left := later, tally := tally.count e.id taken.1 }, waiting⟩ }
    have visits : s.step? .visit = some told := by
      simp [step?, Turns.visit?, busy, prompt.hold, told, taken]
    have rest := ih (s := told) (prompt.take e.subscriber frame) rfl
    rw [List.foldl_cons, prompt.deliver]
    exact .head ⟨rfl, next_visit visits⟩ rest

/-- Nothing is under way but what the driver does, and nobody waits before he takes a frame. -/
structure Quiet (s : Service) : Prop where
  idle : s.turns = {}
  alone : s.connections = #[]
  free : s.driver ≠ some .sending
  prompt : s.hub.Prompt
  sound : s.hub.timeline.Sound

/-- A feed that starts with prompt subscribers is quiet. -/
theorem quiet_start (config : Config) {subscribers : List Subscriber} (prompt : ∀ x ∈ subscribers, x.Prompt)
    (g : Generator) {driver : Option Driver} (free : driver ≠ some .sending) :
    ({ feed := .start config subscribers g, driver } : Service).Quiet := by
  refine ⟨rfl, rfl, free, fun x member => ?_, Timeline.sound_empty⟩
  have known : x ∈ if config.echo then subscribers ++ [.log] else subscribers := Array.mem_toList_iff.mpr member
  split at known
  · rcases List.mem_append.mp known with given | echo
    · exact prompt x given
    · obtain rfl := List.mem_singleton.mp echo
      trivial
  · exact prompt x known

/-- What a driver does next, in one stride: it sends an event that is due, which is given with the
outcome, or it takes another of its steps. -/
def stride? (s : Service) : Option (Option Event × Service) :=
  if s.driver = some .looking then
    match s.hub.takeDue with
    | (some e, h) => some (some e, s.withHub (h.broadcast e.message).2)
    | (none, h) => some (none, { s.withHub h with driver := some .planning })
  else ([Action.plan, .rest, .stop, .rouse, .ring].findSome? s.step?).map (none, ·)

/-- In a quiet service only the driver has something to do. -/
theorem Quiet.next_eq (quiet : s.Quiet) :
    s.next? = [Action.look, .plan, .rest, .stop, .rouse, .ring].findSome? s.step? := by
  have visit : s.step? .visit = none := by simp [step?, Turns.visit?, quiet.idle]
  have conclude : s.step? .conclude = none := by simp [step?, Turns.conclude?, quiet.idle]
  have begin : s.step? .begin = none := by simp [step?, Turns.begin?, quiet.idle]
  have actions : s.preferred = [.visit, .conclude] ++ [.look, .plan, .rest, .stop, .rouse, .ring] ++ [.begin] := by
    simp [preferred, quiet.alone]
  rw [next?, actions, List.findSome?_append, List.findSome?_append]
  simp [visit, conclude, begin]

theorem look_none (driver : s.driver ≠ some .looking) : s.step? .look = none := by
  cases standing : s.driver with
  | none => simp [step?, standing]
  | some d =>
    rw [standing] at driver
    cases d <;> first
      | exact absurd rfl driver
      | simp [step?, standing, Driver.look?]

/-- A driver that finds an event due sends it in one stride. -/
theorem stride_sends {e : Event} (looks : s.driver = some .looking) (taken : s.hub.takeDue = (some e, after)) :
    s.stride? = some (some e, s.withHub (after.broadcast e.message).2) := by
  simp only [stride?, looks, if_true, taken]

/-- One that finds nothing due goes on to plan its sleep. -/
theorem stride_looks (looks : s.driver = some .looking) (taken : s.hub.takeDue = (none, after)) :
    s.stride? = some (none, { s.withHub after with driver := some .planning }) := by
  simp only [stride?, looks, if_true, taken]

theorem stride_plans (plans : s.driver = some .planning) :
    s.stride? = some (none, { s.withHub { s.hub with timeline := s.hub.timeline.nextTime.2 } with
      driver := some (.planned s.hub.timeline.nextTime.1) }) := by
  simp [stride?, plans, step?, Driver.plan?]

theorem stride_rests {deadline : Option Nat} (planned : s.driver = some (.planned deadline)) :
    s.stride? = some (none, { s with driver := some (.asleep deadline) }) := by
  simp [stride?, planned, step?, Driver.plan?, Driver.rest?]

theorem stride_stops {deadline : Option Nat} (sleeps : s.driver = some (.asleep deadline))
    (stopping : s.feed.stopping = true) :
    s.stride? = some (none, { s with driver := some .stopped }) := by
  simp [stride?, sleeps, step?, Driver.plan?, Driver.rest?, Driver.stop?, stopping]

theorem stride_rouses {deadline : Option Nat} (sleeps : s.driver = some (.asleep deadline))
    (runs : s.feed.stopping = false) (asked : s.hub.wake = true) :
    s.stride? = some (none, { s.withHub { s.hub with wake := false } with driver := some .looking }) := by
  simp [stride?, sleeps, step?, Driver.plan?, Driver.rest?, Driver.stop?, runs, Driver.rouse?, asked]

theorem stride_rings {time : Nat} (sleeps : s.driver = some (.asleep (some time)))
    (runs : s.feed.stopping = false) (quiet : s.hub.wake = false) (due : time ≤ s.hub.clock) :
    s.stride? = some (none, { s with driver := some .looking }) := by
  simp [stride?, sleeps, step?, Driver.plan?, Driver.rest?, Driver.stop?, runs, Driver.rouse?, quiet,
    Driver.ring?, due]

/-- A sleeping driver that nobody asks and whose time has not come does nothing. -/
theorem stride_sleeps {deadline : Option Nat} (sleeps : s.driver = some (.asleep deadline))
    (runs : s.feed.stopping = false) (quiet : s.hub.wake = false)
    (early : ∀ time, deadline = some time → s.hub.clock < time) : s.stride? = none := by
  cases deadline with
  | none =>
    simp [stride?, sleeps, step?, Driver.plan?, Driver.rest?, Driver.stop?, runs, Driver.rouse?, quiet,
      Driver.ring?]
  | some time =>
    simp [stride?, sleeps, step?, Driver.plan?, Driver.rest?, Driver.stop?, runs, Driver.rouse?, quiet,
      Driver.ring?, early time rfl]

theorem stride_absent (absent : s.driver = none ∨ s.driver = some .sending ∨ s.driver = some .stopped) :
    s.stride? = none := by
  rcases absent with driver | driver | driver <;>
    simp [stride?, driver, step?, Driver.plan?, Driver.rest?, Driver.stop?, Driver.rouse?, Driver.ring?]

/-- The strides of a driver, each with what makes it the next one. -/
inductive Strides (s : Service) : Option Event → Service → Prop
  | send {e hub} : s.driver = some .looking → s.hub.takeDue = (some e, hub) →
      Strides s (some e) (s.withHub (hub.broadcast e.message).2)
  | look {hub} : s.driver = some .looking → s.hub.takeDue = (none, hub) →
      Strides s none { s.withHub hub with driver := some .planning }
  | plan : s.driver = some .planning →
      Strides s none { s.withHub { s.hub with timeline := s.hub.timeline.nextTime.2 } with
        driver := some (.planned s.hub.timeline.nextTime.1) }
  | rest {deadline} : s.driver = some (.planned deadline) →
      Strides s none { s with driver := some (.asleep deadline) }
  | stop {deadline} : s.driver = some (.asleep deadline) → s.feed.stopping = true →
      Strides s none { s with driver := some .stopped }
  | rouse {deadline} : s.driver = some (.asleep deadline) → s.feed.stopping = false → s.hub.wake = true →
      Strides s none { s.withHub { s.hub with wake := false } with driver := some .looking }
  | ring {time} : s.driver = some (.asleep (some time)) → s.feed.stopping = false → s.hub.wake = false →
      time ≤ s.hub.clock → Strides s none { s with driver := some .looking }

/-- The cases cover what a stride computes. -/
theorem Strides.stride (strides : s.Strides sent next) : s.stride? = some (sent, next) := by
  cases strides with
  | send looks taken => exact stride_sends looks taken
  | look looks taken => exact stride_looks looks taken
  | plan plans => exact stride_plans plans
  | rest planned => exact stride_rests planned
  | stop sleeps stopping => exact stride_stops sleeps stopping
  | rouse sleeps runs asked => exact stride_rouses sleeps runs asked
  | ring sleeps runs quiet due => exact stride_rings sleeps runs quiet due

/-- Every stride is one of the cases. -/
theorem strides_of (strides : s.stride? = some (sent, next)) : s.Strides sent next := by
  suffices ∃ sent next, s.Strides sent next by
    obtain ⟨_, _, takes⟩ := this
    rw [takes.stride] at strides
    cases strides
    exact takes
  cases standing : s.driver with
  | none => simp [stride_absent (Or.inl standing)] at strides
  | some d =>
    cases d with
    | looking =>
      rcases taken : s.hub.takeDue with ⟨_ | e, after⟩
      · exact ⟨_, _, .look standing taken⟩
      · exact ⟨_, _, .send standing taken⟩
    | planning => exact ⟨_, _, .plan standing⟩
    | planned => exact ⟨_, _, .rest standing⟩
    | asleep deadline =>
      cases runs : s.feed.stopping with
      | true => exact ⟨_, _, .stop standing runs⟩
      | false =>
        cases asked : s.hub.wake with
        | true => exact ⟨_, _, .rouse standing runs asked⟩
        | false =>
          by_cases early : ∀ time, deadline = some time → s.hub.clock < time
          · simp [stride_sleeps standing runs asked early] at strides
          · simp only [not_forall, Nat.not_lt] at early
            obtain ⟨time, rfl, due⟩ := early
            exact ⟨_, _, .ring standing runs asked due⟩
    | sending => simp [stride_absent (Or.inr (Or.inl standing))] at strides
    | stopped => simp [stride_absent (Or.inr (Or.inr standing))] at strides

/-- Unless the driver looks for events its strides are single steps. -/
theorem Quiet.next_stride (quiet : s.Quiet) (waits : s.driver ≠ some .looking) :
    s.next? = s.stride?.map Prod.snd := by
  rw [quiet.next_eq, List.findSome?_cons, look_none waits, stride?, if_neg waits, Option.map_map]
  simp only [Function.comp_def, Option.map_id']

end Service

/-- A hub after its timeline was tidied up, or somebody saw that he was asked to look at it. -/
structure Hub.Tidied (h after : Hub) : Prop where
  rest : h.Rescheduled after
  run : h.Run [] after

theorem Hub.Tidied.timeline (tidied : h.Tidied after) (sound : h.timeline.Sound) :
    h.timeline.Agree after.timeline := by
  obtain ⟨kept, pending⟩ := tidied.run.timeline sound
  have numbers := congrArg List.length (tidied.run.postedIds sound)
  simp only [List.length_range, postedIds, List.filterMap_nil, List.reverse_nil, List.append_nil] at numbers
  exact ⟨sound, kept, pending, numbers⟩

/-- To look for what is due changes only the schedule. -/
theorem Hub.takeDue_rescheduled {e : Option Event} (taken : h.takeDue = (e, after)) : h.Rescheduled after := by
  obtain rfl : h.takeDue.2 = after := congrArg Prod.snd taken
  rfl

theorem Hub.takeDue_wake {e : Option Event} (taken : h.takeDue = (e, after)) : after.wake = h.wake := by
  obtain rfl : h.takeDue.2 = after := congrArg Prod.snd taken
  rfl

theorem Hub.takeDue_tidied (taken : h.takeDue = (none, after)) : h.Tidied after :=
  ⟨takeDue_rescheduled taken, Step.run (.rest taken)⟩

namespace Service

/-- A driver sends an event that is due, or it takes a step that changes nothing but itself and
how the events to come are kept. -/
theorem stride_cases (strides : s.stride? = some (sent, next)) :
    (∃ e after, s.driver = some .looking ∧ s.hub.takeDue = (some e, after) ∧ sent = some e ∧
      next = s.withHub (after.broadcast e.message).2) ∨
    (sent = none ∧ ∃ d after, d ≠ .sending ∧ (d = .stopped → s.feed.stopping = true) ∧ s.hub.Tidied after ∧
      next = { s.withHub after with driver := some d }) := by
  have still : s.hub.Tidied s.hub := ⟨rfl, .start⟩
  cases strides_of strides with
  | send looks taken => exact Or.inl ⟨_, _, looks, taken, rfl, rfl⟩
  | look _ taken => exact Or.inr ⟨rfl, .planning, _, nofun, nofun, Hub.takeDue_tidied taken, rfl⟩
  | plan =>
    have tidied : s.hub.Tidied { s.hub with timeline := s.hub.timeline.nextTime.2 } := ⟨rfl, Hub.Step.run .look⟩
    exact Or.inr ⟨rfl, .planned s.hub.timeline.nextTime.1, _, nofun, nofun, tidied, rfl⟩
  | @rest deadline => exact Or.inr ⟨rfl, .asleep deadline, s.hub, nofun, nofun, still, rfl⟩
  | stop _ stopping => exact Or.inr ⟨rfl, .stopped, s.hub, nofun, fun _ => stopping, still, rfl⟩
  | rouse =>
    have seen : Hub.Step s.hub none { s.hub with wake := false } := .aside rfl rfl
    exact Or.inr ⟨rfl, .looking, { s.hub with wake := false }, nofun, nofun, ⟨rfl, seen.run⟩, rfl⟩
  | ring => exact Or.inr ⟨rfl, .looking, s.hub, nofun, nofun, still, rfl⟩

/-- A driver that finds an event due asks for its broadcast, which ends before anything else
happens. -/
theorem Quiet.send_goes (quiet : s.Quiet) {e : Event} (prompt : after.Prompt) (looks : s.driver = some .looking)
    (taken : s.hub.takeDue = (some e, after)) :
    ∃ first, s.step? .look = some first ∧
      first.Goes (fun _ => True) (s.withHub (after.broadcast e.message).2) := by
  let call : Call := ⟨.driver, e.message⟩
  let asked : Service := { s.withHub after with
    driver := some .sending
    turns := ⟨some { call, frame := Frame.encode e.message, left := after.roster.entries }, []⟩ }
  have looked : s.step? .look = some asked := by
    simp [step?, looks, Driver.look?, taken, quiet.idle, Turns.ask, Turns.isIdle, Turns.start, asked, call]
  have goes := (pass_goes (s := asked) prompt rfl).weaken fun _ _ => trivial
  have back : ({ s.withHub (after.broadcast e.message).2 with
      turns := {}, driver := some .looking } : Service) = s.withHub (after.broadcast e.message).2 := by
    rw [← quiet.idle, ← looks]
    rfl
  exact ⟨asked, looked, back ▸ goes⟩

/-- A stride leads from a quiet service to a quiet service, step by step. -/
theorem Quiet.stride (quiet : s.Quiet) (strides : s.stride? = some (sent, next)) :
    next.Quiet ∧ ∃ first, s.next? = some first ∧ first.Goes (fun _ => True) next := by
  have cases := stride_cases strides
  by_cases looks : s.driver = some .looking
  · rcases taken : s.hub.takeDue with ⟨_ | e, after⟩
    all_goals have prompt : after.Prompt := (Hub.takeDue_rescheduled taken).prompt quiet.prompt
    · rw [stride_looks looks taken] at strides
      cases strides
      have sound := ((Hub.takeDue_tidied taken).timeline quiet.sound).right
      refine ⟨⟨quiet.idle, quiet.alone, nofun, prompt, sound⟩, _, ?_, .refl⟩
      have looked : s.step? .look = some { s.withHub after with driver := some .planning } := by
        simp [step?, looks, Driver.look?, taken, withHub]
      rw [quiet.next_eq, List.findSome?_cons, looked]
    · rw [stride_sends looks taken] at strides
      cases strides
      obtain ⟨first, looked, goes⟩ := quiet.send_goes prompt looks taken
      obtain ⟨_, _, _, kept, _⟩ := Timeline.takeDue_some quiet.sound (Hub.takeDue_eq taken).1
      have sound := (after.broadcast_grows e.message).sound kept
      refine ⟨⟨quiet.idle, quiet.alone, quiet.free, (prompt.broadcast e.message).1, sound⟩, first, ?_, goes⟩
      rw [quiet.next_eq, List.findSome?_cons, looked]
  · have first : s.next? = some next := by
      rw [quiet.next_stride looks, strides]
      rfl
    rcases cases with ⟨_, _, same, _⟩ | ⟨rfl, d, after, free, _, tidied, rfl⟩
    · exact absurd same looks
    · have prompt : after.Prompt := tidied.rest.prompt quiet.prompt
      have sound := (tidied.timeline quiet.sound).right
      refine ⟨⟨quiet.idle, quiet.alone, fun same => free (Option.some.inj same), prompt, sound⟩, _, first, .refl⟩

/-- A service without a stride has nothing to do. -/
theorem Quiet.stride_none (quiet : s.Quiet) (rests : s.stride? = none) : s.next? = none := by
  have waits : s.driver ≠ some .looking := by
    intro looks
    rcases taken : s.hub.takeDue with ⟨_ | e, after⟩
    · simp [stride_looks looks taken] at rests
    · simp [stride_sends looks taken] at rests
  rw [quiet.next_stride waits, rests]
  rfl

/-- A service goes on until a time, in strides of its driver. The events that it sends are given with
their times. -/
inductive Sleeps (time : Nat) : Service → List (Nat × Event) → Service → Prop
  | stride {s next t : Service} {sent fired} : s.stride? = some (sent, next) → Sleeps time next fired t →
      Sleeps time s (sent.toList.map (s.hub.clock, ·) ++ fired) t
  | wait {s t : Service} {alarm fired} : s.stride? = none → s.nextTime? = some alarm → alarm ≤ time →
      Sleeps time (s.moveClock alarm) fired t → Sleeps time s fired t
  | rest {s : Service} : s.stride? = none → (∀ alarm, s.nextTime? = some alarm → time < alarm) →
      Sleeps time s [] (s.moveClock time)

variable {keeps : Service → Prop} {fuel time : Nat} {fired : List (Nat × Event)}

/-- What a service does while time passes is determined. -/
theorem Sleeps.unique {t' : Service} {fired' : List (Nat × Event)} (sleeps : s.Sleeps time fired t)
    (again : s.Sleeps time fired' t') : fired' = fired ∧ t' = t := by
  induction sleeps generalizing fired' with
  | stride strides _ ih =>
    cases again with
    | stride also later =>
      rw [strides] at also
      cases also
      obtain ⟨rfl, rfl⟩ := ih later
      exact ⟨rfl, rfl⟩
    | wait rests | rest rests =>
      rw [strides] at rests
      cases rests
  | wait rests rings early _ ih =>
    cases again with
    | stride strides =>
      rw [rests] at strides
      cases strides
    | wait _ also _ later =>
      rw [rings] at also
      cases also
      exact ih later
    | rest _ late => exact absurd early (Nat.not_le_of_lt (late _ rings))
  | rest rests late =>
    cases again with
    | stride strides =>
      rw [rests] at strides
      cases strides
    | wait _ rings early => exact absurd early (Nat.not_le_of_lt (late _ rings))
    | rest => exact ⟨rfl, rfl⟩

/-- A service that goes on before time passes can sleep from where it gets to. -/
theorem sleepUntil_goes (goes : s.Goes keeps next) (sleeps : s.sleepUntil time fuel = some t) :
    ∃ less ≤ fuel, next.sleepUntil time less = some t := by
  induction goes using Relation.ReflTransGen.head_induction_on generalizing fuel with
  | refl => exact ⟨fuel, le_rfl, sleeps⟩
  | head step _ ih =>
    cases fuel with
    | zero => cases sleeps
    | succ fuel =>
      simp only [sleepUntil, step.2] at sleeps
      obtain ⟨less, bound, rest⟩ := ih sleeps
      exact ⟨less, Nat.le_succ_of_le bound, rest⟩

theorem sleepUntil_of_goes (goes : s.Goes keeps next) (sleeps : next.sleepUntil time fuel = some t) :
    ∃ more, s.sleepUntil time more = some t := by
  induction goes using Relation.ReflTransGen.head_induction_on with
  | refl => exact ⟨fuel, sleeps⟩
  | head step _ ih =>
    obtain ⟨more, rest⟩ := ih
    exact ⟨more + 1, by simpa only [sleepUntil, step.2] using rest⟩

theorem Quiet.moveClock (quiet : s.Quiet) (time : Nat) : (s.moveClock time).Quiet :=
  ⟨quiet.idle, quiet.alone, quiet.free, quiet.prompt, quiet.sound⟩

/-- A quiet service is quiet after any time. -/
theorem Sleeps.quiet (sleeps : s.Sleeps time fired t) (quiet : s.Quiet) : t.Quiet := by
  induction sleeps with
  | stride strides _ ih => exact ih (quiet.stride strides).1
  | wait _ _ _ _ ih => exact ih (quiet.moveClock _)
  | rest => exact quiet.moveClock _

/-- A quiet service sleeps in strides, and it comes to an end if they do. -/
theorem Quiet.sleeps_iff (quiet : s.Quiet) :
    (∃ fuel, s.sleepUntil time fuel = some t) ↔ ∃ fired, s.Sleeps time fired t := by
  constructor
  · rintro ⟨fuel, sleeps⟩
    induction fuel using Nat.strongRecOn generalizing s with
    | ind fuel ih =>
      cases fuel with
      | zero => cases sleeps
      | succ fuel =>
        cases strides : s.stride? with
        | some stride =>
          obtain ⟨sent, next⟩ := stride
          obtain ⟨kept, first, starts, goes⟩ := quiet.stride strides
          simp only [sleepUntil, starts] at sleeps
          obtain ⟨less, bound, rest⟩ := sleepUntil_goes goes sleeps
          obtain ⟨fired, later⟩ := ih less (Nat.lt_succ_of_le bound) kept rest
          exact ⟨_, .stride strides later⟩
        | none =>
          simp only [sleepUntil, quiet.stride_none strides] at sleeps
          split at sleeps
          · rename_i forever
            cases sleeps
            exact ⟨[], .rest strides (by simp [forever])⟩
          · rename_i alarm rings
            split at sleeps
            · rename_i early
              obtain ⟨fired, later⟩ := ih fuel (Nat.lt_succ_self _) (quiet.moveClock alarm) sleeps
              exact ⟨fired, .wait strides rings early later⟩
            · rename_i late
              cases sleeps
              refine ⟨[], .rest strides fun other same => ?_⟩
              rw [rings] at same
              cases same
              exact Nat.lt_of_not_le late
  · rintro ⟨fired, sleeps⟩
    induction sleeps with
    | stride strides _ ih =>
      obtain ⟨kept, first, starts, goes⟩ := quiet.stride strides
      obtain ⟨fuel, rest⟩ := ih kept
      obtain ⟨more, whole⟩ := sleepUntil_of_goes goes rest
      exact ⟨more + 1, by simpa only [sleepUntil, starts] using whole⟩
    | @wait s _ alarm _ strides rings early _ ih =>
      obtain ⟨fuel, rest⟩ := ih (quiet.moveClock alarm)
      exact ⟨fuel + 1, by simpa only [sleepUntil, quiet.stride_none strides, rings, if_pos early] using rest⟩
    | @rest s strides late =>
      refine ⟨1, ?_⟩
      simp only [sleepUntil, quiet.stride_none strides]
      split
      · rfl
      · rename_i alarm rings
        rw [if_neg (Nat.not_le_of_lt (late alarm rings))]

end Service

end LiveTiming
