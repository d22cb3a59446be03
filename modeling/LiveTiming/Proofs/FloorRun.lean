import LiveTiming.Proofs.PassHistory
import LiveTiming.Proofs.Passes

namespace LiveTiming

/-- The place where broadcasts and registrations meet: the broadcasts that were asked for,
the hub, and the numbers that were given out to be registered under later. -/
structure Floor where
  turns : Turns
  hub : Hub
  joining : List SubscriberId := []

/-- A step that somebody takes, and what happens in it. One broadcast at a time has its turn,
in any order, and is not given up before it ends. Who is called may take any time to answer.
Nobody is registered and no registration ends while a broadcast has subscribers to come to,
but between its last answer and its evictions they may. Time, subscribers and queues are
free to change. -/
inductive Floor.Step : Floor → Option Occurrence → Floor → Prop
  | queue {t h joining waiting} : Step ⟨t, h, joining⟩ none ⟨{ t with waiting }, h, joining⟩
  | begin {t h joining waiting call} : t.pass = none →
      Step ⟨t, h, joining⟩ (some (.began call)) ⟨{ t.start h call with waiting }, h, joining⟩
  | call {t h joining p e later time} : t.pass = some p → p.left = e :: later → p.heldUntil = none →
      Step ⟨t, h, joining⟩ (some (.called e p.frame))
        ⟨{ t with pass := some { p with heldUntil := some time } }, h, joining⟩
  | answer {t h joining p e later time answer after} : t.pass = some p → p.left = e :: later →
      p.heldUntil = some time → h.take e.subscriber p.frame = (answer, after) →
      Step ⟨t, h, joining⟩ (some (.answered e p.frame answer))
        ⟨{ t with pass := some { p with
          left := later, heldUntil := none, tally := p.tally.count e.id answer } }, after, joining⟩
  | conclude {t h joining p caller tally u after} : t.pass = some p →
      t.conclude? h = some (caller, tally, u, after) →
      Step ⟨t, h, joining⟩ (some (.ended p.call tally.evicted)) ⟨u, after, joining⟩
  | reserve {t h joining} : Step ⟨t, h, joining⟩ none ⟨t, h.reserve.2, h.reserve.1 :: joining⟩
  | enter {t h joining id subscriber after} : id ∈ joining → t.enter? h id subscriber = some after →
      Step ⟨t, h, joining⟩ (some (.entered ⟨id, subscriber⟩)) ⟨t, after, joining.erase id⟩
  | remove {t h joining id removed after} : t.remove? h id = some (removed, after) →
      Step ⟨t, h, joining⟩ (some (.removed id)) ⟨t, after, joining⟩
  | aside {t h joining after} : after.roster = h.roster → after.journal = h.journal →
      Step ⟨t, h, joining⟩ none ⟨t, after, joining⟩

/-- Any number of steps, with what happened in them, the latest first. -/
inductive Floor.Run (start : Floor) : List Occurrence → Floor → Prop
  | start : Run start [] start
  | next {past f new g} : Run start past f → Step f new g → Run start (new.toList ++ past) g

/-- The numbers that are registered or will be are distinct, and none is given out again. -/
structure Floor.Sound (f : Floor) : Prop where
  distinct : (f.hub.roster.ids ++ f.joining).Nodup
  issued : ∀ id ∈ f.hub.roster.ids ++ f.joining, id.number < f.hub.roster.nextId

/-- A broadcast under way stands where the past says. -/
structure Pass.Agrees (entries : List Entry) (past : List Occurrence) (p : Pass) : Prop where
  underway : underway past = some p.call
  frame : p.frame = Frame.encode p.call.message
  evicted : p.tally.evicted = lost past
  free : p.heldUntil = none → calling past = none ∧ reached past ++ p.left = audience entries past
  waits : ∀ time, p.heldUntil = some time → ∃ e later, p.left = e :: later ∧
    calling past = some (e, p.frame) ∧ reached past ++ later = audience entries past

/-- Everything stands where the past says that started with the given registrations. -/
structure Floor.Agrees (entries : List Entry) (past : List Occurrence) (f : Floor) : Prop where
  registered : registeredAfter entries past = f.hub.roster.entries
  distinct : ((joined entries past).map (·.id) ++ f.joining).Nodup
  issued : ∀ id ∈ (joined entries past).map (·.id) ++ f.joining, id.number < f.hub.roster.nextId
  idle : f.turns.pass = none → underway past = none ∧ Settled entries past
  busy : ∀ p, f.turns.pass = some p → p.Agrees entries past

/-- Who was given what, in turn. -/
def Hub.deliveries (h : Hub) : List (Nat × Bytes) :=
  h.journal.toList.map fun d => (d.subscriber, d.frame)

variable {entries : List Entry} {past more : List Occurrence} {f g k start now : Floor}
  {new : Option Occurrence} {t u : Turns} {h after : Hub}

theorem Floor.Step.run (step : Step f new g) : Run f new.toList g := by
  simpa using Run.start.next step

theorem Floor.Run.trans (run : f.Run past g) (later : g.Run more k) : f.Run (more ++ past) k := by
  induction later with
  | start => exact run
  | next _ step ih =>
    rw [List.append_assoc]
    exact ih.next step

theorem Turns.enter_eq {id : SubscriberId} {subscriber : Nat}
    (enters : t.enter? h id subscriber = some after) :
    t.isDelivering = false ∧ after = h.enter id subscriber := by
  unfold enter? at enters
  split at enters
  · cases enters
  · rename_i free
    exact ⟨by simpa using free, (Option.some.inj enters).symm⟩

theorem Turns.remove_eq {id : SubscriberId} {removed : Bool}
    (removes : t.remove? h id = some (removed, after)) :
    t.isDelivering = false ∧ after = (h.remove id).2 := by
  unfold remove? at removes
  split at removes
  · cases removes
  · rename_i free
    exact ⟨by simpa using free, (congrArg Prod.snd (Option.some.inj removes)).symm⟩

theorem Turns.conclude_eq {p : Pass} {caller : Caller} {tally : Tally} (busy : t.pass = some p)
    (concludes : t.conclude? h = some (caller, tally, u, after)) :
    p.left = [] ∧ tally = p.tally ∧ u = { t with pass := none } ∧
      after = { h with roster := h.roster.evict p.tally.evicted } := by
  unfold conclude? at concludes
  rw [busy] at concludes
  dsimp only at concludes
  split at concludes
  · rename_i finished
    cases concludes
    exact ⟨List.isEmpty_iff.mp finished, rfl, rfl, rfl⟩
  · cases concludes

/-- A broadcast under way is never stuck: it ends, or it comes to its next subscriber, if need
be when some time has passed. -/
theorem Turns.goes_on {p : Pass} (busy : t.pass = some p) (h : Hub) :
    (t.conclude? h).isSome = true ∨ ∃ time, (t.visit? (h.moveClock time)).isSome = true := by
  cases left : p.left with
  | nil => exact Or.inl (by simp [conclude?, busy, left])
  | cons e later =>
    refine Or.inr ⟨p.heldUntil.getD 0, ?_⟩
    cases held : p.heldUntil with
    | none =>
      simp only [visit?, busy, left, held]
      split <;> rfl
    | some time =>
      have due : time ≤ (h.moveClock time).clock := le_max_right _ _
      simp [visit?, busy, left, held, due]

namespace Floor

theorem Sound.agrees (sound : start.Sound) (idle : start.turns.pass = none) :
    start.Agrees start.hub.roster.entries [] where
  registered := rfl
  distinct := sound.distinct
  issued := sound.issued
  idle _ := ⟨rfl, rfl, rfl⟩
  busy p busy := absurd (idle.symm.trans busy) (by simp)

/-- A broadcast has come to everybody and waits for nobody, or none is under way. -/
theorem Agrees.settled (agrees : f.Agrees entries past) (free : f.turns.isDelivering = false) :
    Settled entries past := by
  cases pass : f.turns.pass with
  | none => exact (agrees.idle pass).2
  | some p =>
    have finished : p.left = [] := by simpa [Turns.isDelivering, pass] using free
    have busy := agrees.busy p pass
    cases held : p.heldUntil with
    | none =>
      obtain ⟨calls, all⟩ := busy.free held
      rw [finished, List.append_nil] at all
      exact ⟨calls, all⟩
    | some time =>
      obtain ⟨_, _, left, _⟩ := busy.waits time held
      rw [finished] at left
      cases left

/-- What a broadcast does next does not depend on what the registrations come to. -/
theorem Agrees.pass_kept {x : Occurrence} (agrees : f.Agrees entries past)
    (same : underway (x :: past) = underway past ∧ calling (x :: past) = calling past ∧
      reached (x :: past) = reached past ∧ audience entries (x :: past) = audience entries past ∧
      lost (x :: past) = lost past) :
    (f.turns.pass = none → underway (x :: past) = none ∧ Settled entries (x :: past)) ∧
      ∀ p, f.turns.pass = some p → p.Agrees entries (x :: past) := by
  obtain ⟨under, calls, reach, listeners, gone⟩ := same
  refine ⟨fun none => ?_, fun p some => ?_⟩
  · rw [under, Settled, calls, reach, listeners]
    exact agrees.idle none
  · have busy := agrees.busy p some
    refine ⟨under.trans busy.underway, busy.frame, busy.evicted.trans gone.symm, ?_, ?_⟩
    · rw [calls, reach, listeners]
      exact busy.free
    · rw [calls, reach, listeners]
      exact busy.waits

theorem reserve_agrees {joining : List SubscriberId} (agrees : (Floor.mk t h joining).Agrees entries past) :
    (Floor.mk t h.reserve.2 (h.reserve.1 :: joining)).Agrees entries past := by
  obtain ⟨registered, distinct, issued, idle, busy⟩ := agrees
  refine ⟨registered, ?_, fun id member => ?_, idle, busy⟩
  · refine (List.perm_middle.nodup_iff).mpr (List.nodup_cons.mpr ⟨fun old => ?_, distinct⟩)
    exact Nat.lt_irrefl _ (issued _ old)
  · rcases List.mem_cons.mp (List.perm_middle.subset member) with rfl | old
    · exact Nat.lt_succ_self _
    · exact (issued id old).trans (Nat.lt_succ_self _)

theorem enter_agrees {joining : List SubscriberId} {id : SubscriberId} {subscriber : Nat}
    (agrees : (Floor.mk t h joining).Agrees entries past) (given : id ∈ joining) :
    (Floor.mk t (h.enter id subscriber) (joining.erase id)).Agrees entries
      (.entered ⟨id, subscriber⟩ :: past) := by
  have kept := agrees.pass_kept (x := .entered ⟨id, subscriber⟩) ⟨rfl, rfl, rfl, rfl, rfl⟩
  have same : ((joined entries (.entered ⟨id, subscriber⟩ :: past)).map (·.id) ++ joining.erase id).Perm
      ((joined entries past).map (·.id) ++ joining) := by
    rw [joined, List.map_append, List.append_assoc]
    exact (List.perm_cons_erase given).symm.append_left _
  refine ⟨?_, same.nodup_iff.mpr agrees.distinct, fun other member => ?_, kept.1, kept.2⟩
  · rw [registeredAfter, agrees.registered]
    rfl
  · exact agrees.issued other (same.subset member)

/-- A step does what the past allows, and the past with it says where everything stands then. -/
theorem Step.agrees (step : Step f new g) (agrees : f.Agrees entries past) :
    (∀ x ∈ new, x.Follows entries past) ∧ g.Agrees entries (new.toList ++ past) := by
  cases step with
  | queue => exact ⟨nofun, agrees.registered, agrees.distinct, agrees.issued, agrees.idle, agrees.busy⟩
  | aside roster =>
    refine ⟨nofun, ?_, agrees.distinct, ?_, agrees.idle, agrees.busy⟩
    · exact agrees.registered.trans (by rw [roster])
    · rw [roster]
      exact agrees.issued
  | reserve => exact ⟨nofun, reserve_agrees agrees⟩
  | enter given enters =>
    obtain ⟨free, rfl⟩ := Turns.enter_eq enters
    refine ⟨?_, enter_agrees agrees given⟩
    rintro _ ⟨⟩
    -- The number was still to be registered under, so nobody ever was.
    exact ⟨agrees.settled free, fun old => List.disjoint_of_nodup_append agrees.distinct old given⟩
  | @remove _ _ _ id _ _ removes =>
    obtain ⟨free, rfl⟩ := Turns.remove_eq removes
    have kept := agrees.pass_kept (x := .removed id) ⟨rfl, rfl, rfl, rfl, rfl⟩
    refine ⟨?_, ?_, agrees.distinct, agrees.issued, kept.1, kept.2⟩
    · rintro _ ⟨⟩
      exact agrees.settled free
    · exact congrArg (List.filter (·.id != id)) agrees.registered
  | @begin _ _ _ _ call idle =>
    refine ⟨?_, agrees.registered, agrees.distinct, agrees.issued, nofun, ?_⟩
    · rintro _ ⟨⟩
      exact (agrees.idle idle).1
    · rintro _ ⟨⟩
      exact ⟨rfl, rfl, rfl, fun _ => ⟨rfl, agrees.registered.symm⟩, nofun⟩
  | @call _ _ _ p e later time busy left free =>
    obtain ⟨underway, frame, evicted, isFree, _⟩ := agrees.busy p busy
    obtain ⟨calls, all⟩ := isFree free
    have next : reached past ++ [e] ++ later = audience entries past := by
      rw [← all, left, List.append_assoc, List.singleton_append]
    refine ⟨?_, agrees.registered, agrees.distinct, agrees.issued, nofun, ?_⟩
    · rintro _ ⟨⟩
      exact ⟨calls, ⟨later, next⟩, p.call, underway, frame⟩
    · rintro _ ⟨⟩
      exact ⟨underway, frame, evicted, nofun, fun _ _ => ⟨e, later, left, rfl, next⟩⟩
  | @answer _ _ _ p e later time answer after busy left held takes =>
    obtain ⟨underway, frame, evicted, _, waits⟩ := agrees.busy p busy
    obtain ⟨_, _, split, calls, all⟩ := waits time held
    obtain ⟨rfl, rfl⟩ := List.cons.inj (left.symm.trans split)
    have roster : after.roster = _ := (congrArg (·.2.roster) takes).symm.trans (Hub.take_roster _ _ _)
    refine ⟨?_, ?_, agrees.distinct, ?_, nofun, ?_⟩
    · rintro _ ⟨⟩
      exact calls
    · exact agrees.registered.trans (by rw [roster])
    · rw [roster]
      exact agrees.issued
    · rintro _ ⟨⟩
      refine ⟨underway, frame, ?_, fun _ => ⟨rfl, all⟩, nofun⟩
      rw [Tally.count_evicted, evicted]
      rfl
  | @conclude t _ _ p _ _ _ _ busy concludes =>
    obtain ⟨finished, rfl, rfl, rfl⟩ := Turns.conclude_eq busy concludes
    obtain ⟨underway, _, evicted, _, _⟩ := agrees.busy p busy
    have free : t.isDelivering = false := by simp [Turns.isDelivering, busy, finished]
    refine ⟨?_, ?_, agrees.distinct, agrees.issued, fun _ => ⟨rfl, rfl, rfl⟩, nofun⟩
    · rintro _ ⟨⟩
      exact ⟨agrees.settled free, underway, evicted⟩
    · exact congrArg (List.filter _) agrees.registered

theorem Run.agrees (run : start.Run past now) (sound : start.Sound) (idle : start.turns.pass = none) :
    Orderly start.hub.roster.entries past ∧ now.Agrees start.hub.roster.entries past := by
  induction run with
  | start => exact ⟨trivial, sound.agrees idle⟩
  | @next past f new g _ step ih =>
    obtain ⟨follows, agrees⟩ := step.agrees ih.2
    cases new with
    | none => exact ⟨ih.1, agrees⟩
    | some x => exact ⟨⟨follows x rfl, ih.1⟩, agrees⟩

/-- A number of subscribers who are registered in turn are a sound start. -/
theorem sound_ofCount {count : Nat} (counted : h.roster = .ofCount count) :
    (Floor.mk t h []).Sound := by
  have ids : h.roster.ids ++ [] = (List.range count).map fun i => ⟨i + 1⟩ := by
    simp [counted, Roster.ofCount, Roster.ids]
  constructor <;> rw [ids]
  · exact List.nodup_range.map fun i j same => Nat.succ.inj (SubscriberId.mk.inj same)
  · rw [counted]
    rintro _ member
    obtain ⟨i, inRange, rfl⟩ := List.mem_map.mp member
    exact Nat.succ_lt_succ (List.mem_range.mp inRange)

theorem Step.deliveries (step : Step f new g) :
    g.hub.deliveries = f.hub.deliveries ++ given new.toList := by
  cases step with
  | queue | begin | call | reserve => exact (List.append_nil _).symm
  | aside _ journal => simp [Hub.deliveries, journal, given]
  | enter _ enters =>
    obtain ⟨_, rfl⟩ := Turns.enter_eq enters
    exact (List.append_nil _).symm
  | remove removes =>
    obtain ⟨_, rfl⟩ := Turns.remove_eq removes
    exact (List.append_nil _).symm
  | conclude busy concludes =>
    obtain ⟨_, _, _, rfl⟩ := Turns.conclude_eq busy concludes
    exact (List.append_nil _).symm
  | @answer _ h _ p e _ _ _ after _ _ _ takes =>
    have journal : after.journal = h.journal.push ⟨e.subscriber, h.clock, p.frame⟩ :=
      (congrArg (·.2.journal) takes).symm.trans (Hub.take_journal _ _ _)
    simp [Hub.deliveries, journal, given, Occurrence.given?]

theorem Run.deliveries (run : start.Run past now) :
    now.hub.deliveries = start.hub.deliveries ++ given past := by
  induction run with
  | start => exact (List.append_nil _).symm
  | next _ step ih => rw [step.deliveries, ih, given_append, List.append_assoc]

/-- Broadcasts take turns. A broadcast calls those who are registered when it begins, each
once and in the order of their registrations, and nobody else, before it ends. So the
messages have one order, and whoever is registered is called with all of them whose
broadcasts begin between the registration and its end, in that order, but for one that
has not come to the subscriber yet. Nobody is called after the end of the registration,
nor after an answer that says the subscriber is gone. -/
theorem broadcasts_take_turns (sound : start.Sound) (idle : start.turns.pass = none)
    (run : start.Run past now) :
    let entries := start.hub.roster.entries
    (now.hub.roster.entries = registeredAfter entries past ∧
      now.hub.deliveries = start.hub.deliveries ++ given past ∧
      ((joined entries past).map (·.id)).Nodup ∧ Orderly entries past) ∧
    (∀ later during call earlier, past = later ++ (during ++ .began call :: earlier) →
      (∀ x ∈ during, ∀ c evicted, x ≠ .ended c evicted) →
      (∀ c, .began c ∉ during) ∧ callees during <+: registeredAfter entries earlier ∧
      (∀ e frame, .called e frame ∈ during → frame = Frame.encode call.message) ∧
      ∀ c evicted, later.getLast? = some (.ended c evicted) →
        c = call ∧ callees during = registeredAfter entries earlier) ∧
    (∀ later during earlier e, past = later ++ during ++ earlier → Joins entries e earlier →
      (∀ x ∈ during, ¬x.Ends e.id) → (∀ x, later.getLast? = some x → x.Ends e.id) →
      heard e.id past ++ awaited entries e past = (sent during).map Frame.encode) ∧
    (∀ later x earlier id, past = later ++ x :: earlier → x.Ends id →
      id ∈ (joined entries earlier).map (·.id) → heard id later = []) ∧
    ∀ later e frame refusal earlier, past = later ++ .answered e frame (some refusal) :: earlier →
      refusal.isFinal = true → heard e.id later = [] := by
  intro entries
  obtain ⟨orderly, agrees⟩ := run.agrees sound idle
  have distinct : (entries.map (·.id)).Nodup := sound.distinct.of_append_left
  have nodup := joined_nodup orderly distinct
  refine ⟨⟨agrees.registered.symm, run.deliveries, nodup, orderly⟩, ?_, ?_, ?_, ?_⟩
  · rintro later during call earlier rfl lasts
    obtain ⟨busy, listeners, calls, single, frames⟩ := pass_calls orderly.of_append lasts
    refine ⟨single, ?_, frames, fun c evicted closes => ?_⟩
    · rw [← calls, ← listeners]
      exact reached_first orderly.of_append
    · obtain ⟨more, rfl⟩ := List.getLast?_eq_some_iff.mp closes
      rw [List.append_assoc, List.singleton_append] at orderly
      obtain ⟨⟨_, all⟩, under, _⟩ := orderly.of_append.1
      rw [calls, listeners] at all
      exact ⟨Option.some.inj (under.symm.trans busy), all⟩
  · rintro later during earlier e rfl joins stays leaves
    exact heard_stretch orderly distinct joins stays leaves
  · rintro later x earlier id rfl ends known
    exact silent_after_end orderly ends known
  · rintro later e frame refusal earlier rfl final
    exact silent_after_loss orderly distinct final

/-- A subscriber who answers the first of two broadcasts that it is gone is evicted when that
ends, and one who is registered before that only hears the second. -/
theorem late_joiner_hears_the_rest :
    let gone : Script := ⟨fun _ => 5, fun _ _ => [], fun _ => some .closed⟩
    let start : Floor := ⟨{}, { subscribers := #[.watcher gone 0, .log], roster := .ofCount 1 }, []⟩
    let first : Call := ⟨.driver, .raw "first"⟩
    let second : Call := ⟨.operator, .raw "second"⟩
    let a := Frame.encode first.message
    let b := Frame.encode second.message
    ∃ past now, start.Sound ∧ start.turns.pass = none ∧ start.Run past now ∧
      now.hub.roster.entries = [⟨⟨2⟩, 1⟩] ∧ now.hub.deliveries = [(0, a), (1, b)] ∧
      heard ⟨1⟩ past = [a] ∧ heard ⟨2⟩ past = [b] := by
  intro gone start first second a b
  let early : Entry := ⟨⟨1⟩, 0⟩
  let late : Entry := ⟨⟨2⟩, 1⟩
  let told : Hub := { start.hub with
    subscribers := #[.watcher gone 1, .log], journal := #[⟨0, 0, a⟩] }
  let both : Hub := { told with roster := ⟨[early, late], 3⟩ }
  let left : Hub := { told with roster := ⟨[late], 3⟩ }
  let pass : Pass := ⟨first, a, [early], none, {}⟩
  let finished : Pass := ⟨first, a, [], none, { evicted := [⟨1⟩] }⟩
  let next : Pass := ⟨second, b, [late], none, {}⟩
  have run : start.Run [.began first] ⟨{ pass, waiting := [second] }, start.hub, []⟩ :=
    Run.start.next (.begin rfl)
  have run : start.Run [.called early a, .began first]
      ⟨{ pass := some { pass with heldUntil := some 5 }, waiting := [second] }, start.hub, []⟩ :=
    run.next (.call rfl rfl rfl)
  have run : start.Run [.answered early a (some .closed), .called early a, .began first]
      ⟨{ pass := finished, waiting := [second] }, told, []⟩ :=
    run.next (.answer rfl rfl rfl rfl)
  have run : start.Run [.entered late, .answered early a (some .closed), .called early a, .began first]
      ⟨{ pass := finished, waiting := [second] }, both, []⟩ :=
    (run.next .reserve).next (.enter (.head _) rfl)
  have run : start.Run [.ended first [⟨1⟩], .entered late, .answered early a (some .closed),
      .called early a, .began first] ⟨{ waiting := [second] }, left, []⟩ :=
    run.next (.conclude rfl rfl)
  have run : start.Run [.began second, .ended first [⟨1⟩], .entered late,
      .answered early a (some .closed), .called early a, .began first] ⟨{ pass := next }, left, []⟩ :=
    run.next (.begin rfl)
  have run : start.Run [.called late b, .began second, .ended first [⟨1⟩], .entered late,
      .answered early a (some .closed), .called early a, .began first]
      ⟨{ pass := some { next with heldUntil := some 0 } }, left, []⟩ :=
    run.next (.call rfl rfl rfl)
  have run := run.next (.answer rfl rfl rfl rfl)
  have sound : start.Sound := sound_ofCount rfl
  refine ⟨_, _, sound, rfl, run, ?_⟩
  obtain ⟨⟨registered, deliveries, _, _⟩, _, stretches, _, _⟩ := broadcasts_take_turns sound rfl run
  refine ⟨registered.trans rfl, deliveries.trans rfl, ?_, ?_⟩
  · have heard := stretches [.answered late b none, .called late b, .began second, .ended first [⟨1⟩]]
      [.entered late, .answered early a (some .closed), .called early a, .began first] [] early rfl
      (.head _) (by simp [Occurrence.Ends]) (by simp [Occurrence.Ends, early])
    exact (List.append_nil _).symm.trans heard
  · have heard := stretches [] [.answered late b none, .called late b, .began second, .ended first [⟨1⟩]]
      [.entered late, .answered early a (some .closed), .called early a, .began first] late rfl rfl
      (by simp [Occurrence.Ends, late]) (by simp)
    exact (List.append_nil _).symm.trans heard

end Floor

end LiveTiming
