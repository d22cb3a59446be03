import LiveTiming.Proofs.QueueHistory

namespace LiveTiming

/-- The subscriber after it was given a frame so many times. -/
def Subscriber.afterTaking (s : Subscriber) (frame : Bytes) (times : Nat) : Subscriber :=
  (fun s => (s.take frame).2)^[times] s

/-- What the subscriber with an index answers to a frame that it was given so many times before. One who
is not known is gone. -/
def Hub.answer (h : Hub) (frame : Bytes) (subscriber times : Nat) : Option Refusal :=
  match h.subscribers[subscriber]? with
  | none => some .closed
  | some s => ((s.afterTaking frame times).take frame).1

/-- The answers to a frame that goes round to some registrations, when it has been to others before. Each
is the answer of one subscriber, who may have been given the frame under another number. -/
def Hub.answersAfter (h : Hub) (frame : Bytes) (earlier : List Entry) :
    List Entry → List (Entry × Option Refusal)
  | [] => []
  | e :: later =>
    (e, h.answer frame e.subscriber (earlier.countP (·.subscriber = e.subscriber))) ::
      answersAfter h frame (earlier ++ [e]) later

/-- The answers to a frame that goes round. -/
def Hub.answers (h : Hub) (frame : Bytes) (entries : List Entry) : List (Entry × Option Refusal) :=
  h.answersAfter frame [] entries

/-- The number of a registration whose subscriber answers that its reader is gone or that the frame
cannot be written. -/
def departing? : Entry × Option Refusal → Option SubscriberId
  | (e, some .closed) | (e, some (.failed _)) => some e.id
  | (_, none) | (_, some .full) => none

/-- A report that counts some answers: the frames that were taken, those that found a queue full, and
the registrations of those who are gone, in turn. -/
structure Tally.Reports (answers : List (Entry × Option Refusal)) (tally : Tally) : Prop where
  delivered : tally.delivered = answers.countP (·.2 = none)
  dropped : tally.dropped = answers.countP (·.2 = some .full)
  evicted : tally.evicted = answers.filterMap departing?
  total : tally.delivered + tally.dropped + tally.evicted.length = answers.length

/-- A hub while a frame goes round: whoever is among `earlier` has been given it as often as it stands
there, and nobody else has changed. -/
def Hub.Midway (frame : Bytes) (earlier : List Entry) (h now : Hub) : Prop :=
  ∀ i : Nat, now.subscribers[i]? =
    h.subscribers[i]?.map (·.afterTaking frame (earlier.countP (·.subscriber = i)))

variable {h now after : Hub} {frame : Bytes} {earlier entries : List Entry} {e : Entry}

theorem Subscriber.afterTaking_succ (s : Subscriber) (frame : Bytes) (times : Nat) :
    s.afterTaking frame (times + 1) = ((s.afterTaking frame times).take frame).2 :=
  Function.iterate_succ_apply' _ times s

theorem Subscriber.afterTaking_watcher (script : Script) (deliveries : Nat) (frame : Bytes) (times : Nat) :
    (Subscriber.watcher script deliveries).afterTaking frame times = .watcher script (deliveries + times) := by
  induction times with
  | zero => rfl
  | succ times ih =>
    rw [afterTaking_succ, ih]
    rfl

theorem Entry.countP_append (earlier : List Entry) (e : Entry) (i : Nat) :
    (earlier ++ [e]).countP (·.subscriber = i) =
      earlier.countP (·.subscriber = i) + if e.subscriber = i then 1 else 0 := by
  rw [List.countP_append, List.countP_singleton]
  simp

namespace Hub

theorem Midway.start (h : Hub) (frame : Bytes) : Midway frame [] h h :=
  fun _ => Option.map_id'.symm

/-- A subscriber is given the frame. It answers by itself, and nobody else changes. -/
theorem Midway.take (midway : Midway frame earlier h now) (e : Entry) :
    (now.take e.subscriber frame).1 =
        h.answer frame e.subscriber (earlier.countP (·.subscriber = e.subscriber)) ∧
      Midway frame (earlier ++ [e]) h (now.take e.subscriber frame).2 := by
  have own := midway e.subscriber
  cases known : h.subscribers[e.subscriber]? with
  | none =>
    rw [known] at own
    rw [take_unknown own, answer, known]
    refine ⟨rfl, fun i => ?_⟩
    by_cases same : e.subscriber = i
    · subst same
      rw [known]
      exact own
    · rw [Entry.countP_append, if_neg same]
      exact midway i
  | some s =>
    rw [known] at own
    rw [take_known own, answer, known]
    refine ⟨rfl, fun i => ?_⟩
    rw [postAll_subscribers, Entry.countP_append]
    by_cases same : e.subscriber = i
    · subst same
      have within : e.subscriber < now.subscribers.size := (Array.getElem?_eq_some_iff.mp own).1
      rw [if_pos rfl, Array.getElem?_setIfInBounds_self_of_lt within, known, Option.map_some,
        Subscriber.afterTaking_succ]
    · rw [if_neg same, Array.getElem?_setIfInBounds_ne same]
      exact midway i

/-- Whoever is left gives the answer that is its own, and the report counts it. -/
theorem Midway.tally (midway : Midway frame earlier h now) (entries : List Entry)
    (answered : List (Entry × Option Refusal)) :
    (entries.foldl (deliver frame) (.of answered, now)).1 =
      .of (answered ++ h.answersAfter frame earlier entries) := by
  induction entries generalizing earlier now answered with
  | nil =>
    rw [answersAfter, List.append_nil]
    rfl
  | cons e later ih =>
    have waited : Midway frame earlier h (now.moveClock (now.clock + now.hold e.subscriber)) := midway
    obtain ⟨answers, next⟩ := waited.take e
    rw [List.foldl_cons, deliver_eq, answers, ← Tally.of_append, ih next, answersAfter, List.append_assoc,
      List.singleton_append]

theorem broadcast_tally (h : Hub) (m : Message) :
    (h.broadcast m).1 = .of (h.answers (Frame.encode m) h.roster.entries) :=
  (Midway.start h (Frame.encode m)).tally h.roster.entries []

theorem broadcast_roster (h : Hub) (m : Message) :
    (h.broadcast m).2.roster = h.roster.evict (h.broadcast m).1.evicted := by
  have kept := deliverAll_roster (Frame.encode m) h.roster.entries {} h
  exact congrArg (Roster.evict · _) kept

/-- Everybody is given the frame once, in turn, whatever anybody answers. -/
theorem deliverAll_deliveries (frame : Bytes) (entries : List Entry) (tally : Tally) (h : Hub) :
    (entries.foldl (deliver frame) (tally, h)).2.deliveries =
      h.deliveries ++ entries.map fun e => (e.subscriber, frame) := by
  induction entries generalizing tally h with
  | nil => exact (List.append_nil _).symm
  | cons e later ih =>
    have first : (deliver frame (tally, h) e).2.deliveries = h.deliveries ++ [(e.subscriber, frame)] := by
      rw [deliver_eq, deliveries, take_journal, Array.toList_push, List.map_append]
      rfl
    rw [List.foldl_cons, List.map_cons, List.append_cons, ← first]
    exact ih _ _

theorem answersAfter_fst (h : Hub) (frame : Bytes) (earlier entries : List Entry) :
    (h.answersAfter frame earlier entries).map Prod.fst = entries := by
  induction entries generalizing earlier with
  | nil => rfl
  | cons e later ih => exact congrArg (e :: ·) (ih _)

theorem answers_fst (h : Hub) (frame : Bytes) (entries : List Entry) :
    (h.answers frame entries).map Prod.fst = entries :=
  h.answersAfter_fst frame [] entries

end Hub

theorem departing_eq (reply : Entry × Option Refusal) :
    departing? reply = if reply.2.any (·.isFinal) then some reply.1.id else none := by
  obtain ⟨e, _ | _ | _ | _⟩ := reply <;> rfl

theorem departing_id {reply : Entry × Option Refusal} {id : SubscriberId} (leaves : departing? reply = some id) :
    reply.1.id = id := by
  rw [departing_eq] at leaves
  split at leaves
  · exact Option.some.inj leaves
  · cases leaves

namespace Tally

/-- The number of answers that a report counts. -/
def total (t : Tally) : Nat :=
  t.delivered + t.dropped + t.evicted.length

theorem count_total (t : Tally) (id : SubscriberId) (answer : Option Refusal) :
    (t.count id answer).total = t.total + 1 := by
  cases answer with
  | none =>
    simp only [count, total]
    omega
  | some refusal =>
    cases final : refusal.isFinal <;>
      simp only [count, final, total, if_true, if_false, Bool.false_eq_true, List.length_append,
        List.length_singleton]
    all_goals omega

theorem of_total (answers : List (Entry × Option Refusal)) : (Tally.of answers).total = answers.length := by
  induction answers using List.reverseRecOn with
  | nil => rfl
  | append_singleton answered reply ih =>
    rw [of_append answered reply.1 reply.2, count_total, ih, List.length_append]
    rfl

theorem of_reports (answers : List (Entry × Option Refusal)) : (Tally.of answers).Reports answers where
  delivered := List.countP_congr fun reply _ => by simp
  dropped := by
    refine List.countP_congr fun reply _ => ?_
    obtain ⟨e, _ | _ | _ | _⟩ := reply <;> simp [Refusal.isFinal]
  evicted := by
    rw [Tally.of, ← List.filterMap_eq_map, List.filterMap_filter]
    exact List.filterMap_congr fun reply _ => (departing_eq reply).symm
  total := of_total answers

end Tally

/-- Where no two registrations have one number, those whose subscribers are not gone stay. -/
theorem filter_departing {answers : List (Entry × Option Refusal)} (distinct : (answers.map (·.1.id)).Nodup) :
    (answers.map Prod.fst).filter (·.id ∉ answers.filterMap departing?) =
      (answers.filter (departing? · = none)).map Prod.fst := by
  rw [List.filter_map]
  refine congrArg _ (List.filter_congr fun reply answered => ?_)
  refine decide_eq_decide.mpr ⟨fun stays => ?_, fun stays leaves => ?_⟩
  · cases gone : departing? reply with
    | none => rfl
    | some id =>
      obtain rfl := departing_id gone
      exact absurd (List.mem_filterMap.mpr ⟨reply, answered, gone⟩) stays
  · obtain ⟨other, listed, gone⟩ := List.mem_filterMap.mp leaves
    have same : other = reply := List.inj_on_of_nodup_map distinct listed answered (departing_id gone)
    rw [← same, gone] at stays
    cases stays

/-- The answers of the subscriber with an index, in turn. -/
def answersOf (i : Nat) (answers : List (Entry × Option Refusal)) : List (Option Refusal) :=
  (answers.filter (·.1.subscriber = i)).map Prod.snd

/-- A subscriber who gives some answers in turn, and then takes every frame. -/
def Subscriber.scripted (answers : List (Option Refusal)) : Subscriber :=
  .watcher ⟨fun _ => 0, fun _ _ => [], fun n => answers[n]?.getD none⟩ 0

theorem answersOf_next (earlier later : List (Entry × Option Refusal)) (e : Entry) (answer : Option Refusal) :
    (answersOf e.subscriber (earlier ++ (e, answer) :: later))[(earlier.map Prod.fst).countP
      (·.subscriber = e.subscriber)]? = some answer := by
  have before : (answersOf e.subscriber earlier).length =
      (earlier.map Prod.fst).countP (·.subscriber = e.subscriber) := by
    rw [answersOf, List.length_map, ← List.countP_eq_length_filter, List.countP_map]
    rfl
  have parts : answersOf e.subscriber (earlier ++ (e, answer) :: later) =
      answersOf e.subscriber earlier ++ answer :: answersOf e.subscriber later := by
    simp [answersOf]
  rw [parts, ← before, List.getElem?_append_right le_rfl, Nat.sub_self]
  rfl

namespace Hub

/-- Where everybody follows a script for all his turns, those are the answers. -/
theorem answersAfter_scripted {earlier later : List (Entry × Option Refusal)}
    (scripted : ∀ reply ∈ later, h.subscribers[reply.1.subscriber]? =
      some (.scripted (answersOf reply.1.subscriber (earlier ++ later)))) :
    h.answersAfter frame (earlier.map Prod.fst) (later.map Prod.fst) = later := by
  induction later generalizing earlier with
  | nil => rfl
  | cons reply later ih =>
    obtain ⟨e, answer⟩ := reply
    have known := scripted (e, answer) List.mem_cons_self
    have own : h.answer frame e.subscriber ((earlier.map Prod.fst).countP (·.subscriber = e.subscriber)) =
        answer := by
      rw [Hub.answer, known]
      dsimp only
      rw [Subscriber.scripted, Subscriber.afterTaking_watcher]
      dsimp only [Subscriber.take]
      rw [Nat.zero_add, answersOf_next]
      rfl
    have rest := @ih (earlier ++ [(e, answer)]) fun reply listed => by
      rw [List.append_assoc]
      exact scripted reply (List.mem_cons_of_mem _ listed)
    rw [List.map_append] at rest
    rw [List.map_cons, answersAfter, own]
    exact congrArg ((e, answer) :: ·) rest

/-- Any answers can be what comes of a broadcast. -/
theorem exists_answers (entries : List Entry) (nextId : Nat) (frame : Bytes) {results : List (Option Refusal)}
    (complete : results.length = entries.length) :
    ∃ h : Hub, h.roster = ⟨entries, nextId⟩ ∧ h.answers frame entries = entries.zip results := by
  have everybody : (entries.zip results).map Prod.fst = entries := List.map_fst_zip complete.ge
  obtain ⟨bound, known⟩ := (entries.map (·.subscriber)).toFinset.exists_nat_subset_range
  -- A subscriber with several registrations gives the answers of all of them, in turn.
  let script (i : Nat) : Subscriber := .scripted (answersOf i (entries.zip results))
  let h : Hub := { subscribers := (Array.range bound).map script, roster := ⟨entries, nextId⟩ }
  have scripted : ∀ reply ∈ entries.zip results, h.subscribers[reply.1.subscriber]? =
      some (script reply.1.subscriber) := by
    intro reply listed
    have registered : reply.1 ∈ entries := everybody ▸ List.mem_map_of_mem listed
    have within := Finset.mem_range.mp (known (List.mem_toFinset.mpr (List.mem_map_of_mem registered)))
    simp [h, within]
  refine ⟨h, rfl, ?_⟩
  calc h.answers frame entries
    _ = h.answersAfter frame ([].map Prod.fst) ((entries.zip results).map Prod.fst) := by rw [everybody]; rfl
    _ = entries.zip results := answersAfter_scripted scripted

end Hub

/-- Whether somebody is called or answers. -/
def Occurrence.IsTalk : Occurrence → Prop
  | .called .. | .answered .. => True
  | .began _ | .ended .. | .entered _ | .removed _ => False

namespace Floor

variable {start floor : Floor} {during past : List Occurrence} {call : Call}

/-- Registrations only change when somebody is registered, a registration ends or a broadcast does. -/
theorem registered_unchanged {entries : List Entry} (talks : ∀ x ∈ during, x.IsTalk) :
    registeredAfter entries (during ++ .began call :: past) = registeredAfter entries past := by
  induction during with
  | nil => rfl
  | cons x during ih =>
    have before := ih fun y listed => talks y (List.mem_cons_of_mem _ listed)
    have talk := talks x List.mem_cons_self
    cases x with
    | called | answered => exact before
    | began | ended | entered | removed => cases talk

/-- A broadcast that comes to its end has called everybody who was registered when it began, and its
report counts their answers. -/
theorem Run.round (run : start.Run (during ++ .began call :: past) floor) (sound : start.Sound)
    (idle : start.turns.pass = none) (lasts : ∀ x ∈ during, ∀ c evicted, x ≠ .ended c evicted) {caller : Caller}
    {tally : Tally} {turns : Turns} (ends : floor.turns.conclude? floor.hub = some (caller, tally, turns, after)) :
    let entries := registeredAfter start.hub.roster.entries past
    callees during = entries ∧ (∀ e frame, .called e frame ∈ during → frame = Frame.encode call.message) ∧
      (replies (during ++ .began call :: past)).map Prod.fst = entries ∧
      tally = .of (replies (during ++ .began call :: past)) ∧
      after.roster = floor.hub.roster.evict tally.evicted := by
  obtain ⟨orderly, agrees⟩ := run.agrees sound idle
  obtain ⟨_, listeners, calls, _, frames⟩ := pass_calls orderly lasts
  obtain ⟨p, busy, nobody, rfl, rfl⟩ : ∃ p, floor.turns.pass = some p ∧ p.left = [] ∧ tally = p.tally ∧
      after = { floor.hub with roster := floor.hub.roster.evict p.tally.evicted } := by
    cases busy : floor.turns.pass with
    | none => simp [Turns.conclude?, busy] at ends
    | some p =>
      obtain ⟨nobody, counts, _, evicts⟩ := Turns.conclude_eq busy ends
      exact ⟨p, rfl, nobody, counts, evicts⟩
  have settled : Settled _ _ := agrees.settled (by simp [Turns.isDelivering, busy, nobody])
  have everybody := replies_settled orderly settled
  rw [listeners] at everybody
  exact ⟨calls.symm.trans (settled.2.trans listeners), frames, everybody, run.counts idle p busy, rfl⟩

/-- A frame goes round while nobody else does anything. -/
theorem deliverAll_run (call : Call) (frame : Bytes) (waiting : List Call) (joining : List SubscriberId)
    (entries : List Entry) (tally : Tally) (h : Hub) :
    let told := entries.foldl (Hub.deliver frame) (tally, h)
    ∃ during, (Floor.mk { pass := some { call, frame, left := entries, tally }, waiting } h joining).Run during
        ⟨{ pass := some { call, frame, left := [], tally := told.1 }, waiting }, told.2, joining⟩ ∧
      ∀ x ∈ during, x.IsTalk := by
  induction entries generalizing tally h with
  | nil => exact ⟨[], .start, nofun⟩
  | cons e later ih =>
    let waited := h.moveClock (h.clock + h.hold e.subscriber)
    let taken := waited.take e.subscriber frame
    let free : Pass := { call, frame, left := e :: later, tally }
    let held : Pass := { free with heldUntil := some waited.clock }
    have calls := @Step.call { pass := free, waiting } h joining free e later waited.clock rfl rfl rfl
    have waits : Step ⟨{ pass := held, waiting }, h, joining⟩ none ⟨{ pass := held, waiting }, waited, joining⟩ :=
      .aside rfl rfl
    have answers := @Step.answer { pass := held, waiting } waited joining held e later waited.clock taken.1 taken.2
      rfl rfl rfl rfl
    obtain ⟨during, rest, talks⟩ := ih (tally.count e.id taken.1) taken.2
    refine ⟨_, ((calls.run.next waits).next answers).trans rest, fun x listed => ?_⟩
    rcases List.mem_append.mp listed with later | first
    · exact talks x later
    · have both : x = .answered e frame taken.1 ∨ x = .called e frame := by simpa using first
      rcases both with rfl | rfl <;> trivial

/-- A broadcast while nobody else uses the hub is one whose steps nobody comes between. -/
theorem broadcast_run (h : Hub) (call : Call) :
    ∃ during told, (Floor.mk {} h []).Run (during ++ [.began call]) told ∧ (∀ x ∈ during, x.IsTalk) ∧
      told.turns.conclude? told.hub =
        some (call.caller, (h.broadcast call.message).1, {}, (h.broadcast call.message).2) := by
  have begins : (Floor.mk {} h []).Step (some (.began call)) ⟨({} : Turns).start h call, h, []⟩ := .begin rfl
  obtain ⟨during, tells, talks⟩ := deliverAll_run call (Frame.encode call.message) [] [] h.roster.entries {} h
  exact ⟨during, _, begins.run.trans tells, talks, rfl⟩

end Floor

theorem Roster.evict_entries (r : Roster) (ids : List SubscriberId) :
    (r.evict ids).entries = r.entries.filter (·.id ∉ ids) :=
  List.filter_congr fun e _ => by simp

/-- One broadcast. Everybody who is registered is given the frame once, in the order of the registrations,
however often a subscriber is registered. Everybody answers for himself, and any answers can come of it. The
report counts the frames that were taken, those that found a queue full and the registrations of those who
are gone, which are as many as there were registrations, and lists the last in their order. Those are ended,
and the others stay as they were. It is the same when the broadcast is taken step by step and others take
their steps between: it calls those who are registered when it begins, and counts their answers. -/
theorem Hub.everybody_is_asked_once :
    (∀ (h : Hub) (m : Message),
      let frame := Frame.encode m
      let entries := h.roster.entries
      let answers := h.answers frame entries
      let tally := (h.broadcast m).1
      let after := (h.broadcast m).2
      answers.map Prod.fst = entries ∧
      after.deliveries = h.deliveries ++ entries.map (fun e => (e.subscriber, frame)) ∧
      tally.Reports answers ∧
      after.roster = { h.roster with entries := entries.filter (·.id ∉ tally.evicted) } ∧
      (h.roster.ids.Nodup → after.roster.entries = (answers.filter (departing? · = none)).map Prod.fst) ∧
      (∀ results : List (Option Refusal), results.length = entries.length →
        ∃ other : Hub, other.roster = h.roster ∧ other.answers frame entries = entries.zip results) ∧
      ∀ caller, ∃ during told, (Floor.mk {} h []).Run (during ++ [.began ⟨caller, m⟩]) told ∧
        (∀ x ∈ during, x.IsTalk) ∧ told.turns.conclude? told.hub = some (caller, tally, {}, after)) ∧
    ∀ (start floor : Floor) (during earlier : List Occurrence) (call : Call) (caller : Caller) (tally : Tally)
      (turns : Turns) (after : Hub), start.Sound → start.turns.pass = none →
      start.Run (during ++ .began call :: earlier) floor → (∀ x ∈ during, ∀ c evicted, x ≠ .ended c evicted) →
      floor.turns.conclude? floor.hub = some (caller, tally, turns, after) →
      let entries := registeredAfter start.hub.roster.entries earlier
      let answers := replies (during ++ .began call :: earlier)
      callees during = entries ∧ (∀ e frame, .called e frame ∈ during → frame = Frame.encode call.message) ∧
      answers.map Prod.fst = entries ∧ tally.Reports answers ∧
      after.roster.entries = floor.hub.roster.entries.filter (·.id ∉ tally.evicted) ∧
      ((∀ x ∈ during, x.IsTalk) → floor.hub.roster.entries = entries) := by
  constructor
  · intro h m frame entries answers tally after
    have counts : tally = .of answers := h.broadcast_tally m
    have everybody : answers.map Prod.fst = entries := h.answers_fst frame entries
    have reports : tally.Reports answers := counts ▸ Tally.of_reports answers
    have roster : after.roster = { h.roster with entries := entries.filter (·.id ∉ tally.evicted) } := by
      rw [h.broadcast_roster m, Roster.evict, ← Roster.evict_entries]
      rfl
    refine ⟨everybody, deliverAll_deliveries frame entries {} h, reports, roster, fun distinct => ?_, ?_, ?_⟩
    · have ids : (answers.map (·.1.id)).Nodup := by
        have ids : h.roster.ids = answers.map (·.1.id) := by
          rw [Roster.ids, show h.roster.entries = entries from rfl, ← everybody, List.map_map]
          rfl
        rwa [← ids]
      rw [roster, ← filter_departing ids, everybody, reports.evicted]
    · intro results complete
      exact exists_answers entries h.roster.nextId frame complete
    · exact fun caller => Floor.broadcast_run h ⟨caller, m⟩
  · intro start floor during earlier call caller tally turns after sound idle run lasts ends entries answers
    obtain ⟨calls, frames, everybody, counts, evicts⟩ := run.round sound idle lasts ends
    refine ⟨calls, frames, everybody, counts ▸ Tally.of_reports answers, ?_, fun talks => ?_⟩
    · rw [evicts, Roster.evict_entries]
    · rw [← (run.agrees sound idle).2.registered]
      exact Floor.registered_unchanged talks

/-- A queue with room for one frame is registered twice, before and after a subscriber that fails. It takes
the frame first and is full then, and only the one that fails is evicted. -/
theorem Hub.full_queue_is_asked_twice :
    let h : Hub := {
      subscribers := #[.mailbox (.ofCapacity "probe" 1), .scripted [some (.failed "gone")]]
      roster := ⟨[⟨⟨1⟩, 0⟩, ⟨⟨2⟩, 1⟩, ⟨⟨3⟩, 0⟩], 4⟩ }
    let call : Call := ⟨.operator, .raw "a"⟩
    let frame := Frame.encode call.message
    let (tally, after) := h.broadcast call.message
    tally = { delivered := 1, dropped := 1, evicted := [⟨2⟩] } ∧
    after.deliveries = [(0, frame), (1, frame), (0, frame)] ∧
    after.roster.entries = [⟨⟨1⟩, 0⟩, ⟨⟨3⟩, 0⟩] ∧
    ∃ during floor, (Floor.mk {} h []).Run (during ++ [.began call]) floor ∧ callees during = h.roster.entries ∧
      tally.Reports (replies (during ++ [.began call])) := by
  intro h call frame
  obtain ⟨alone, amid⟩ := everybody_is_asked_once
  obtain ⟨-, given, -, -, distinct, -, step⟩ := alone h call.message
  obtain ⟨during, floor, run, talks, ends⟩ := step .operator
  have nodup : h.roster.ids.Nodup := by decide
  have sound : (Floor.mk {} h []).Sound := ⟨nodup, by decide⟩
  have lasts : ∀ x ∈ during, ∀ c evicted, x ≠ .ended c evicted := by
    rintro _ listed c evicted rfl
    exact talks _ listed
  obtain ⟨calls, -, -, reports, -, -⟩ := amid _ _ _ _ _ _ _ _ _ sound rfl run lasts ends
  exact ⟨by decide, given, (distinct nodup).trans (by decide), during, floor, run, calls, reports⟩

end LiveTiming
