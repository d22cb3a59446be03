import LiveTiming.Proofs.DeskRun

namespace LiveTiming

/-- Nothing is scheduled yet at a hub, and nobody sends. -/
def Desk.fresh (h : Hub) : Desk :=
  ⟨{ h with timeline := {} }, []⟩

/-- What became of the events, and who was told of them, when nothing was scheduled before the past began. -/
structure Desk.Fates (d : Desk) (origin : Hub) (past : List Notice) : Prop where
  /-- The numbers are given out in order. -/
  issued : (past.filterMap Notice.posted?).reverse = List.range d.hub.timeline.nextId
  /-- An event is to come, was taken once, or was cancelled once, and only one of these. -/
  one : ∀ id < d.hub.timeline.nextId,
    (d.hub.timeline.contains id).toNat + (past.filterMap Notice.taken?).count id +
      (past.filterMap Notice.cancelled?).count id = 1
  /-- Nothing happens to a number that was not given out. -/
  unissued : ∀ id, d.hub.timeline.nextId ≤ id → d.hub.timeline.contains id = false ∧
    id ∉ past.filterMap Notice.taken? ∧ id ∉ past.filterMap Notice.cancelled?
  /-- The timeline knows which events are to come. -/
  awaited : ∀ id, d.hub.timeline.contains id = true ↔ StillToCome past id
  /-- The timeline knows how many events are to come. -/
  size : d.hub.timeline.size + (past.filterMap Notice.taken?).length +
    (past.filterMap Notice.cancelled?).length = (past.filterMap Notice.posted?).length
  /-- A cancellation is granted if the event was to come then, which is never taken. -/
  granted : ∀ later earlier id answer, past = later ++ .cancelled id answer :: earlier →
    (answer = true ↔ StillToCome earlier id) ∧ (answer = true → id ∉ past.filterMap Notice.taken?)
  /-- What is taken and sent was scheduled, with the time and the message that it has. -/
  scheduled : ∀ x ∈ past, ∀ e ∈ x.event?, .posted e ∈ past
  /-- An event that was taken is broadcast once, unless its broadcast has not begun. -/
  began : ∀ id, (past.filterMap Notice.began?).count id + (d.senders.filterMap Sender.holds?).count id =
    (past.filterMap Notice.taken?).count id
  /-- A broadcast ends once, unless it is under way. -/
  ended : ∀ id, (past.filterMap Notice.ended?).count id + (d.senders.filterMap Sender.tells?).count id =
    (past.filterMap Notice.began?).count id
  /-- Those who returned and those who still send have counted the events that were sent. -/
  results : Notice.results past + Sender.counts d.senders = (past.filterMap Notice.ended?).length
  /-- The journal shows who was told of events, and who was given something else. -/
  journal : d.hub.journal.toList = origin.journal.toList ++ Notice.deliveries past
  /-- The past tells who is registered. -/
  registered : d.hub.roster.entries = Notice.registered origin.roster.entries past
  /-- A broadcast is for those who are registered when it begins. They are told in turn, and nobody was
  told of the event before. -/
  audience : ∀ later earlier e audience, past = later ++ .began e audience :: earlier →
    audience = Notice.registered origin.roster.entries earlier ∧ Notice.hearers e.id earlier = [] ∧
      Notice.hearers e.id later <+: audience
  /-- When a broadcast ends everybody that it is for was told once, and nobody is told afterwards. -/
  complete : ∀ later earlier e evicted, past = later ++ .ended e evicted :: earlier →
    .began e (Notice.hearers e.id earlier) ∈ earlier ∧ Notice.hearers e.id later = []
  /-- Nobody is told of an event that was not taken. -/
  unheard : ∀ id, id ∉ past.filterMap Notice.taken? → Notice.hearers id past = []

/-- Who was told of events by those who send them, and by those who have sent them. -/
structure Desk.Telling (d : Desk) (past : List Notice) : Prop where
  underway : ∀ e left, (e, left) ∈ d.senders.filterMap Sender.tells →
    .began e (Notice.hearers e.id past ++ left) ∈ past
  complete : ∀ e evicted, .ended e evicted ∈ past → .began e (Notice.hearers e.id past) ∈ past
  heard : ∀ e audience, .began e audience ∈ past → Notice.hearers e.id past <+: audience
  unheard : ∀ id, id ∉ past.filterMap Notice.began? → Notice.hearers id past = []

namespace Desk

variable {past more : List Notice} {start d after : Desk}

/-- Nobody is told of an event, and no broadcast begins or ends. -/
theorem Telling.aside (telling : d.Telling past) (unheard : ∀ id, Notice.hearers id more = [])
    (unbegun : more.filterMap Notice.began? = []) (unended : more.filterMap Notice.ended? = [])
    (same : after.senders.filterMap Sender.tells = d.senders.filterMap Sender.tells) :
    after.Telling (more ++ past) := by
  have hearers (id : EventId) : Notice.hearers id (more ++ past) = Notice.hearers id past := by
    rw [Notice.hearers_append, unheard, List.append_nil]
  rw [List.filterMap_eq_nil_iff] at unbegun unended
  refine ⟨fun e left tells => ?_, fun e evicted ended => ?_, fun e audience began => ?_, fun id none => ?_⟩ <;>
    rw [hearers]
  · exact List.mem_append_right _ (telling.underway e left (same ▸ tells))
  · have old := (List.mem_append.mp ended).resolve_left fun new => nomatch unended _ new
    exact List.mem_append_right _ (telling.complete e evicted old)
  · have old := (List.mem_append.mp began).resolve_left fun new => nomatch unbegun _ new
    exact telling.heard e audience old
  · refine telling.unheard id fun began => none ?_
    rw [List.filterMap_append]
    exact List.mem_append_right _ began

section

variable {h left : Hub} {first rest : List Sender} {n : Nat} {e : Event} {entries : List Entry} {tally : Tally}

theorem Telling.begin (telling : (Desk.mk h (first ++ ⟨n, .taken e⟩ :: rest)).Telling past)
    (unbegun : e.id ∉ past.filterMap Notice.began?) :
    (Desk.mk left (first ++ ⟨n, .telling e entries {}⟩ :: rest)).Telling (.began e entries :: past) := by
  have hearers (id : EventId) : Notice.hearers id (.began e entries :: past) = Notice.hearers id past := rfl
  have none := telling.unheard e.id unbegun
  refine ⟨fun f left tells => ?_, fun f evicted ended => ?_, fun f audience began => ?_, fun id fresh => ?_⟩ <;>
    rw [hearers]
  · rcases Sender.mem_middle.mp tells with own | other
    · cases own
      rw [none]
      exact List.mem_cons_self ..
    · exact List.mem_cons_of_mem _ (telling.underway f left (Sender.mem_middle.mpr (.inr other)))
  · exact List.mem_cons_of_mem _ (telling.complete f evicted ((List.mem_cons.mp ended).resolve_left nofun))
  · rcases List.mem_cons.mp began with same | old
    · cases same
      rw [none]
      exact List.nil_prefix
    · exact telling.heard f audience old
  · exact telling.unheard id fun old => fresh (List.mem_cons_of_mem _ old)

/-- Nobody else tells of the same event. -/
theorem Telling.tell {entry : Entry} {time : Nat} {more : Tally}
    (telling : (Desk.mk h (first ++ ⟨n, .telling e (entry :: entries) tally⟩ :: rest)).Telling past)
    (once : ((first ++ ⟨n, .telling e (entry :: entries) tally⟩ :: rest).filterMap Sender.tells?).count e.id ≤ 1)
    (single : (past.filterMap Notice.began?).count e.id ≤ 1) (unended : e.id ∉ past.filterMap Notice.ended?) :
    (Desk.mk left (first ++ ⟨n, .telling e entries more⟩ :: rest)).Telling (.told e entry time :: past) := by
  have own : Notice.hearers e.id (.told e entry time :: past) = Notice.hearers e.id past ++ [entry] := by
    simp [Notice.hearers]
  have others {id : EventId} (other : e.id ≠ id) :
      Notice.hearers id (.told e entry time :: past) = Notice.hearers id past := by
    simp [Notice.hearers, other]
  have began := telling.underway e (entry :: entries) (Sender.mem_middle.mpr (.inl rfl))
  refine ⟨fun f left tells => ?_, fun f evicted ended => ?_, fun f audience begun => ?_, fun id fresh => ?_⟩
  · rcases Sender.mem_middle.mp tells with same | other
    · cases same
      rw [own, List.append_assoc]
      exact List.mem_cons_of_mem _ began
    · rw [others (Sender.other_of_once once rfl other)]
      exact List.mem_cons_of_mem _ (telling.underway f left (Sender.mem_middle.mpr (.inr other)))
  · have old := (List.mem_cons.mp ended).resolve_left nofun
    have different : e.id ≠ f.id := fun same => unended (List.mem_filterMap.mpr ⟨_, old, by simp [same]⟩)
    rw [others different]
    exact List.mem_cons_of_mem _ (telling.complete f evicted old)
  · have old := (List.mem_cons.mp begun).resolve_left nofun
    by_cases same : e.id = f.id
    · have equal := Notice.eq_of_once single began old rfl (by simp [same])
      cases equal
      rw [own]
      exact ⟨entries, by simp⟩
    · rw [others same]
      exact telling.heard f audience old
  · have known : e.id ∈ past.filterMap Notice.began? := List.mem_filterMap.mpr ⟨_, began, rfl⟩
    have different : e.id ≠ id := fun same => fresh (same ▸ known)
    rw [others different]
    exact telling.unheard id fresh

theorem Telling.finish {evicted : List SubscriberId}
    (telling : (Desk.mk h (first ++ ⟨n, .telling e [] tally⟩ :: rest)).Telling past) :
    (Desk.mk left (first ++ ⟨n + 1, .looking⟩ :: rest)).Telling (.ended e evicted :: past) := by
  have began := telling.underway e [] (Sender.mem_middle.mpr (.inl rfl))
  rw [List.append_nil] at began
  refine ⟨fun f left tells => ?_, fun f evicted ended => ?_, fun f audience begun => ?_,
    fun id fresh => telling.unheard id fresh⟩
  · have other := (Sender.mem_middle.mp tells).resolve_left nofun
    exact List.mem_cons_of_mem _ (telling.underway f left (Sender.mem_middle.mpr (.inr other)))
  · rcases List.mem_cons.mp ended with same | old
    · cases same
      exact List.mem_cons_of_mem _ began
    · exact List.mem_cons_of_mem _ (telling.complete f evicted old)
  · exact telling.heard f audience ((List.mem_cons.mp begun).resolve_left nofun)

end

/-- In every run those who send tell everybody once that a broadcast is for. -/
theorem Run.telling (run : start.Run past d) (empty : start.hub.timeline = {}) (idle : start.senders = []) :
    d.Telling past := by
  induction run with
  | start => exact ⟨by simp [idle], nofun, nofun, fun _ _ => rfl⟩
  | @next past d new after previous step ih =>
    cases step with
    | post | cancel | moveClock | look | give | enrol | aside | leave | call =>
      refine ih.aside (fun _ => ?_) ?_ ?_ ?_ <;> simp [Notice.hearers, List.filterMap_cons]
    | @work h first sender later new next after step =>
      cases step with
      | take => refine ih.aside (fun _ => ?_) ?_ ?_ ?_ <;> simp [Notice.hearers, List.filterMap_cons]
      | begin => exact ih.begin (previous.unbegun empty idle (Sender.mem_middle.mpr (.inl rfl)))
      | @tell _ _ e =>
        obtain ⟨tells, began, unended⟩ := previous.unended empty idle (Sender.mem_middle.mpr (.inl rfl))
        exact ih.tell tells began unended
      | finish => exact ih.finish

/-- What is scheduled one after the other is scheduled step by step. -/
theorem posts_run {α β : Type} (hub : β → Hub) (next : β → α → β)
    (schedules : ∀ b a, ∃ time m, hub (next b a) = ((hub b).postAt time m).2) (all : List α) (b : β)
    (senders : List Sender) :
    ∃ posts, (Desk.mk (hub b) senders).Run posts ⟨hub (all.foldl next b), senders⟩ ∧ ∀ x ∈ posts, x.IsPost := by
  induction all generalizing b with
  | nil => exact ⟨[], .start, nofun⟩
  | cons a all ih =>
    obtain ⟨time, m, first⟩ := schedules b a
    obtain ⟨posts, run, only⟩ := ih (next b a)
    have now : (Desk.mk (hub b) senders).Run _ ⟨hub (next b a), senders⟩ := first ▸ Step.run .post
    refine ⟨_, now.trans run, fun x member => ?_⟩
    rcases List.mem_append.mp member with later | now
    · exact only x later
    · cases List.mem_singleton.mp now
      trivial

/-- So is what a subscriber schedules. -/
theorem postAll_run (h : Hub) (senders : List Sender) (followUps : List (Nat × Message)) :
    ∃ posts, (Desk.mk h senders).Run posts ⟨h.postAll followUps, senders⟩ ∧ ∀ x ∈ posts, x.IsPost :=
  posts_run id _ (fun _ _ => ⟨_, _, rfl⟩) followUps h senders

/-- A subscriber is given a frame, and schedules what it has to. -/
theorem take_run (h : Hub) (senders : List Sender) (subscriber : Nat) (frame : Bytes) :
    ∃ posts, (Desk.mk h senders).Run (posts ++ [.given ⟨subscriber, h.clock, frame⟩])
      ⟨(h.take subscriber frame).2, senders⟩ ∧ ∀ x ∈ posts, x.IsPost := by
  obtain ⟨posts, run, only⟩ := postAll_run (h.give subscriber frame).2 senders (h.followUps subscriber frame)
  rw [Hub.take_eq_give]
  exact ⟨posts, (Step.run .give).trans run, only⟩

section

variable (n : Nat) (e : Event) (tally : Tally) (h : Hub) (first rest : List Sender)

/-- Somebody who sends an event gives its frame to a registered subscriber. -/
theorem tell_run (entry : Entry) (left : List Entry) :
    let taken := h.take entry.subscriber (Frame.encode e.message)
    ∃ posts, (Desk.mk h (first ++ ⟨n, .telling e (entry :: left) tally⟩ :: rest)).Run
      (posts ++ [.told e entry h.clock])
      ⟨taken.2, first ++ ⟨n, .telling e left (tally.count entry.id taken.1)⟩ :: rest⟩ ∧ ∀ x ∈ posts, x.IsPost := by
  rw [Hub.take_eq_give]
  obtain ⟨posts, run, only⟩ := postAll_run (h.give entry.subscriber (Frame.encode e.message)).2
    (first ++ ⟨n, .telling e left
      (tally.count entry.id (h.give entry.subscriber (Frame.encode e.message)).1)⟩ :: rest)
    (h.followUps entry.subscriber (Frame.encode e.message))
  exact ⟨posts, (Step.run (.work .tell)).trans run, only⟩

/-- A registered subscriber is given the frame once it has waited. -/
theorem deliver_run (entry : Entry) (left : List Entry) :
    let told := Hub.deliver (Frame.encode e.message) (tally, h) entry
    ∃ past, (Desk.mk h (first ++ ⟨n, .telling e (entry :: left) tally⟩ :: rest)).Run past
      ⟨told.2, first ++ ⟨n, .telling e left told.1⟩ :: rest⟩ ∧ ∀ x ∈ past, x.IsTelling := by
  obtain ⟨posts, tells, only⟩ := tell_run n e tally (h.moveClock (h.clock + h.hold entry.subscriber)) first rest
    entry left
  have waits : (Desk.mk h (first ++ ⟨n, .telling e (entry :: left) tally⟩ :: rest)).Run []
      ⟨h.moveClock (h.clock + h.hold entry.subscriber), first ++ ⟨n, .telling e (entry :: left) tally⟩ :: rest⟩ :=
    @Step.run none _ _ .moveClock
  refine ⟨_, waits.trans tells, fun x member => ?_⟩
  rw [List.append_nil] at member
  rcases List.mem_append.mp member with later | now
  · exact (only x later).isTelling
  · cases List.mem_singleton.mp now
    trivial

theorem deliverAll_run (left : List Entry) :
    let told := left.foldl (Hub.deliver (Frame.encode e.message)) (tally, h)
    ∃ past, (Desk.mk h (first ++ ⟨n, .telling e left tally⟩ :: rest)).Run past
      ⟨told.2, first ++ ⟨n, .telling e [] told.1⟩ :: rest⟩ ∧ ∀ x ∈ past, x.IsTelling := by
  induction left generalizing tally h with
  | nil => exact ⟨[], .start, nofun⟩
  | cons entry left ih =>
    obtain ⟨now, run, telling⟩ := deliver_run n e tally h first rest entry left
    obtain ⟨more, later, others⟩ := ih (Hub.deliver (Frame.encode e.message) (tally, h) entry).1
      (Hub.deliver (Frame.encode e.message) (tally, h) entry).2
    exact ⟨_, run.trans later, fun x member => (List.mem_append.mp member).elim (others x) (telling x)⟩

/-- Somebody has taken an event, and sends it while nobody else does anything. -/
theorem broadcast_run : ∃ telling evicted, (Desk.mk h (first ++ ⟨n, .taken e⟩ :: rest)).Run
      (.ended e evicted :: (telling ++ [.began e h.roster.entries]))
      ⟨(h.broadcast e.message).2, first ++ ⟨n + 1, .looking⟩ :: rest⟩ ∧ ∀ x ∈ telling, x.IsTelling := by
  have begins : (Desk.mk h (first ++ ⟨n, .taken e⟩ :: rest)).Run [.began e h.roster.entries]
      ⟨h, first ++ ⟨n, .telling e h.roster.entries {}⟩ :: rest⟩ := Step.run (.work .begin)
  obtain ⟨telling, tells, only⟩ := deliverAll_run n e {} h first rest h.roster.entries
  exact ⟨telling, _, (begins.trans tells).next (.work .finish), only⟩

/-- Somebody sends what is due while nobody else does anything, and leaves. He sends all that he takes. -/
theorem sendDue_run {fuel count : Nat} {final : Hub} (sends : h.sendDue fuel = some (count, final)) :
    ∃ pass, (Desk.mk h (first ++ ⟨n, .looking⟩ :: rest)).Run (.returned (n + count) :: pass)
        ⟨final, first ++ rest⟩ ∧
      (∀ x ∈ pass, x.IsOfPass) ∧ pass.filterMap Notice.ended? = pass.filterMap Notice.taken? ∧
      (pass.filterMap Notice.taken?).length = count := by
  induction fuel generalizing h count n with
  | zero => cases sends
  | succ fuel ih =>
    unfold Hub.sendDue at sends
    split at sends
    · rename_i rested
      cases sends
      exact ⟨[], Step.run (.leave rested), nofun, rfl, rfl⟩
    · rename_i e after taken
      obtain ⟨⟨others, _⟩, more, same⟩ := Option.map_eq_some_iff.mp sends
      cases same
      have takes : (Desk.mk h (first ++ ⟨n, .looking⟩ :: rest)).Run [.taken e h.clock]
          ⟨after, first ++ ⟨n, .taken e⟩ :: rest⟩ := Step.run (.work (.take taken))
      obtain ⟨telling, evicted, broadcasts, only⟩ := broadcast_run n e after first rest
      obtain ⟨pass, run, kinds, same, counted⟩ := ih (n + 1) (after.broadcast e.message).2 more
      have whole := (takes.trans broadcasts).trans run
      rw [Nat.add_right_comm, Nat.add_assoc] at whole
      obtain ⟨untaken, unended⟩ := Notice.silent_of_telling only
      let sent := .ended e evicted :: (telling ++ [.began e after.roster.entries]) ++ [.taken e h.clock]
      refine ⟨pass ++ sent, whole, ?_, ?_, ?_⟩
      · intro x member
        simp only [sent, List.mem_append, List.mem_cons, List.not_mem_nil, or_false] at member
        rcases member with later | (rfl | told | rfl) | rfl
        · exact kinds x later
        · trivial
        · exact (only x told).isOfPass
        · trivial
        · trivial
      · simp [sent, List.filterMap_append, List.filterMap_cons, same, untaken, unended]
      · simp [sent, List.filterMap_append, List.filterMap_cons, counted, untaken]

end

/-- Whatever anybody does at a hub, in whatever order, every event has one fate. -/
theorem Run.fates {h : Hub} (run : (fresh h).Run past d) : d.Fates h past where
  issued := run.issued rfl
  one id issued := by
    rw [run.balance rfl id, run.posted_count rfl id, if_pos issued]
  unissued id unissued := by
    have balance := run.balance rfl id
    rw [run.posted_count rfl id, if_neg (Nat.not_lt_of_le unissued)] at balance
    rw [← List.count_eq_zero, ← List.count_eq_zero, ← Bool.toNat_eq_zero]
    omega
  awaited id := run.awaited rfl id
  size := by
    have members : (past.filterMap Notice.posted?).Perm (d.hub.timeline.live.toList ++
        past.filterMap Notice.taken? ++ past.filterMap Notice.cancelled?) := by
      refine List.perm_iff_count.mpr fun id => ?_
      rw [List.count_append, List.count_append, Timeline.live_count]
      exact (run.balance rfl id).symm
    have length := members.length_eq
    rw [List.length_append, List.length_append, Std.TreeSet.length_toList] at length
    exact length.symm
  granted later earlier id answer parts := by
    obtain ⟨before, first, rfl⟩ := run.cancelled parts
    refine ⟨first.awaited rfl id, fun granted => ?_⟩
    have balance := run.balance rfl id
    have posted := run.posted_count rfl id
    have cancelled : 0 < (past.filterMap Notice.cancelled?).count id := by
      rw [List.count_pos_iff, parts, granted]
      simp
    rw [← List.count_eq_zero]
    split at posted <;> omega
  scheduled := (run.scheduled rfl rfl).1
  began id := (run.stages rfl id).1
  ended id := (run.stages rfl id).2
  results := run.counts rfl
  journal := run.journal
  registered := run.registered
  audience later earlier e audience parts := by
    obtain ⟨_, first, _⟩ := run.split parts
    obtain ⟨before, _, previous, step⟩ := first.last
    have telling := previous.telling rfl rfl
    have heard := (run.telling rfl rfl).heard e audience (by simp [parts])
    cases step with
    | @work h others _ rest _ _ _ step =>
      cases step with
      | @begin n =>
        have unheard : Notice.hearers e.id earlier = [] :=
          telling.unheard e.id (previous.unbegun rfl rfl (Sender.mem_middle.mpr (.inl rfl)))
        refine ⟨previous.registered, unheard, ?_⟩
        rw [parts, Notice.hearers_append] at heard
        have none : Notice.hearers e.id (.began e h.roster.entries :: earlier) = [] := unheard
        rwa [none] at heard
  complete later earlier e evicted parts := by
    obtain ⟨_, first, _⟩ := run.split parts
    have began := (first.telling rfl rfl).complete e evicted (List.mem_cons_self ..)
    have same : Notice.hearers e.id (.ended e evicted :: earlier) = Notice.hearers e.id earlier := rfl
    rw [same] at began
    refine ⟨by simpa using began, ?_⟩
    have heard := (run.telling rfl rfl).heard e _ (parts ▸ List.mem_append_right _ began)
    rw [parts, Notice.hearers_append, same] at heard
    exact List.append_right_eq_self.mp (heard.eq_of_length_le (by simp))
  unheard id untaken := by
    refine (run.telling rfl rfl).unheard id fun began => untaken ?_
    have taken := (run.stages rfl id).1
    have one := List.count_pos_iff.mpr began
    rw [← List.count_pos_iff]
    omega

end Desk

end LiveTiming
