import LiveTiming.Proofs.FeedRun

namespace LiveTiming

/-- A subscriber that never waits before it takes a frame. -/
def Subscriber.Prompt : Subscriber → Prop
  | .watcher script _ => ∀ n, script.wait n = 0
  | _ => True

/-- A subscriber that never schedules anything. -/
def Subscriber.Silent : Subscriber → Prop
  | .watcher script _ => ∀ n frame, script.followUps n frame = []
  | _ => True

/-- No subscriber waits before it takes a frame. -/
def Hub.Prompt (h : Hub) : Prop :=
  ∀ s ∈ h.subscribers, s.Prompt

variable {h after : Hub}

/-- Who is prompt does not wait. -/
theorem Subscriber.Prompt.hold {s : Subscriber} (prompt : s.Prompt) : s.hold = 0 := by
  cases s with
  | mailbox | log => rfl
  | watcher script n => exact prompt n

/-- Who is prompt stays so, whatever it is given. -/
theorem Subscriber.Prompt.take {s : Subscriber} (prompt : s.Prompt) (frame : Bytes) :
    (s.take frame).2.Prompt := by
  cases s with
  | mailbox | log => trivial
  | watcher => exact prompt

theorem Subscriber.Silent.followUps {s : Subscriber} (silent : s.Silent) (frame : Bytes) :
    s.followUps frame = [] := by
  cases s with
  | mailbox | log => rfl
  | watcher script n => exact silent n frame

theorem Subscriber.Silent.take {s : Subscriber} (silent : s.Silent) (frame : Bytes) :
    (s.take frame).2.Silent := by
  cases s with
  | mailbox | log => trivial
  | watcher => exact silent

namespace Hub

theorem Prompt.hold (prompt : h.Prompt) (subscriber : Nat) : h.hold subscriber = 0 := by
  unfold Hub.hold
  cases known : h.subscribers[subscriber]? with
  | none => rfl
  | some s => exact (prompt s (Array.mem_of_getElem? known)).hold

theorem postAll_subscribers (h : Hub) (followUps : List (Nat × Message)) :
    (h.postAll followUps).subscribers = h.subscribers := by
  induction followUps generalizing h with
  | nil => rfl
  | cons followUp rest ih => exact ih _

/-- A hub stays prompt when somebody is given a frame. -/
theorem Prompt.take (prompt : h.Prompt) (subscriber : Nat) (frame : Bytes) :
    (h.take subscriber frame).2.Prompt := by
  unfold Hub.take
  dsimp only
  split
  · exact prompt
  · rename_i s known
    intro other member
    rw [postAll_subscribers] at member
    rcases Array.mem_or_eq_of_mem_setIfInBounds member with old | rfl
    · exact prompt other old
    · exact (prompt s (Array.mem_of_getElem? known)).take frame

/-- What only changes the schedule makes nobody wait. -/
theorem Rescheduled.prompt (rescheduled : h.Rescheduled after) (prompt : h.Prompt) : after.Prompt := by
  rw [Rescheduled] at rescheduled
  rw [rescheduled]
  exact prompt

/-- A delivery is a wait, a frame that is taken, and a count. -/
theorem deliver_eq (frame : Bytes) (tally : Tally) (h : Hub) (e : Entry) :
    deliver frame (tally, h) e =
      (tally.count e.id ((h.moveClock (h.clock + h.hold e.subscriber)).take e.subscriber frame).1,
        ((h.moveClock (h.clock + h.hold e.subscriber)).take e.subscriber frame).2) :=
  rfl

theorem deliver_at_once {e : Entry} (free : h.hold e.subscriber = 0) (frame : Bytes) (tally : Tally) :
    deliver frame (tally, h) e =
      (tally.count e.id (h.take e.subscriber frame).1, (h.take e.subscriber frame).2) := by
  have still : h.moveClock (h.clock + h.hold e.subscriber) = h := by
    rw [free, Nat.add_zero]
    simp only [moveClock, max_self]
  rw [deliver_eq, still]

theorem Prompt.deliver (prompt : h.Prompt) (frame : Bytes) (tally : Tally) (e : Entry) :
    deliver frame (tally, h) e =
      (tally.count e.id (h.take e.subscriber frame).1, (h.take e.subscriber frame).2) :=
  deliver_at_once (prompt.hold e.subscriber) frame tally

/-- Frames are given to prompt subscribers without any time passing. -/
theorem Prompt.deliverAll (prompt : h.Prompt) (frame : Bytes) (entries : List Entry) (tally : Tally) :
    (entries.foldl (Hub.deliver frame) (tally, h)).2.Prompt ∧
      (entries.foldl (Hub.deliver frame) (tally, h)).2.clock = h.clock := by
  induction entries generalizing h tally with
  | nil => exact ⟨prompt, rfl⟩
  | cons e rest ih =>
    rw [List.foldl_cons, prompt.deliver]
    obtain ⟨kept, clock⟩ := ih (prompt.take e.subscriber frame) (tally.count e.id (h.take e.subscriber frame).1)
    exact ⟨kept, clock.trans (take_clock _ _ _)⟩

/-- A broadcast to prompt subscribers takes no time. -/
theorem Prompt.broadcast (prompt : h.Prompt) (m : Message) :
    (h.broadcast m).2.Prompt ∧ (h.broadcast m).2.clock = h.clock :=
  prompt.deliverAll _ _ _

/-- The hub with a subscriber's queue changed, if there is one. -/
def adjust (h : Hub) (i : Nat) (change : Mailbox → Mailbox) : Hub :=
  match h.mailbox? i with
  | none => h
  | some b => h.setMailbox i (change b)

/-- Who reads from a queue changes that queue only. -/
theorem receive_adjusts (h : Hub) (i count : Nat) :
    (h.receive i count).2 = h.adjust i fun b => (b.receive count).2 := by
  unfold receive adjust
  cases h.mailbox? i <;> rfl

theorem Prompt.adjust (prompt : h.Prompt) (i : Nat) (change : Mailbox → Mailbox) : (h.adjust i change).Prompt := by
  unfold Hub.adjust
  split
  · exact prompt
  · intro s member
    rcases Array.mem_or_eq_of_mem_setIfInBounds member with old | rfl
    · exact prompt s old
    · trivial

theorem adjust_timeline (h : Hub) (i : Nat) (change : Mailbox → Mailbox) :
    (h.adjust i change).timeline = h.timeline := by
  unfold adjust
  split <;> rfl

theorem adjust_clock (h : Hub) (i : Nat) (change : Mailbox → Mailbox) : (h.adjust i change).clock = h.clock := by
  unfold adjust
  split <;> rfl

theorem closeMailbox_adjusts (h : Hub) (i : Nat) : h.closeMailbox i = h.adjust i Mailbox.close :=
  rfl

end Hub

end LiveTiming
