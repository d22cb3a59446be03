import LiveTiming.Proofs.FloorRun
import LiveTiming.Proofs.HubAgreement

namespace LiveTiming

/-- What can be noticed at a queue: something happens to the broadcasts or the registrations, a broadcast
ends with its report, the reader takes frames, or the reader leaves. -/
inductive Remark
  | noticed (x : Occurrence)
  | reported (call : Call) (tally : Tally)
  | received (frames : List Bytes)
  | closed

namespace Remark

/-- What a remark says of the broadcasts and the registrations. -/
def occurrence? : Remark → Option Occurrence
  | .noticed x => some x
  | .reported call tally => some (.ended call tally.evicted)
  | .received _ | .closed => none

/-- The frames that the reader takes. -/
def frames : Remark → List Bytes
  | .received frames => frames
  | .noticed _ | .reported .. | .closed => []

/-- Whether something that is noticed at the queue of the subscriber with index `i` is the doing of others
than its reader. Nobody else takes frames out of the queue, leaves it, or registers the subscriber. -/
def IsForeign (i : Nat) : Remark → Prop
  | .noticed (.entered e) => e.subscriber ≠ i
  | .noticed _ | .reported .. => True
  | .received _ | .closed => False

end Remark

/-- What happened to the broadcasts and the registrations, the latest first. -/
def occurrences (past : List Remark) : List Occurrence :=
  past.filterMap Remark.occurrence?

/-- A step that somebody takes, seen from the queue of the subscriber with index `i`. The feed and the
reader of the queue take their steps in any order, and nobody else changes the queue. -/
inductive Floor.Move (i : Nat) : Floor → Option Remark → Floor → Prop
  | notice {f x g} : Step f (some x) g → (∀ call evicted, x ≠ .ended call evicted) →
      Move i f (some (.noticed x)) g
  | report {t h joining p caller tally u after} : t.pass = some p →
      t.conclude? h = some (caller, tally, u, after) →
      Move i ⟨t, h, joining⟩ (some (.reported p.call tally)) ⟨u, after, joining⟩
  | still {f g} : Step f none g → (∀ b, f.hub.mailbox? i = some b → g.hub.mailbox? i = some b) →
      Move i f none g
  | receive {t h joining} (count : Nat) :
      Move i ⟨t, h, joining⟩ (some (.received (h.receive i count).1)) ⟨t, (h.receive i count).2, joining⟩
  | close {t h joining} : Move i ⟨t, h, joining⟩ (some .closed) ⟨t, h.closeMailbox i, joining⟩

/-- Any number of steps, with what was noticed in them, the latest first. -/
inductive Floor.Moves (i : Nat) (start : Floor) : List Remark → Floor → Prop
  | start : Moves i start [] start
  | next {past f new g} : Moves i start past f → Move i f new g → Moves i start (new.toList ++ past) g

/-- The registrations and the deliveries of two hubs are the same. -/
def Hub.Alike (h after : Hub) : Prop :=
  after.roster = h.roster ∧ after.journal = h.journal

/-- Moreover the queue of the subscriber with index `i` is the same, if there is one. -/
structure Hub.Spares (i : Nat) (h after : Hub) : Prop where
  alike : h.Alike after
  queue : ∀ b, h.mailbox? i = some b → after.mailbox? i = some b

variable {i : Nat} {b : Mailbox} {h after final : Hub}

@[simp] theorem occurrences_nil : occurrences [] = [] :=
  rfl

theorem occurrences_cons (x : Remark) (past : List Remark) :
    occurrences (x :: past) = x.occurrence?.toList ++ occurrences past := by
  cases seen : x.occurrence? <;> simp [occurrences, seen]

/-- An entry is noticed when it occurs. -/
theorem noticed_entered {past : List Remark} {e : Entry} (entered : .entered e ∈ occurrences past) :
    .noticed (.entered e) ∈ past := by
  obtain ⟨x, listed, seen⟩ := List.mem_filterMap.mp entered
  cases x with
  | noticed =>
    cases seen
    exact listed
  | reported | received | closed => cases seen

theorem occurrences_append (later earlier : List Remark) :
    occurrences (later ++ earlier) = occurrences later ++ occurrences earlier :=
  List.filterMap_append

/-- Who has nothing to do with a queue takes no frame out of it. -/
theorem Remark.IsForeign.frames {x : Remark} (foreign : x.IsForeign i) : x.frames = [] := by
  cases x with
  | received | closed => exact foreign.elim
  | noticed | reported => rfl

namespace Hub

/-- A reader of a queue changes neither registrations nor journal. -/
theorem receive_alike (h : Hub) (subscriber count : Nat) : h.Alike (h.receive subscriber count).2 := by
  unfold receive
  split <;> exact ⟨rfl, rfl⟩

theorem closeMailbox_alike (h : Hub) (subscriber : Nat) : h.Alike (h.closeMailbox subscriber) := by
  unfold closeMailbox
  split <;> exact ⟨rfl, rfl⟩

theorem mailbox_congr {g : Hub} (same : g.subscribers = h.subscribers) (i : Nat) : g.mailbox? i = h.mailbox? i := by
  unfold mailbox?
  rw [same]

/-- A subscriber has a queue if it is one. -/
theorem mailbox_eq_some_iff : h.mailbox? i = some b ↔ h.subscribers[i]? = some (.mailbox b) := by
  unfold mailbox?
  split
  · rename_i known
    simp [known]
  · rename_i other
    refine ⟨nofun, fun known => ?_⟩
    exact absurd known (other b)

/-- A subscriber with a queue answers what the queue does. -/
theorem take_mailbox (queued : h.mailbox? i = some b) (frame : Bytes) :
    (h.take i frame).1 = (b.offer frame).1 ∧ (h.take i frame).2.mailbox? i = some (b.offer frame).2 := by
  have known := mailbox_eq_some_iff.mp queued
  rw [take_known known]
  refine ⟨rfl, ?_⟩
  rw [mailbox_congr (postAll_subscribers _ _), mailbox_eq_some_iff]
  have inside : i < h.subscribers.size := (Array.getElem?_eq_some_iff.mp known).1
  simp [inside, Subscriber.take]

/-- A frame for somebody else does not touch a queue. -/
theorem take_elsewhere {j : Nat} (other : j ≠ i) (frame : Bytes) :
    (h.take j frame).2.mailbox? i = h.mailbox? i := by
  cases known : h.subscribers[j]? with
  | none =>
    rw [take_unknown known]
    rfl
  | some s =>
    rw [take_known known, mailbox_congr (postAll_subscribers _ _)]
    simp only [mailbox?, Array.getElem?_setIfInBounds_ne other]

theorem adjust_mailbox (queued : h.mailbox? i = some b) (change : Mailbox → Mailbox) :
    (h.adjust i change).mailbox? i = some (change b) := by
  have known := mailbox_eq_some_iff.mp queued
  have inside : i < h.subscribers.size := (Array.getElem?_eq_some_iff.mp known).1
  rw [adjust, queued, mailbox_eq_some_iff]
  simp [setMailbox, inside]

theorem adjust_elsewhere {j : Nat} (other : j ≠ i) (change : Mailbox → Mailbox) :
    (h.adjust j change).mailbox? i = h.mailbox? i := by
  unfold adjust
  split
  · rfl
  · simp only [mailbox?, setMailbox, Array.getElem?_setIfInBounds_ne other]

theorem receive_frames (queued : h.mailbox? i = some b) (count : Nat) :
    (h.receive i count).1 = (b.receive count).1 := by
  unfold receive
  rw [queued]

/-- A reader takes the first frame of a queue, and the rest stays. -/
theorem receive_first {frame : Bytes} {frames : List Bytes}
    (queued : h.mailbox? i = some b) (held : b.queue.toList = frame :: frames) :
    ∃ after, h.receive i 1 = ([frame], after) ∧ after.mailbox? i = some { b with queue := frames.toArray } ∧
      h.Alike after := by
  obtain ⟨name, room, ⟨_⟩, isOpen⟩ := b
  cases held
  refine ⟨(h.receive i 1).2, Prod.ext ?_ rfl, ?_, h.receive_alike i 1⟩
  · rw [receive_frames queued]
    simp [Mailbox.receive]
  · rw [receive_adjusts, adjust_mailbox queued]
    simp [Mailbox.receive]

/-- Who leaves the subscribers alone leaves every queue alone. -/
theorem spares_of_subscribers (alike : h.Alike after) (same : after.subscribers = h.subscribers) :
    h.Spares i after :=
  ⟨alike, fun _ queued => (mailbox_congr same i).trans queued⟩

/-- So does what only changes the schedule. -/
theorem Rescheduled.spares (rescheduled : h.Rescheduled after) : h.Spares i after := by
  rw [Rescheduled] at rescheduled
  rw [rescheduled]
  exact spares_of_subscribers ⟨rfl, rfl⟩ rfl

theorem takeDue_spares (h : Hub) : h.Spares i h.takeDue.2 :=
  spares_of_subscribers ⟨rfl, rfl⟩ rfl

end Hub

/-- Until a message is sent a command gives nobody a frame, ends no registration and touches no queue. -/
theorem Feed.react_spares (f : Feed) (c : Command) : f.hub.Spares i (f.react c).2.hub :=
  (f.react_rescheduled c).spares

namespace Floor

variable {f g k start now : Floor} {new : Option Remark} {past more : List Remark}

theorem Move.moves (move : f.Move i new g) : f.Moves i new.toList g := by
  simpa using Moves.start.next move

theorem Moves.trans (moves : f.Moves i past g) (later : g.Moves i more k) : f.Moves i (more ++ past) k := by
  induction later with
  | start => exact moves
  | next _ move ih =>
    rw [List.append_assoc]
    exact ih.next move

/-- Seen without the readers, a move is a step of the floor. -/
theorem Move.step (move : f.Move i new g) : f.Step (new.bind Remark.occurrence?) g := by
  cases move with
  | notice step => exact step
  | report busy concludes => exact .conclude busy concludes
  | still step => exact step
  | receive count =>
    obtain ⟨roster, journal⟩ := Hub.receive_alike _ i count
    exact .aside roster journal
  | close =>
    obtain ⟨roster, journal⟩ := Hub.closeMailbox_alike _ i
    exact .aside roster journal

/-- Seen without the readers, moves are a run of the floor. -/
theorem Moves.run (moves : start.Moves i past now) : start.Run (occurrences past) now := by
  induction moves with
  | start => exact .start
  | @next past f new g _ move ih =>
    have same : occurrences (new.toList ++ past) = (new.bind Remark.occurrence?).toList ++ occurrences past := by
      cases new with
      | none => rfl
      | some x => cases same : x.occurrence? <;> simp [occurrences, same]
    rw [same]
    exact ih.next move.step

/-- What happened before anything that was noticed. -/
theorem Moves.split {later earlier : List Remark} {x : Remark} (moves : start.Moves i past now)
    (parts : past = later ++ x :: earlier) : ∃ f g, start.Moves i earlier f ∧ f.Move i (some x) g := by
  induction moves generalizing later with
  | start => simp at parts
  | @next past f new g moves move ih =>
    cases new with
    | none => exact ih parts
    | some y =>
      rcases List.cons_eq_append_iff.mp parts with ⟨rfl, same⟩ | ⟨more, rfl, rest⟩
      · obtain ⟨rfl, rfl⟩ := List.cons.inj same
        exact ⟨f, g, moves, move⟩
      · exact ih rest

end Floor

end LiveTiming
