import LiveTiming.Proofs.FeedRun
import LiveTiming.Proofs.ServiceDesk

namespace LiveTiming

/-- Somebody who aborts the races of a component: the number of the abort, the events that he has
not come to, and how many he has cancelled. -/
structure Marshal where
  abort : Nat
  component : String
  left : List EventId
  count : Nat := 0

/-- A desk with the book of races, those who abort races, and the number of aborts that have begun. -/
structure Office where
  desk : Desk
  races : RaceBook := {}
  marshals : List Marshal := []
  aborts : Nat := 0

/-- What can be noticed at an office: something at its desk, the events of a race are noted under its
component, an abort begins with the events that it finds noted, it comes to one of them and cancels it
unless it is too late, and it ends with the number of those that it has cancelled. -/
inductive Report
  | noticed (x : Notice)
  | noted (component : String) (ids : List EventId)
  | began (abort : Nat) (component : String) (found : List EventId)
  | struck (abort : Nat) (id : EventId) (answer : Bool)
  | ended (abort : Nat) (component : String) (count : Nat)

/-- A step that anybody takes at an office. Those who send what is due and those who abort races take
their steps in any order, and an abort comes to one event in each of its steps. Before the events of a
race are noted the book is looked through for those that are to come, event by event: `t` tells
which of them were found to be. -/
inductive Office.Step : Office → Option Report → Office → Prop
  | atDesk {d notice after races marshals aborts} : d.Step notice after →
      Step ⟨d, races, marshals, aborts⟩ (notice.map .noticed) ⟨after, races, marshals, aborts⟩
  | note {d races marshals aborts component ids} {t : Timeline} :
      (∀ id, d.hub.timeline.contains id = true → t.contains id = true) →
      (∀ id ∈ ids, id < d.hub.timeline.nextId) →
      Step ⟨d, races, marshals, aborts⟩ (some (.noted component ids))
        ⟨d, (races.prune t).extend component ids, marshals, aborts⟩
  | begin {d races marshals aborts component} :
      Step ⟨d, races, marshals, aborts⟩ (some (.began aborts component (races.eventsOf component)))
        ⟨d, races.forget component, ⟨aborts, component, races.eventsOf component, 0⟩ :: marshals, aborts + 1⟩
  | strike {h senders races first n component id left count later aborts} :
      Step ⟨⟨h, senders⟩, races, first ++ ⟨n, component, id :: left, count⟩ :: later, aborts⟩
        (some (.struck n id (h.cancel id).1))
        ⟨⟨(h.cancel id).2, senders⟩, races,
          first ++ ⟨n, component, left, if (h.cancel id).1 then count + 1 else count⟩ :: later, aborts⟩
  | finish {d races first n component count later aborts} :
      Step ⟨d, races, first ++ ⟨n, component, [], count⟩ :: later, aborts⟩ (some (.ended n component count))
        ⟨d, races, first ++ later, aborts⟩

/-- Any number of steps, with what was noticed in them, the latest first. -/
inductive Office.Run (start : Office) : List Report → Office → Prop
  | start : Run start [] start
  | next {past o new after} : Run start past o → Step o new after → Run start (new.toList ++ past) after

namespace Report

/-- What a report says about the desk. -/
@[simp] def notice? : Report → Option Notice
  | .noticed x => some x
  | .struck _ id answer => some (.cancelled id answer)
  | _ => none

/-- The event that an abort comes to, and whether it cancels it. -/
@[simp] def strike? (abort : Nat) : Report → Option (EventId × Bool)
  | .struck n id answer => if n = abort then some (id, answer) else none
  | _ => none

/-- The event that some abort cancels. -/
@[simp] def granted? : Report → Option EventId
  | .struck _ id true => some id
  | _ => none

/-- The events that are noted under a component. -/
@[simp] def notes (component : String) : Report → List EventId
  | .noted c ids => if c = component then ids else []
  | _ => []

end Report

/-- What was noticed at the desk, the latest first. -/
def notices (past : List Report) : List Notice :=
  past.filterMap Report.notice?

/-- What an abort came to, in turn. -/
def strikes (abort : Nat) (past : List Report) : List (EventId × Bool) :=
  (past.filterMap (Report.strike? abort)).reverse

/-- The events that aborts have cancelled, the latest first. -/
def granted (past : List Report) : List EventId :=
  past.filterMap Report.granted?

/-- The events that were noted under a component. -/
def notedFor (component : String) (past : List Report) : List EventId :=
  past.flatMap (Report.notes component)

/-- The event that was taken and whose broadcast has not ended. -/
@[simp] def Sender.hand? (s : Sender) : Option EventId :=
  s.event?.map Event.id

/-- The events that those who send have in their hands. -/
def Desk.hands (d : Desk) : List EventId :=
  d.senders.filterMap Sender.hand?

/-- What the past says of an abort: it has come to the events that it found, but for those that are
left, and has counted those that it has cancelled. -/
def Marshal.Agrees (past : List Report) (m : Marshal) : Prop :=
  .began m.abort m.component ((strikes m.abort past).map Prod.fst ++ m.left) ∈ past ∧
    m.count = (strikes m.abort past).countP Prod.snd

/-- Everything stands where the past says, when nothing was scheduled or noted before it began. -/
structure Office.Agrees (past : List Report) (o : Office) : Prop where
  sound : o.desk.hub.timeline.Sound
  distinct : o.races.Distinct
  issued : ∀ c, ∀ id ∈ notedFor c past, id < o.desk.hub.timeline.nextId
  booked : ∀ c, ∀ id ∈ o.races.eventsOf c, id ∈ notedFor c past
  /-- An event of a race that is to come stands in the book, or an abort has yet to come to it. -/
  tracked : ∀ c, ∀ id ∈ notedFor c past, o.desk.hub.timeline.contains id = true →
    id ∈ o.races.eventsOf c ∨ ∃ m ∈ o.marshals, m.component = c ∧ id ∈ m.left
  found : ∀ n c ids, .began n c ids ∈ past → n < o.aborts ∧ ∀ id ∈ ids, id ∈ notedFor c past
  single : ∀ n c ids d others, .began n c ids ∈ past → .began n d others ∈ past → ids = others
  struck : ∀ n id answer, .struck n id answer ∈ past →
    n < o.aborts ∧ id < o.desk.hub.timeline.nextId ∧ o.desk.hub.timeline.contains id = false
  numbers : (o.marshals.map Marshal.abort).Nodup
  working : ∀ m ∈ o.marshals, m.Agrees past
  ended : ∀ n c count, .ended n c count ∈ past →
    (Marshal.mk n c [] count).Agrees past ∧ n ∉ o.marshals.map Marshal.abort

variable {start o g after : Office} {past more : List Report} {new : Option Report} {d left : Desk}
  {notice : Option Notice} {steps : List Notice} {h : Hub} {component c : String} {id : EventId}

theorem strikes_append (n : Nat) (more past : List Report) :
    strikes n (more ++ past) = strikes n past ++ strikes n more := by
  simp [strikes]

theorem mem_strikes {n : Nat} {answer : Bool} : (id, answer) ∈ strikes n past ↔ .struck n id answer ∈ past := by
  rw [strikes, List.mem_reverse, List.mem_filterMap]
  constructor
  · rintro ⟨x, member, same⟩
    cases x with
    | struck m other granted =>
      obtain ⟨rfl, rfl, rfl⟩ : m = n ∧ other = id ∧ granted = answer := by simpa using same
      exact member
    | noticed | noted | began | ended => cases same
  · exact fun member => ⟨_, member, if_pos rfl⟩

theorem Marshal.Agrees.later {m : Marshal} (agrees : m.Agrees past) (more : List Report)
    (apart : strikes m.abort more = []) :
    m.Agrees (more ++ past) := by
  unfold Agrees
  rw [strikes_append, apart, List.append_nil]
  exact ⟨List.mem_append_right _ agrees.1, agrees.2⟩

/-- An abort counts the event that it has just come to if it cancels it. -/
theorem Marshal.Agrees.strike {n count : Nat} {ids : List EventId} {answer : Bool}
    (agrees : (Marshal.mk n component (id :: ids) count).Agrees past) :
    (Marshal.mk n component ids (if answer then count + 1 else count)).Agrees (.struck n id answer :: past) := by
  obtain ⟨began, counted⟩ := agrees
  have more : strikes n (.struck n id answer :: past) = strikes n past ++ [(id, answer)] := by
    simp [strikes]
  constructor
  · rw [more, List.map_append, List.append_assoc]
    exact List.mem_cons_of_mem _ began
  · dsimp only at counted ⊢
    rw [more, List.countP_append, counted]
    cases answer <;> rfl

namespace Desk

/-- Nobody takes an event that is not to come. -/
theorem Step.hands (step : d.Step notice left) (sound : d.hub.timeline.Sound)
    (gone : d.hub.timeline.contains id = false) (held : id ∈ left.hands) : id ∈ d.hands := by
  cases step with
  | post | cancel | moveClock | look | give | enrol | aside => exact held
  | call => exact (Sender.mem_middle.mp held).resolve_left nofun
  | leave => exact Sender.mem_middle.mpr (.inr held)
  | work step =>
    refine Sender.mem_middle.mpr ((Sender.mem_middle.mp held).imp_left fun own => ?_)
    cases step with
    | @take _ _ e _ taken =>
      obtain ⟨member, _⟩ := Timeline.takeDue_some sound (Hub.takeDue_eq taken).1
      obtain rfl : e.id = id := by simpa using own
      rw [sound.contains_iff.mpr ⟨e, member, rfl⟩] at gone
      cases gone
    | begin | tell => exact own
    | finish => cases own

theorem Run.hands (run : d.Run steps left) (sound : d.hub.timeline.Sound) (issued : id < d.hub.timeline.nextId)
    (gone : d.hub.timeline.contains id = false) (held : id ∈ left.hands) : id ∈ d.hands := by
  induction run with
  | start => exact held
  | next previous step ih =>
    refine ih (step.hands (previous.hub.timeline sound).1 ?_ held)
    refine Bool.eq_false_of_not_eq_true fun again => ?_
    rw [previous.hub.contains_before sound issued again] at gone
    cases gone

/-- Who tells a subscriber of an event has it in hand. -/
theorem Step.told {e : Event} {entry : Entry} {time : Nat} (step : d.Step (some (.told e entry time)) left) :
    e.id ∈ d.hands := by
  cases step with
  | work step =>
    cases step with
    | tell => exact Sender.mem_middle.mpr (.inl rfl)

/-- Only who has an event in hand tells anybody of it once it is not to come. -/
theorem Run.told_held {entry : Entry} (run : d.Run steps left) (sound : d.hub.timeline.Sound)
    (issued : id < d.hub.timeline.nextId) (gone : d.hub.timeline.contains id = false)
    (told : entry ∈ Notice.hearers id steps) : id ∈ d.hands := by
  obtain ⟨x, member, tells⟩ := List.mem_filterMap.mp (List.mem_reverse.mp told)
  obtain ⟨later, earlier, parts⟩ := List.append_of_mem member
  obtain ⟨_, first, _⟩ := run.split parts
  obtain ⟨before, _, previous, step⟩ := first.last
  cases x with
  | told e other time =>
    obtain ⟨rfl, _⟩ := (Option.ite_none_right_eq_some.mp tells)
    exact previous.hands sound issued gone step.told
  | posted | cancelled | taken | began | ended | given | enrolled | returned => cases tells

theorem Fates.taken_of_hand {past : List Notice} (fates : d.Fates h past) (held : id ∈ d.hands) :
    id ∈ past.filterMap Notice.taken? := by
  obtain ⟨⟨n, stage⟩, works, inHand⟩ := List.mem_filterMap.mp held
  have taken := fates.began id
  rw [← List.count_pos_iff]
  cases stage with
  | looking => cases inHand
  | taken e =>
    have holds : 0 < (d.senders.filterMap Sender.holds?).count id :=
      List.count_pos_iff.mpr (List.mem_filterMap.mpr ⟨_, works, inHand⟩)
    omega
  | telling e left tally =>
    have tells : 0 < (d.senders.filterMap Sender.tells?).count id :=
      List.count_pos_iff.mpr (List.mem_filterMap.mpr ⟨_, works, inHand⟩)
    have began := fates.ended id
    omega

/-- An event is cancelled once at most. -/
theorem Fates.cancelled_nodup {past : List Notice} (fates : d.Fates h past) :
    (past.filterMap Notice.cancelled?).Nodup := by
  refine List.nodup_iff_count_le_one.mpr fun id => ?_
  rcases Nat.lt_or_ge id d.hub.timeline.nextId with issued | unissued
  · have one := fates.one id issued
    omega
  · rw [List.count_eq_zero.mpr (fates.unissued id unissued).2.2]
    exact Nat.zero_le 1

end Desk

namespace Office

theorem Step.run (step : o.Step new after) : o.Run new.toList after := by
  simpa using Run.start.next step

theorem Run.trans (run : start.Run past o) (later : o.Run more g) : start.Run (more ++ past) g := by
  induction later with
  | start => exact run
  | next _ step ih =>
    rw [List.append_assoc]
    exact ih.next step

theorem Step.desk (step : o.Step new after) : o.desk.Run (notices new.toList) after.desk := by
  cases step with
  | @atDesk _ notice _ _ _ _ step =>
    have same : notices (notice.map Report.noticed).toList = notice.toList := by
      cases notice <;> rfl
    exact same ▸ step.run
  | note | begin | finish => exact .start
  | strike => exact Desk.Step.run .cancel

/-- What is noticed at an office are steps at its desk. -/
theorem Run.desk (run : start.Run past o) : start.desk.Run (notices past) o.desk := by
  induction run with
  | start => exact .start
  | next _ step ih =>
    rw [notices, List.filterMap_append]
    exact ih.trans step.desk

/-- What is to come was to come before, if it was scheduled by then. -/
theorem Agrees.moved (agrees : o.Agrees past) (run : o.desk.Run steps left) :
    left.hub.timeline.Sound ∧ o.desk.hub.timeline.nextId ≤ left.hub.timeline.nextId ∧
      ∀ id < o.desk.hub.timeline.nextId, left.hub.timeline.contains id = true →
        o.desk.hub.timeline.contains id = true :=
  ⟨(run.hub.timeline agrees.sound).1, run.hub.nextId_le agrees.sound,
    fun _ old => run.hub.contains_before agrees.sound old⟩

theorem Agrees.still_gone (agrees : o.Agrees past) (run : o.desk.Run steps left)
    (issued : id < o.desk.hub.timeline.nextId) (gone : o.desk.hub.timeline.contains id = false) :
    left.hub.timeline.contains id = false := by
  refine Bool.eq_false_of_not_eq_true fun again => ?_
  rw [(agrees.moved run).2.2 id issued again] at gone
  cases gone

theorem Agrees.number_lt {m : Marshal} (agrees : o.Agrees past) (works : m.Agrees past) : m.abort < o.aborts :=
  (agrees.found _ _ _ works.1).1

section

variable {races : RaceBook} {marshals first later : List Marshal} {n count aborts : Nat} {ids : List EventId}
  {senders : List Sender}

/-- What happens at the desk does not touch the book, nor those who abort races. -/
theorem Agrees.at_desk (agrees : (Office.mk d races marshals aborts).Agrees past) (run : d.Run steps left) :
    (Office.mk left races marshals aborts).Agrees (steps.map .noticed ++ past) := by
  have old {x : Report} (member : x ∈ steps.map .noticed ++ past) (other : ∀ y, .noticed y ≠ x) : x ∈ past :=
    (List.mem_append.mp member).resolve_left fun now => by
      obtain ⟨y, _, same⟩ := List.mem_map.mp now
      exact other y same
  have unnoted (c : String) : notedFor c (steps.map .noticed ++ past) = notedFor c past := by
    simp [notedFor]
  have unstruck (n : Nat) : strikes n (steps.map .noticed) = [] := by
    simp [strikes]
  obtain ⟨sound, issued, before⟩ := agrees.moved run
  refine ⟨sound, agrees.distinct, fun c id member => ?_, fun c id member => ?_, fun c id member live => ?_,
    fun n c ids began => ?_, fun n c ids d others one two => ?_, fun n id answer struck => ?_, agrees.numbers,
    fun m works => (agrees.working m works).later _ (unstruck _), fun n c count ended => ?_⟩
  · rw [unnoted] at member
    exact (agrees.issued c id member).trans_le issued
  · rw [unnoted]
    exact agrees.booked c id member
  · rw [unnoted] at member
    exact agrees.tracked c id member (before id (agrees.issued c id member) live)
  · rw [unnoted]
    exact agrees.found n c ids (old began nofun)
  · exact agrees.single n c ids d others (old one nofun) (old two nofun)
  · obtain ⟨number, known, gone⟩ := agrees.struck n id answer (old struck nofun)
    exact ⟨number, known.trans_le issued, agrees.still_gone run known gone⟩
  · obtain ⟨count, finished⟩ := agrees.ended n c count (old ended nofun)
    exact ⟨count.later _ (unstruck _), finished⟩

/-- The book forgets nothing that is to come when the events of a race are noted. -/
theorem Agrees.note {t : Timeline} (agrees : (Office.mk d races marshals aborts).Agrees past)
    (kept : ∀ id, d.hub.timeline.contains id = true → t.contains id = true)
    (known : ∀ id ∈ ids, id < d.hub.timeline.nextId) :
    (Office.mk d ((races.prune t).extend component ids) marshals aborts).Agrees (.noted component ids :: past) := by
  have pruned := RaceBook.prune_distinct agrees.distinct t
  have noted {c : String} {id : EventId} : id ∈ notedFor c (.noted component ids :: past) ↔
      c = component ∧ id ∈ ids ∨ id ∈ notedFor c past := by
    simp [notedFor, eq_comm]
  have old {x : Report} (member : x ∈ Report.noted component ids :: past)
      (other : ∀ c ids, x ≠ .noted c ids) : x ∈ past :=
    (List.mem_cons.mp member).resolve_left (other _ _)
  refine ⟨agrees.sound, RaceBook.extend_distinct pruned _ _, fun c id => ?_, fun c id => ?_, fun c id => ?_,
    fun n c found began => ?_, fun n c found d others one two => ?_, fun n id answer struck => ?_, agrees.numbers,
    fun m works => (agrees.working m works).later [_] rfl, fun n c count ended => ?_⟩
  · rw [noted]
    rintro (⟨_, new⟩ | old)
    · exact known id new
    · exact agrees.issued c id old
  · rw [RaceBook.mem_extend pruned, RaceBook.mem_prune agrees.distinct, noted]
    rintro (⟨old, _⟩ | new)
    · exact Or.inr (agrees.booked c id old)
    · exact Or.inl new
  · rw [RaceBook.mem_extend pruned, RaceBook.mem_prune agrees.distinct, noted]
    rintro (new | old) live
    · exact Or.inl (Or.inr new)
    · exact (agrees.tracked c id old live).imp_left fun booked => Or.inl ⟨booked, kept id live⟩
  · obtain ⟨number, own⟩ := agrees.found n c found (old began nofun)
    exact ⟨number, fun id member => noted.mpr (Or.inr (own id member))⟩
  · exact agrees.single n c found d others (old one nofun) (old two nofun)
  · exact agrees.struck n id answer (old struck nofun)
  · obtain ⟨count, finished⟩ := agrees.ended n c count (old ended nofun)
    exact ⟨count.later [_] rfl, finished⟩

/-- Nothing was said of an abort before it begins. -/
theorem Agrees.unstruck (agrees : o.Agrees past) (new : o.aborts ≤ n) : strikes n past = [] := by
  refine List.eq_nil_iff_forall_not_mem.mpr fun ⟨id, answer⟩ member => ?_
  exact Nat.lt_irrefl _ ((agrees.struck n id answer (mem_strikes.mp member)).1.trans_le new)

theorem Agrees.begin (agrees : (Office.mk d races marshals aborts).Agrees past) :
    (Office.mk d (races.forget component)
      (⟨aborts, component, races.eventsOf component, 0⟩ :: marshals) (aborts + 1)).Agrees
      (.began aborts component (races.eventsOf component) :: past) := by
  have old {x : Report} (member : x ∈ Report.began aborts component (races.eventsOf component) :: past)
      (other : ∀ n c ids, x ≠ .began n c ids) : x ∈ past :=
    (List.mem_cons.mp member).resolve_left (other _ _ _)
  have fresh {c : String} {ids : List EventId} : .began aborts c ids ∉ past := fun began =>
    Nat.lt_irrefl _ (agrees.found _ _ _ began).1
  refine ⟨agrees.sound, RaceBook.forget_distinct agrees.distinct _, agrees.issued, fun c id booked => ?_,
    fun c id noted live => ?_, fun n c ids began => ?_, fun n c ids d others one two => ?_,
    fun n id answer struck => ?_, ?_, fun m works => ?_, fun n c count ended => ?_⟩
  · exact agrees.booked c id ((RaceBook.mem_forget agrees.distinct).mp booked).2
  · rcases agrees.tracked c id noted live with booked | ⟨m, works, own, member⟩
    · by_cases same : c = component
      · subst same
        exact Or.inr ⟨_, List.mem_cons_self .., rfl, booked⟩
      · exact Or.inl ((RaceBook.mem_forget agrees.distinct).mpr ⟨same, booked⟩)
    · exact Or.inr ⟨m, List.mem_cons_of_mem _ works, own, member⟩
  · rcases List.mem_cons.mp began with same | earlier
    · cases same
      exact ⟨Nat.lt_succ_self _, agrees.booked component⟩
    · exact (agrees.found n c ids earlier).imp_left Nat.lt_succ_of_lt
  · rcases List.mem_cons.mp one with same | one
    · cases same
      rcases List.mem_cons.mp two with same | two
      · cases same
        rfl
      · exact absurd two fresh
    · rcases List.mem_cons.mp two with same | two
      · cases same
        exact absurd one fresh
      · exact agrees.single n c ids d others one two
  · exact (agrees.struck n id answer (old struck nofun)).imp_left Nat.lt_succ_of_lt
  · refine List.nodup_cons.mpr ⟨fun member => ?_, agrees.numbers⟩
    obtain ⟨m, works, same⟩ := List.mem_map.mp member
    exact Nat.lt_irrefl _ (same ▸ agrees.number_lt (agrees.working m works))
  · rcases List.mem_cons.mp works with rfl | earlier
    · have unstruck : strikes aborts (.began aborts component (races.eventsOf component) :: past) = [] :=
        agrees.unstruck le_rfl
      rw [Marshal.Agrees, unstruck]
      exact ⟨List.mem_cons_self .., rfl⟩
    · exact (agrees.working m earlier).later [_] rfl
  · obtain ⟨counted, finished⟩ := agrees.ended n c count (old ended nofun)
    refine ⟨counted.later [_] rfl, fun member => ?_⟩
    rcases List.mem_cons.mp member with rfl | working
    · exact Nat.lt_irrefl _ (agrees.number_lt counted)
    · exact finished working

/-- Whoever aborts races is the one in the middle or one of the others. -/
theorem mem_middle {m n : Marshal} : m ∈ first ++ n :: later ↔ m = n ∨ m ∈ first ++ later :=
  List.perm_middle.mem_iff.trans List.mem_cons

theorem numbers_middle {n : Marshal} : ((first ++ n :: later).map Marshal.abort).Nodup ↔
    n.abort ∉ (first ++ later).map Marshal.abort ∧ ((first ++ later).map Marshal.abort).Nodup :=
  (List.perm_middle.map _).nodup_iff.trans List.nodup_cons

theorem Agrees.strike
    (agrees : (Office.mk ⟨h, senders⟩ races (first ++ ⟨n, component, id :: ids, count⟩ :: later)
      aborts).Agrees past) :
    (Office.mk ⟨(h.cancel id).2, senders⟩ races
      (first ++ ⟨n, component, ids, if (h.cancel id).1 then count + 1 else count⟩ :: later) aborts).Agrees
      (.struck n id (h.cancel id).1 :: past) := by
  have works := agrees.working _ (mem_middle.mpr (.inl rfl))
  obtain ⟨number, noted⟩ := agrees.found _ _ _ works.1
  obtain ⟨unique, numbers⟩ := numbers_middle.mp agrees.numbers
  have run : (Desk.mk h senders).Run [.cancelled id (h.cancel id).1] ⟨(h.cancel id).2, senders⟩ :=
    Desk.Step.run .cancel
  obtain ⟨sound, _, before⟩ := agrees.moved run
  have known : id < h.timeline.nextId := agrees.issued component id (noted id (by simp))
  have gone : (h.cancel id).2.timeline.contains id = false := by
    simp [Hub.cancel, Timeline.cancel, Timeline.contains]
  have unstruck {k : Nat} (other : k ≠ n) : strikes k [.struck n id (h.cancel id).1] = [] := by
    simp [strikes, other.symm]
  have old {x : Report} (member : x ∈ Report.struck n id (h.cancel id).1 :: past)
      (other : ∀ n id answer, x ≠ .struck n id answer) : x ∈ past :=
    (List.mem_cons.mp member).resolve_left (other _ _ _)
  refine ⟨sound, agrees.distinct, agrees.issued, agrees.booked, fun c other noted live => ?_,
    fun k c ids began => agrees.found k c ids (old began (by simp)),
    fun k c ids d others one two => agrees.single k c ids d others (old one (by simp)) (old two (by simp)),
    fun k other answer struck => ?_, numbers_middle.mpr ⟨unique, numbers⟩, fun m working => ?_,
    fun k c count ended => ?_⟩
  · -- An abort has yet to come to the event, but not to the one that it has just come to.
    refine (agrees.tracked c other noted (before other (agrees.issued c other noted) live)).imp_right ?_
    rintro ⟨m, works, own, member⟩
    rcases mem_middle.mp works with rfl | works
    · refine ⟨_, mem_middle.mpr (.inl rfl), own, (List.mem_cons.mp member).resolve_left ?_⟩
      rintro rfl
      cases gone.symm.trans live
    · exact ⟨m, mem_middle.mpr (.inr works), own, member⟩
  · rcases List.mem_cons.mp struck with same | earlier
    · cases same
      exact ⟨number, known, gone⟩
    · obtain ⟨issued, known, absent⟩ := agrees.struck k other answer earlier
      exact ⟨issued, known, agrees.still_gone run known absent⟩
  · rcases mem_middle.mp working with rfl | working
    · exact works.strike
    · refine (agrees.working m (mem_middle.mpr (.inr working))).later [_] (unstruck fun same => unique ?_)
      exact List.mem_map.mpr ⟨m, working, same⟩
  · obtain ⟨counted, finished⟩ := agrees.ended k c count (old ended (by simp))
    have other : k ≠ n := by
      rintro rfl
      exact finished (by simp)
    refine ⟨counted.later [_] (unstruck other), fun member => finished ?_⟩
    rw [List.map_append, List.map_cons] at member ⊢
    exact member

theorem Agrees.finish
    (agrees : (Office.mk d races (first ++ ⟨n, component, [], count⟩ :: later) aborts).Agrees past) :
    (Office.mk d races (first ++ later) aborts).Agrees (.ended n component count :: past) := by
  obtain ⟨unique, numbers⟩ := numbers_middle.mp agrees.numbers
  have old {x : Report} (member : x ∈ Report.ended n component count :: past)
      (other : ∀ n c count, x ≠ .ended n c count) : x ∈ past :=
    (List.mem_cons.mp member).resolve_left (other _ _ _)
  refine ⟨agrees.sound, agrees.distinct, agrees.issued, agrees.booked, fun c id noted live => ?_,
    fun k c ids began => agrees.found k c ids (old began nofun),
    fun k c ids d others one two => agrees.single k c ids d others (old one nofun) (old two nofun),
    fun k id answer struck => agrees.struck k id answer (old struck nofun), numbers,
    fun m works => (agrees.working m (mem_middle.mpr (.inr works))).later [_] rfl, fun k c count' ended => ?_⟩
  · refine (agrees.tracked c id noted live).imp_right ?_
    rintro ⟨m, works, own, member⟩
    refine ⟨m, (mem_middle.mp works).resolve_left ?_, own, member⟩
    rintro rfl
    cases member
  · rcases List.mem_cons.mp ended with same | earlier
    · cases same
      exact ⟨(agrees.working _ (mem_middle.mpr (.inl rfl))).later [_] rfl, unique⟩
    · obtain ⟨counted, finished⟩ := agrees.ended k c count' earlier
      refine ⟨counted.later [_] rfl, fun member => finished ?_⟩
      exact ((List.perm_middle.map _).mem_iff).mpr (List.mem_cons_of_mem _ member)

end

/-- Nothing is scheduled yet at an office, and nobody sends or aborts anything. -/
def fresh (h : Hub) : Office where
  desk := .fresh h

theorem Step.agrees (step : o.Step new after) (agrees : o.Agrees past) : after.Agrees (new.toList ++ past) := by
  cases step with
  | @atDesk _ notice _ _ _ _ step =>
    have same : (notice.map Report.noticed).toList = notice.toList.map .noticed := by
      cases notice <;> rfl
    exact same ▸ agrees.at_desk step.run
  | note kept known => exact agrees.note kept known
  | begin => exact agrees.begin
  | strike => exact agrees.strike
  | finish => exact agrees.finish

theorem Run.agrees (run : (fresh h).Run past o) : o.Agrees past := by
  induction run with
  | start =>
    exact ⟨Timeline.sound_empty, List.nodup_nil, nofun, nofun, nofun, nofun, nofun, nofun, List.nodup_nil, nofun,
      nofun⟩
  | next _ step ih => exact step.agrees ih

theorem granted_sublist (past : List Report) :
    (granted past).Sublist ((notices past).filterMap Notice.cancelled?) := by
  induction past with
  | nil => exact List.Sublist.refl _
  | cons x past ih =>
    cases x with
    | noticed x =>
      have more : (notices (.noticed x :: past)).filterMap Notice.cancelled? =
          [x].filterMap Notice.cancelled? ++ (notices past).filterMap Notice.cancelled? :=
        List.filterMap_append (l := [x])
      rw [more]
      exact ih.trans (List.sublist_append_right _ _)
    | struck n id answer =>
      cases answer with
      | false => exact ih
      | true => exact ih.cons_cons id
    | noted | began | ended => exact ih

theorem struck_of_granted (member : id ∈ granted past) : ∃ n, .struck n id true ∈ past := by
  obtain ⟨x, listed, same⟩ := List.mem_filterMap.mp member
  cases x with
  | struck n other answer =>
    cases answer with
    | false => cases same
    | true =>
      cases same
      exact ⟨n, listed⟩
  | noticed | noted | began | ended => cases same

/-- When an abort has ended none of the events that it found is to come. -/
theorem Agrees.returned {n count : Nat} {d : String} {found : List EventId} (agrees : o.Agrees past)
    (ended : .ended n c count ∈ past) (began : .began n d found ∈ past) (member : id ∈ found) :
    id < o.desk.hub.timeline.nextId ∧ o.desk.hub.timeline.contains id = false := by
  have visited := (agrees.ended n c count ended).1.1
  rw [List.append_nil] at visited
  rw [agrees.single n d found c _ began visited] at member
  obtain ⟨⟨_, answer⟩, struck, rfl⟩ := List.mem_map.mp member
  exact (agrees.struck n _ answer (mem_strikes.mp struck)).2

/-- An abort that nobody disturbs comes to all the events that are left, one after the other. -/
theorem strikes_run (h : Hub) (senders : List Sender) (races : RaceBook) (marshals : List Marshal)
    (n aborts : Nat) (component : String) (ids : List EventId) (count : Nat) :
    ∃ struck, (Office.mk ⟨h, senders⟩ races (⟨n, component, ids, count⟩ :: marshals) aborts).Run struck
        ⟨⟨(ids.foldl Hub.cancelNext (count, h)).2, senders⟩, races,
          ⟨n, component, [], (ids.foldl Hub.cancelNext (count, h)).1⟩ :: marshals, aborts⟩ ∧
      ∀ x ∈ struck, ∃ id answer, x = .struck n id answer := by
  induction ids generalizing h count with
  | nil => exact ⟨[], .start, nofun⟩
  | cons id ids ih =>
    obtain ⟨struck, run, only⟩ := ih (h.cancel id).2 (Hub.cancelNext (count, h) id).1
    have first := (@Step.strike h senders races [] n component id ids count marshals aborts).run
    refine ⟨_, first.trans run, fun x member => ?_⟩
    rcases List.mem_append.mp member with later | now
    · exact only x later
    · exact ⟨id, _, List.mem_singleton.mp now⟩

/-- A feed that aborts the races of a component while nobody else does anything. -/
theorem abort_run (f : Feed) (senders : List Sender) (marshals : List Marshal) (aborts : Nat)
    (component : String) :
    let aborted := f.abort component
    ∃ struck, (Office.mk ⟨f.hub, senders⟩ f.races marshals aborts).Run
        (.ended aborts component aborted.1 :: (struck ++ [.began aborts component (f.races.eventsOf component)]))
        ⟨⟨aborted.2.hub, senders⟩, aborted.2.races, marshals, aborts + 1⟩ ∧
      ∀ x ∈ struck, ∃ id answer, x = .struck aborts id answer := by
  intro aborted
  have begins : (Office.mk ⟨f.hub, senders⟩ f.races marshals aborts).Step _ _ := @Step.begin _ _ _ _ component
  obtain ⟨struck, run, only⟩ := strikes_run f.hub senders (f.races.forget component) marshals aborts (aborts + 1)
    component (f.races.eventsOf component) 0
  exact ⟨struck, (begins.run.trans run).next (@Step.finish _ _ [] _ _ _ _ _), only⟩

section

variable {marshals : List Marshal} {aborts : Nat}

/-- Steps at a desk are steps at an office with it. -/
theorem Run.of_desk (run : d.Run steps left) (races : RaceBook) (marshals : List Marshal) (aborts : Nat) :
    (Office.mk d races marshals aborts).Run (steps.map .noticed) ⟨left, races, marshals, aborts⟩ := by
  induction run with
  | start => exact .start
  | @next past _ notice _ _ step ih =>
    have same : (notice.map Report.noticed).toList ++ past.map .noticed =
        (notice.toList ++ past).map .noticed := by
      cases notice <;> rfl
    exact same ▸ ih.next (.atDesk step)

/-- A feed that accepts a race while nobody else does anything. -/
theorem race_run {f : Feed} {r : RaceRequest} {race : BookedRace} (sound : f.hub.timeline.Sound)
    (accepted : (f.perform (.race r)).1 = .ok (.scheduled race)) (senders : List Sender) :
    let raced := (f.perform (.race r)).2
    ∃ posts : List Notice, (Office.mk ⟨f.hub, senders⟩ f.races marshals aborts).Run
        (.noted r.component race.events :: posts.map .noticed)
        ⟨⟨raced.hub, senders⟩, raced.races, marshals, aborts⟩ ∧
      ∀ x ∈ posts, x.IsPost := by
  intro raced
  obtain ⟨rundown, planned, _, numbers, run, races⟩ := Feed.perform_race accepted
  obtain ⟨posts, schedules, only⟩ := Desk.posts_run Prod.snd (Hub.bookNext f.config.timeUnit f.hub.clock)
    (fun _ _ => ⟨_, _, rfl⟩) rundown.cues (#[], f.hub) senders
  rw [← Feed.perform_race_hub planned] at schedules
  have known : ∀ id ∈ race.events, id < raced.hub.timeline.nextId := by
    rw [numbers]
    intro id member
    obtain ⟨e, planned, rfl⟩ := List.mem_map.mp member
    exact run.posted_lt sound (mem_posts.mpr planned)
  have notes := (Run.of_desk schedules f.races marshals aborts).next
    (@Office.Step.note _ _ _ _ r.component _ _ (fun _ live => live) known)
  rw [← races] at notes
  exact ⟨posts, notes, only⟩

end

end Office

/-- A service works at an office, with its driver and its operator among those who send and its book. -/
structure Service.WorksIn (s : Service) (operator : Duty) (others : List Sender) (o : Office) : Prop where
  desk : s.WorksAt operator others o.desk
  races : s.feed.races = o.races

theorem Service.step_races {s next : Service} {action : Action} (steps : s.step? action = some next) :
    next.feed.races = s.feed.races := by
  cases steps_of steps with
  | @conclude caller => cases caller <;> rfl
  | begin | visit | send | look | plan | rest | stop | rouse | ring | connection => rfl

namespace Office

/-- Aborts of races come to one event after the other, while whoever sends what is due takes events and
sends them, however slowly, and while races are accepted and aborted. Then every event of a race is to
come, was taken to be sent once, or was cancelled once, and only one of these. An abort comes to the
events that it found, and returns the number of those that were to come when it came to them, which
nobody takes, nobody is told of and no other abort counts. When it has returned none of the events that
it found is to come, and nobody is told of one of them later unless somebody who sends, one driver at
most, had taken it by then. What it finds are events of races of its component, and while any of these
are to come they stand in the book or some abort that has begun has yet to come to them. The journal shows
who was told.

An abort by a feed while nobody else does anything is among these runs, and nothing is noticed of it but
that it comes to one event after the other. So is the acceptance of a race, which schedules events and
notes them. A service in which nobody sends may come to the office, and whatever it does by itself is among
these runs, with nothing noticed but what its action shows. -/
theorem aborts_and_firing_part_events (run : (fresh h).Run past o) :
    ((∀ c, ∀ id ∈ notedFor c past, (o.desk.hub.timeline.contains id).toNat +
        ((notices past).filterMap Notice.taken?).count id +
        ((notices past).filterMap Notice.cancelled?).count id = 1) ∧
      (∀ n c count, .ended n c count ∈ past → ∃ found, .began n c found ∈ past ∧
        (strikes n past).map Prod.fst = found ∧ count = (strikes n past).countP Prod.snd) ∧
      (∀ later n id answer earlier, past = later ++ .struck n id answer :: earlier →
        (answer = true ↔ StillToCome (notices earlier) id) ∧ o.desk.hub.timeline.contains id = false) ∧
      (granted past).Nodup ∧
      (∀ id ∈ granted past, id ∉ (notices past).filterMap Notice.taken? ∧ Notice.hearers id (notices past) = []) ∧
      (∀ n c count earlier found, past = .ended n c count :: earlier → .began n c found ∈ earlier →
        o.desk.hands.length ≤ o.desk.senders.length ∧
        (∀ id ∈ o.desk.hands, id ∈ (notices past).filterMap Notice.taken?) ∧
        ∀ later after, o.Run later after → ∀ id ∈ found, after.desk.hub.timeline.contains id = false ∧
          ∀ e ∈ Notice.hearers id (notices later), id ∈ o.desk.hands) ∧
      (∀ n c found, .began n c found ∈ past → ∀ id ∈ found, id ∈ notedFor c past) ∧
      (∀ c, ∀ id ∈ notedFor c past, o.desk.hub.timeline.contains id = true →
        id ∈ o.races.eventsOf c ∨ ∃ m ∈ o.marshals, m.component = c ∧ id ∈ m.left) ∧
      o.desk.hub.journal.toList = h.journal.toList ++ Notice.deliveries (notices past)) ∧
    (∀ f : Feed, f.hub = o.desk.hub → f.races = o.races →
      (∀ c, ∃ struck, o.Run
          (.ended o.aborts c (f.abort c).1 :: (struck ++ [.began o.aborts c (o.races.eventsOf c)]))
          ⟨⟨(f.abort c).2.hub, o.desk.senders⟩, (f.abort c).2.races, o.marshals, o.aborts + 1⟩ ∧
        ∀ x ∈ struck, ∃ id answer, x = .struck o.aborts id answer) ∧
      ∀ r race, (f.perform (.race r)).1 = .ok (.scheduled race) →
        ∃ posts : List Notice, o.Run (.noted r.component race.events :: posts.map .noticed)
            ⟨⟨(f.perform (.race r)).2.hub, o.desk.senders⟩, (f.perform (.race r)).2.races, o.marshals, o.aborts⟩ ∧
          ∀ x ∈ posts, x.IsPost) ∧
    (∀ s : Service, s.hub = o.desk.hub → s.feed.races = o.races → s.turns = {} → s.driver ≠ some .sending →
      ∃ after, o.Run [] after ∧ s.WorksIn .away o.desk.senders after) ∧
    ∀ (s next : Service) operator others action, s.WorksIn operator others o → s.step? action = some next →
      ∃ (more : List Notice) (after : Office) (duty : Duty), o.Run (more.map .noticed) after ∧
        (∀ x ∈ more, action.Shows x) ∧ next.WorksIn duty others after ∧
        (duty = operator ∧ next.answer = s.answer ∨ duty = operator.resume ∧ next.answer.isSome = true) := by
  have agrees := run.agrees
  have fates := run.desk.fates
  refine ⟨⟨fun c id noted => fates.one id (agrees.issued c id noted), fun n c count ended => ?_,
    ?_, fates.cancelled_nodup.sublist (granted_sublist past), fun id member => ?_, ?_,
    fun n c found began => (agrees.found n c found began).2, agrees.tracked, fates.journal⟩, ?_,
    fun s sameHub sameRaces idle free => ?_, fun s next operator others action works steps => ?_⟩
  · obtain ⟨began, counted⟩ := (agrees.ended n c count ended).1
    rw [List.append_nil] at began
    exact ⟨_, began, rfl, counted⟩
  · rintro later n id answer earlier rfl
    have split : notices (later ++ .struck n id answer :: earlier) =
        notices later ++ .cancelled id answer :: notices earlier := by
      simp [notices]
    exact ⟨(fates.granted _ _ id answer split).1, (agrees.struck n id answer (by simp)).2.2⟩
  · obtain ⟨n, struck⟩ := struck_of_granted member
    obtain ⟨later, earlier, split⟩ := List.append_of_mem struck
    have noticed : notices past = notices later ++ .cancelled id true :: notices earlier := by
      simp [notices, split]
    have untaken := (fates.granted _ _ id true noticed).2 rfl
    exact ⟨untaken, fates.unheard id untaken⟩
  · rintro n c count earlier found rfl began
    refine ⟨List.length_filterMap_le _ _, fun id held => fates.taken_of_hand held,
      fun later after more id member => ?_⟩
    obtain ⟨known, gone⟩ := agrees.returned (List.mem_cons_self ..) (List.mem_cons_of_mem _ began) member
    exact ⟨agrees.still_gone more.desk known gone, fun e told => more.desk.told_held agrees.sound known gone told⟩
  · obtain ⟨⟨hub, senders⟩, races, marshals, aborts⟩ := o
    intro f sameHub sameRaces
    cases sameHub
    cases sameRaces
    exact ⟨fun c => abort_run f senders marshals aborts c,
      fun r race accepted => race_run agrees.sound accepted senders⟩
  · obtain ⟨⟨hub, senders⟩, races, marshals, aborts⟩ := o
    obtain rfl : s.hub = hub := sameHub
    obtain ⟨after, comes, works⟩ := Service.worksAt_idle idle free senders
    exact ⟨_, Run.of_desk comes races marshals aborts, works, sameRaces⟩
  · obtain ⟨more, left, duty, steps', shows, desk, answers⟩ := works.desk.acts steps
    exact ⟨more, _, duty, Run.of_desk steps' o.races o.marshals o.aborts, shows,
      ⟨desk, (Service.step_races steps).trans works.races⟩, answers⟩

/-- Of three events of a race the driver takes the first just before the abort comes to it. The abort
counts the other two, and after its return a subscriber is told of the first one only. -/
theorem event_in_hand_escapes_abort :
    let hub : Hub := { subscribers := #[.log], roster := .ofCount 1 }
    let start := fresh hub
    ∃ past o, start.Run (.ended 0 "M" 2 :: past) o ∧ .began 0 "M" [0, 1, 2] ∈ past ∧ granted past = [2, 1] ∧
      o.desk.hands = [0] ∧
      (∀ later after, o.Run later after → ∀ id ∈ [0, 1, 2], ∀ e ∈ Notice.hearers id (notices later),
        id ∈ o.desk.hands) ∧
      ∃ later after, o.Run later after ∧ Notice.hearers 0 (notices later) = [⟨⟨1⟩, 0⟩] := by
  intro hub start
  let m : Message := .raw "M"
  let e : Event := ⟨0, 0, m⟩
  let posted : Hub := (((hub.postAt 0 m).2.postAt 0 m).2.postAt 0 m).2
  let taken : Hub := posted.takeDue.2
  let left : Hub := (((taken.cancel 0).2.cancel 1).2.cancel 2).2
  let book : RaceBook := (({} : RaceBook).prune posted.timeline).extend "M" [0, 1, 2]
  let race : List Report := [.noted "M" [0, 1, 2], .noticed (.posted ⟨0, 2, m⟩), .noticed (.posted ⟨0, 1, m⟩),
    .noticed (.posted e)]
  have raced : start.Run race ⟨⟨posted, []⟩, book, [], 0⟩ :=
    (((Run.start.next (.atDesk .post)).next (.atDesk .post)).next (.atDesk .post)).next
      (.note (t := posted.timeline) (fun _ live => live) (by decide))
  have begun : start.Run (.began 0 "M" [0, 1, 2] :: race)
      ⟨⟨posted, []⟩, book.forget "M", [⟨0, "M", [0, 1, 2], 0⟩], 1⟩ :=
    raced.next .begin
  have took : start.Run (.noticed (.taken e 0) :: .began 0 "M" [0, 1, 2] :: race)
      ⟨⟨taken, [⟨0, .taken e⟩]⟩, book.forget "M", [⟨0, "M", [0, 1, 2], 0⟩], 1⟩ :=
    (begun.next (.atDesk (@Desk.Step.call _ [] _))).next (.atDesk (@Desk.Step.work _ [] _ [] _ _ _ (.take rfl)))
  have struck : start.Run (.struck 0 2 true :: .struck 0 1 true :: .struck 0 0 false ::
      .noticed (.taken e 0) :: .began 0 "M" [0, 1, 2] :: race)
      ⟨⟨left, [⟨0, .taken e⟩]⟩, book.forget "M", [⟨0, "M", [], 2⟩], 1⟩ :=
    ((took.next (@Step.strike _ _ _ [] _ _ _ _ _ [] _)).next (@Step.strike _ _ _ [] _ _ _ _ _ [] _)).next
      (@Step.strike _ _ _ [] _ _ _ _ _ [] _)
  have closed := struck.next (@Step.finish _ _ [] _ _ _ [] _)
  obtain ⟨⟨_, _, _, _, _, returned, _⟩, _⟩ := aborts_and_firing_part_events closed
  obtain ⟨_, _, silent⟩ := returned 0 "M" 2 _ [0, 1, 2] rfl (by simp)
  refine ⟨_, _, closed, by simp, rfl, rfl,
    fun later after run id member => (silent later after run id member).2, ?_⟩
  let sent : Office := ⟨⟨left, [⟨0, .telling e [⟨⟨1⟩, 0⟩] {}⟩]⟩, book.forget "M", [], 1⟩
  have began : (Office.mk ⟨left, [⟨0, .taken e⟩]⟩ (book.forget "M") [] 1).Run
      [.noticed (.began e [⟨⟨1⟩, 0⟩])] sent :=
    Step.run (.atDesk (@Desk.Step.work left [] ⟨0, .taken e⟩ [] _ _ _ .begin))
  have tells := began.next (.atDesk (@Desk.Step.work left [] _ [] _ _ _ .tell))
  exact ⟨_, _, tells, rfl⟩

end Office

end LiveTiming
