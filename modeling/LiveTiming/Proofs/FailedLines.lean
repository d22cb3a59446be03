import LiveTiming.Service.Task
import LiveTiming.Proofs.FeedRun

namespace LiveTiming

/-- Why a feed with these bounds refuses a command. Races are all that it refuses. -/
def Command.rejection? (bounds : RaceBounds) : Command → Option RaceRejection
  | .race r => r.rejection? bounds
  | _ => none

namespace Feed

variable {f g : Feed} {c : Command} {e : Failure}

theorem react_refused {reason : RaceRejection} (refused : c.rejection? f.config.bounds = some reason) :
    f.react c = (.answer (.error (.invalidRace reason.message)), f) := by
  cases c with
  | race r =>
    have planned : f.plan r = (.error reason, f) := by
      unfold plan
      rw [show r.rejection? f.config.bounds = some reason from refused]
    have launched : f.launch r = (.error reason, f) := by
      unfold launch
      rw [planned]
    unfold react
    dsimp only
    rw [launched]
  | raw | announce | randomSplit | abort | report | help | quit => cases refused

/-- A command fails at once if it is refused and not otherwise, and then the feed stays as
it is. -/
theorem react_error_iff : f.react c = (.answer (.error e), g) ↔
    g = f ∧ ∃ reason, c.rejection? f.config.bounds = some reason ∧ e = .invalidRace reason.message := by
  constructor
  · intro reacts
    cases refused : c.rejection? f.config.bounds with
    | some reason =>
      rw [react_refused refused] at reacts
      cases reacts
      exact ⟨rfl, reason, rfl, rfl⟩
    | none =>
      exfalso
      unfold react at reacts
      split at reacts
      case h_3 component participant split =>
        -- Evaluating the draw would mean to run the generator.
        rcases SplitRecord.random component participant split f.generator with ⟨record, generator⟩
        cases reacts
      case h_4 r =>
        have accepted : r.rejection? f.config.bounds = none := refused
        unfold launch plan at reacts
        rw [accepted] at reacts
        cases reacts
      all_goals cases reacts
  · rintro ⟨rfl, reason, refused, rfl⟩
    exact react_refused refused

end Feed

namespace Console

/-- Does what a line asks for, and tells what came of it. A blank line asks for nothing. -/
def obey {m : Type → Type} [Monad m] (perform : Command → m (Except Failure Outcome))
    (line : String) : m (Option (Except Failure Outcome)) :=
  match Command.parse line with
  | .ok none => pure none
  | .ok (some c) => some <$> perform c
  | .error e => pure (some (.error (.command e)))

/-- The reply to what came of a line. -/
def Reply.ofAnswer : Option (Except Failure Outcome) → Reply
  | none => ⟨"", false⟩
  | some result => .ofResult result

/-- A console replies to what came of the line. -/
theorem replyTo_eq {m : Type → Type} [Monad m] [LawfulMonad m]
    (perform : Command → m (Except Failure Outcome)) (line : String) :
    replyTo perform line = Reply.ofAnswer <$> obey perform line := by
  unfold replyTo obey
  cases Command.parse line with
  | error e => simp [Reply.ofAnswer]
  | ok parsed => cases parsed <;> simp [Reply.ofAnswer]

/-- Why a line fails: it is no command, or its command is refused. -/
def failure? (bounds : RaceBounds) (line : String) : Option Failure :=
  match Command.parse line with
  | .ok none => none
  | .ok (some c) => (c.rejection? bounds).map (.invalidRace ·.message)
  | .error e => some (.command e)

end Console

namespace Service

variable {fuel : Nat} {s after : Service} {c : Command} {e : Failure}

theorem perform_answers {result : Except Failure Outcome} {g : Feed}
    (answers : s.feed.react c = (.answer result, g)) :
    (perform fuel c).run s = some (result, { s with feed := g }) := by
  have reacted : (onFeed (·.react c)).run s = some (.answer result, { s with feed := g }) := by
    unfold onFeed
    simp only [StateT.run_modifyGet, answers]
    rfl
  unfold perform
  rw [StateT.run_bind, reacted]
  rfl

theorem perform_sends {m : Message} {g : Feed} (sends : s.feed.react c = (.send m, g)) :
    (perform fuel c).run s = ((broadcast fuel m).run { s with feed := g }).map fun (tally, after) =>
      (.ok (.broadcast m.kind tally), after) := by
  have reacted : (onFeed (·.react c)).run s = some (.send m, { s with feed := g }) := by
    unfold onFeed
    simp only [StateT.run_modifyGet, sends]
    rfl
  unfold perform
  rw [StateT.run_bind, reacted]
  simp only [Option.bind_eq_bind, Option.bind_some, StateT.run_bind]
  cases (broadcast fuel m).run { s with feed := g } <;> rfl

/-- A command fails exactly if it is refused, and then the whole service stays as it is. -/
theorem perform_error_iff : (perform fuel c).run s = some (.error e, after) ↔
    after = s ∧ ∃ reason, c.rejection? s.feed.config.bounds = some reason ∧ e = .invalidRace reason.message := by
  constructor
  · intro performed
    rcases reacts : s.feed.react c with ⟨result | m, g⟩
    · rw [perform_answers reacts] at performed
      cases performed
      obtain ⟨rfl, refused⟩ := Feed.react_error_iff.mp reacts
      exact ⟨rfl, refused⟩
    · rw [perform_sends reacts] at performed
      obtain ⟨_, _, same⟩ := Option.map_eq_some_iff.mp performed
      cases same
  · rintro ⟨rfl, refused⟩
    exact perform_answers (Feed.react_error_iff.mpr ⟨rfl, refused⟩)

/-- A line fails exactly if it is no command or its command is refused, and then the whole
service stays as it is. -/
theorem obey_error_iff {line : String} :
    (Console.obey (perform fuel) line).run s = some (some (.error e), after) ↔
      after = s ∧ Console.failure? s.feed.config.bounds line = some e := by
  unfold Console.obey Console.failure?
  rcases Command.parse line with reason | _ | c
  · simp [eq_comm, and_comm]
  · simp
  · simp only [StateT.run_map, Option.map_eq_map, Option.map_eq_some_iff, Prod.mk.injEq, Option.some.injEq,
      Prod.exists]
    constructor
    · rintro ⟨result, kept, performed, rfl, rfl⟩
      obtain ⟨rfl, reason, refused, rfl⟩ := perform_error_iff.mp performed
      exact ⟨rfl, reason, refused, rfl⟩
    · rintro ⟨rfl, reason, refused, rfl⟩
      exact ⟨_, _, perform_error_iff.mpr ⟨rfl, reason, refused, rfl⟩, rfl, rfl⟩

/-- A move while an operator is at work: a line is typed, or something else is done. -/
inductive Move
  | typed (line : String)
  | other (task : Task Unit)

/-- What came of a move, between the service that it found and the one that it left. -/
structure Deed where
  before : Service
  move : Move
  answer : Option (Except Failure Outcome)
  after : Service

/-- Whether a line was typed that failed. -/
def Deed.failed (d : Deed) : Bool :=
  match d.answer with
  | some (.error _) => true
  | _ => false

/-- Makes a move. -/
def Move.make (fuel : Nat) : Move → Task (Option (Except Failure Outcome))
  | .typed line => Console.obey (perform fuel) line
  | .other task => (fun _ => none) <$> task

/-- Makes moves in turn. -/
def play (fuel : Nat) : List Move → Service → Option (List Deed × Service)
  | [], s => some ([], s)
  | move :: later, s => do
    let (answer, after) ← (move.make fuel).run s
    let (deeds, final) ← play fuel later after
    some (⟨s, move, answer, after⟩ :: deeds, final)

variable {moves later : List Move} {move : Move} {deeds : List Deed} {final : Service}

theorem play_cons : play fuel (move :: later) s = some (deeds, final) ↔
    ∃ answer after others, (move.make fuel).run s = some (answer, after) ∧
      play fuel later after = some (others, final) ∧ deeds = ⟨s, move, answer, after⟩ :: others := by
  simp only [play, Option.bind_eq_bind, Option.bind_eq_some_iff, Prod.exists, Option.some.injEq,
    Prod.mk.injEq]
  constructor
  · rintro ⟨answer, after, made, others, _, played, rfl, rfl⟩
    exact ⟨answer, after, others, made, played, rfl⟩
  · rintro ⟨answer, after, others, made, played, rfl⟩
    exact ⟨answer, after, made, others, final, played, rfl, rfl⟩

/-- A move that fails leaves the service as it is. -/
theorem make_failed {answer : Option (Except Failure Outcome)}
    (made : (move.make fuel).run s = some (answer, after))
    (failed : (Deed.mk s move answer after).failed = true) : after = s := by
  unfold Deed.failed at failed
  dsimp only at failed
  split at failed
  · rename_i e
    cases move with
    | typed line => exact (obey_error_iff.mp made).1
    | other task =>
      rw [Move.make, StateT.run_map, Option.map_eq_map] at made
      obtain ⟨_, _, same⟩ := Option.map_eq_some_iff.mp made
      cases same
  · cases failed

/-- Moves come to the same without those that failed. -/
theorem play_kept (played : play fuel moves s = some (deeds, final)) :
    play fuel ((deeds.filter (!·.failed)).map (·.move)) s = some (deeds.filter (!·.failed), final) := by
  induction moves generalizing s deeds with
  | nil =>
    cases played
    rfl
  | cons move later ih =>
    obtain ⟨answer, after, others, made, playedLater, rfl⟩ := play_cons.mp played
    have rest := ih playedLater
    cases failed : (Deed.mk s move answer after).failed with
    | true =>
      cases make_failed made failed
      simpa [failed] using rest
    | false =>
      simp only [List.filter_cons, failed, Bool.not_false, if_true, List.map_cons]
      exact play_cons.mpr ⟨answer, after, _, made, rest, rfl⟩

/-- A command fails exactly if it is refused, and a line exactly if it is no command or
holds one that is refused. The whole service stays as it is then. So when lines are typed
and other things are done in any order, all that does not fail has the same answers, finds
the same service and leaves the same without the lines that fail. -/
theorem failed_lines_leave_no_trace (fuel : Nat) (s : Service) :
    (∀ c e after, (perform fuel c).run s = some (.error e, after) ↔
      after = s ∧ ∃ reason, c.rejection? s.feed.config.bounds = some reason ∧
        e = .invalidRace reason.message) ∧
    (∀ line e after, (Console.obey (perform fuel) line).run s = some (some (.error e), after) ↔
      after = s ∧ Console.failure? s.feed.config.bounds line = some e) ∧
    ∀ moves deeds final, play fuel moves s = some (deeds, final) →
      play fuel ((deeds.filter (!·.failed)).map (·.move)) s = some (deeds.filter (!·.failed), final) :=
  ⟨fun _ _ _ => perform_error_iff, fun _ _ _ => obey_error_iff, fun _ _ _ => play_kept⟩

/-- Of five lines two fail. The others come to the same without them. -/
theorem two_failures_leave_no_trace :
    let s : Service := { feed := .start {} [.log] (.ofWords fun _ => 0) }
    let lines := ["sim M 500", "sim M 0", "jump", "raw on", "status"]
    ∃ deeds final, play 1 (lines.map .typed) s = some (deeds, final) ∧
      deeds.map (·.failed) = [true, false, true, false, false] ∧
      final.hub.journal.size = 1 ∧ final.hub.timeline.size = 4 ∧
      play 1 ((deeds.filter (!·.failed)).map (·.move)) s = some (deeds.filter (!·.failed), final) := by
  intro s lines
  have came : (play 1 (lines.map .typed) s).map (fun p =>
      (p.1.map (·.failed), p.2.hub.journal.size, p.2.hub.timeline.size)) =
        some ([true, false, true, false, false], 1, 4) := by decide +kernel
  obtain ⟨⟨deeds, final⟩, played, same⟩ := Option.map_eq_some_iff.mp came
  obtain ⟨failures, sizes⟩ := Prod.mk.inj same
  obtain ⟨sent, waiting⟩ := Prod.mk.inj sizes
  have kept := (failed_lines_leave_no_trace 1 s).2.2 _ deeds final played
  exact ⟨deeds, final, played, failures, sent, waiting, kept⟩

end Service

end LiveTiming
