import LiveTiming.Proofs.ConsoleLines
import LiveTiming.Proofs.FailedLines

namespace LiveTiming

namespace Console

/-- Whether a line asks to quit. -/
def quits (line : String) : Bool :=
  match Command.parse line with
  | .ok (some .quit) => true
  | _ => false

/-- What is written for a line before the next prompt: the line again, and what came of it
unless it is blank. -/
def written (line : String) (answer : Option (Except Failure Outcome)) : String :=
  "Echo: " ++ line ++ "\n" ++
    match answer with
    | none => ""
    | some (.ok outcome) => outcome.text ++ "\n"
    | some (.error e) => "error: " ++ e.message ++ "\n"

theorem write_unlimited (text s : String) : (Output.mk text none).write s = some ⟨text ++ s, none⟩ := by
  unfold Output.write
  by_cases empty : s = ""
  · simp [empty]
  · simp [empty]

theorem written_eq (line : String) (answer : Option (Except Failure Outcome)) :
    written line answer = "Echo: " ++ line ++ "\n" ++ (Reply.ofAnswer answer).text := by
  rcases answer with _ | _ | outcome
  · rfl
  · rfl
  · cases outcome <;> rfl

theorem quits_iff {line : String} : quits line = true ↔ Command.parse line = .ok (some .quit) := by
  unfold quits
  split
  · simp [*]
  · simp_all

theorem ends_iff {result : Except Failure Outcome} :
    (Reply.ofResult result).ends = true ↔ result = .ok .quit := by
  rcases result with e | outcome
  · simp [Reply.ofResult]
  · cases outcome <;> simp [Reply.ofResult]

end Console

/-- Whether a session ends at an input. -/
def Console.Input.stops : Console.Input → Bool
  | .line text => Console.quits text
  | .tooLong => false
  | .broken => true

namespace Feed

variable {f g : Feed} {c : Command}

/-- Does what a line asks for while nobody else uses the feed, and tells what came of it. -/
def obey (f : Feed) (line : String) : Option (Except Failure Outcome) × Feed :=
  match Command.parse line with
  | .ok none => (none, f)
  | .ok (some c) => (some (f.perform c).1, (f.perform c).2)
  | .error e => (some (.error (.command e)), f)

/-- Until a message is sent nothing but the command to quit tells a feed to stop, and
nothing changes how it is set up. -/
theorem react_keeps (f : Feed) (c : Command) : (f.react c).2.config = f.config ∧
    (f.react c).2.stopping = (f.stopping || decide (c = .quit)) ∧
    ((f.react c).1 = .answer (.ok .quit) ↔ c = .quit) := by
  unfold react
  split
  case h_3 component participant split =>
    -- Evaluating the draw would mean to run the generator.
    rcases SplitRecord.random component participant split f.generator with ⟨record, generator⟩
    simp
  case h_4 r =>
    rcases plan_cases f r with ⟨reason, refused⟩ | ⟨rundown, generator, planned⟩
    · simp [launch, refused]
    · simp [launch, planned, book, keep]
  case h_5 component => simp [abort]
  all_goals simp

theorem perform_keeps (f : Feed) (c : Command) : (f.perform c).2.config = f.config ∧
    (f.perform c).2.stopping = (f.stopping || decide (c = .quit)) ∧
    ((f.perform c).1 = .ok .quit ↔ c = .quit) := by
  have keeps := f.react_keeps c
  rcases reacts : f.react c with ⟨result | m, g⟩
  · rw [perform_answer reacts]
    simpa [reacts] using keeps
  · simpa [perform, reacts] using keeps

/-- Only a line that asks to quit tells a feed to stop, and only that ends a session. -/
theorem obey_keeps (f : Feed) (line : String) : (f.obey line).2.config = f.config ∧
    (f.obey line).2.stopping = (f.stopping || Console.quits line) ∧
    (Console.Reply.ofAnswer (f.obey line).1).ends = Console.quits line := by
  have quits := @Console.quits_iff line
  unfold obey
  rcases parsed : Command.parse line with e | _ | c <;> rw [parsed] at quits
  · have quits : Console.quits line = false := by simpa using quits
    simp [quits, Console.Reply.ofAnswer, Console.Reply.ofResult]
  · have quits : Console.quits line = false := by simpa using quits
    simp [quits, Console.Reply.ofAnswer]
  · obtain ⟨config, stopping, quit⟩ := f.perform_keeps c
    have same : Console.quits line = decide (c = .quit) := by
      rw [Bool.eq_iff_iff, quits]
      simp
    refine ⟨config, stopping.trans (by rw [same]), ?_⟩
    rw [same, Bool.eq_iff_iff, decide_eq_true_iff]
    exact Console.ends_iff.trans quit

/-- What a session with a prompt writes for some inputs after its first prompt, if nothing
limits that, and the feed after it, while nobody else uses the feed. -/
def hear (f : Feed) (prompt : String) : List Console.Input → String × Feed
  | [] => ("", f)
  | .broken :: _ => ("", f)
  | .tooLong :: later =>
    let (text, g) := f.hear prompt later
    (Console.tooLongText ++ prompt ++ text, g)
  | .line line :: later =>
    let (answer, g) := f.obey line
    if Console.quits line then (Console.written line answer, g)
    else
      let (text, final) := g.hear prompt later
      (Console.written line answer ++ prompt ++ text, final)

variable {prompt line : String} {later : List Console.Input}

theorem hear_quit (quit : Console.quits line = true) : f.hear prompt (.line line :: later) =
    (Console.written line (f.obey line).1, (f.obey line).2) :=
  if_pos quit

theorem hear_line (stays : Console.quits line = false) : f.hear prompt (.line line :: later) =
    (Console.written line (f.obey line).1 ++ prompt ++ ((f.obey line).2.hear prompt later).1,
      ((f.obey line).2.hear prompt later).2) :=
  if_neg (Bool.eq_false_iff.mp stays)

variable {before : List Console.Input}

/-- Inputs that end no session are answered, and then those after them. -/
theorem hear_append (goes : ∀ input ∈ before, input.stops = false) :
    f.hear prompt (before ++ later) =
      ((f.hear prompt before).1 ++ ((f.hear prompt before).2.hear prompt later).1,
        ((f.hear prompt before).2.hear prompt later).2) := by
  induction before generalizing f with
  | nil => simp [hear]
  | cons input before ih =>
    have others := fun g => @ih g fun input member => goes input (List.mem_cons_of_mem _ member)
    have first := goes input (List.mem_cons_self ..)
    cases input with
    | broken => cases first
    | tooLong =>
      rw [List.cons_append, hear, hear, others]
      simp only [String.append_assoc]
    | line line =>
      rw [List.cons_append, hear_line first, hear_line first, others]
      simp only [String.append_assoc]

/-- What comes after an input that ends the session is not heard. -/
theorem hear_stopped (stopped : ∃ input ∈ before, input.stops = true) :
    f.hear prompt (before ++ later) = f.hear prompt before := by
  induction before generalizing f with
  | nil => simp at stopped
  | cons input before ih =>
    cases input with
    | broken => rfl
    | tooLong =>
      have others : ∃ input ∈ before, input.stops = true := by
        simpa [Console.Input.stops] using stopped
      rw [List.cons_append, hear, hear, ih others]
    | line line =>
      rw [List.cons_append]
      cases quit : Console.quits line with
      | true => rw [hear_quit quit, hear_quit quit]
      | false =>
        have others : ∃ input ∈ before, input.stops = true := by
          simpa [Console.Input.stops, quit] using stopped
        rw [hear_line quit, hear_line quit, ih others]

/-- A session that has not ended has written a prompt last. -/
theorem hear_prompts (goes : ∀ input ∈ before, input.stops = false) :
    ∃ head, prompt ++ (f.hear prompt before).1 = head ++ prompt := by
  induction before generalizing f with
  | nil => exact ⟨"", by simp [hear]⟩
  | cons input before ih =>
    have others := fun g => @ih g fun input member => goes input (List.mem_cons_of_mem _ member)
    have first := goes input (List.mem_cons_self ..)
    cases input with
    | broken => cases first
    | tooLong =>
      obtain ⟨head, ends⟩ := others f
      refine ⟨prompt ++ Console.tooLongText ++ head, ?_⟩
      rw [hear]
      simp only [String.append_assoc, ends]
    | line line =>
      obtain ⟨head, ends⟩ := others (f.obey line).2
      refine ⟨prompt ++ Console.written line (f.obey line).1 ++ head, ?_⟩
      rw [hear_line first]
      simp only [String.append_assoc, ends]

theorem hear_config (f : Feed) (prompt : String) (inputs : List Console.Input) :
    (f.hear prompt inputs).2.config = f.config := by
  induction inputs generalizing f with
  | nil => rfl
  | cons input later ih =>
    cases input with
    | broken => rfl
    | tooLong => exact ih f
    | line line =>
      have kept := (f.obey_keeps line).1
      cases quit : Console.quits line with
      | true => rw [hear_quit quit, kept]
      | false => rw [hear_line quit, ih, kept]

/-- A line is answered, and a prompt is written after what was written before. -/
def answerNext (prompt : String) : String × Feed → String → String × Feed
  | (text, f), line => (text ++ Console.written line (f.obey line).1 ++ prompt, (f.obey line).2)

/-- What a session comes to in which the given lines are typed: the lines before the first
that asks to quit are answered in turn, and that one ends it. -/
def session (f : Feed) (texts : List String) : String × Feed :=
  let told := (texts.takeWhile (!Console.quits ·)).foldl (answerNext f.config.prompt) (f.config.prompt, f)
  match texts.find? Console.quits with
  | none => told
  | some line => (told.1 ++ Console.written line (some (.ok .quit)), { told.2 with stopping := true })

theorem obey_quit (quit : Console.quits line = true) :
    f.obey line = (some (.ok .quit), { f with stopping := true }) := by
  unfold obey
  rw [Console.quits_iff.mp quit]
  rfl

/-- The texts that are heard are answered one after the other. -/
theorem hear_texts (f : Feed) (prompt text : String) (texts : List String) :
    (text ++ (f.hear prompt (texts.map .line)).1, (f.hear prompt (texts.map .line)).2) =
      let told := (texts.takeWhile (!Console.quits ·)).foldl (answerNext prompt) (text, f)
      match texts.find? Console.quits with
      | none => told
      | some line =>
        (told.1 ++ Console.written line (some (.ok .quit)), { told.2 with stopping := true }) := by
  induction texts generalizing f text with
  | nil => simp [hear]
  | cons line texts ih =>
    rw [List.map_cons]
    cases quit : Console.quits line with
    | true => simp [hear_quit quit, obey_quit quit, quit]
    | false =>
      have rest := ih (f.obey line).2 (text ++ Console.written line (f.obey line).1 ++ prompt)
      simp only [List.takeWhile_cons, quit, Bool.not_false, if_true, List.foldl_cons, List.find?_cons]
      refine Eq.trans ?_ rest
      rw [hear_line quit]
      simp only [String.append_assoc]

theorem hear_session (f : Feed) (texts : List String) :
    f.session texts = (f.config.prompt ++ (f.hear f.config.prompt (texts.map .line)).1,
      (f.hear f.config.prompt (texts.map .line)).2) :=
  (f.hear_texts f.config.prompt f.config.prompt texts).symm

theorem hear_stopping (f : Feed) (prompt : String) (texts : List String) :
    (f.hear prompt (texts.map .line)).2.stopping = (f.stopping || texts.any Console.quits) := by
  induction texts generalizing f with
  | nil => simp [hear]
  | cons line texts ih =>
    have stopping := (f.obey_keeps line).2.1
    rw [List.map_cons]
    cases quit : Console.quits line with
    | true => simp [hear_quit quit, stopping, quit]
    | false => simp [hear_line quit, ih, stopping, quit]

end Feed

namespace Service

variable {fuel : Nat} {s : Service}

theorem isAlone_feed (s : Service) (f : Feed) : ({ s with feed := f } : Service).isAlone = s.isAlone :=
  rfl

theorem broadcast_alone (alone : s.isAlone = true) (m : Message) : (broadcast fuel m).run s =
    some ((s.hub.broadcast m).1, s.withHub (s.hub.broadcast m).2) := by
  unfold broadcast
  rw [StateT.run_bind]
  simp only [StateT.run_get, Option.pure_def, Option.bind_eq_bind, Option.bind_some, alone, if_true]
  rfl

/-- A service that nothing else happens in does what its feed does. -/
theorem perform_alone (alone : s.isAlone = true) (c : Command) : (perform fuel c).run s =
    some ((s.feed.perform c).1, { s with feed := (s.feed.perform c).2 }) := by
  rcases reacts : s.feed.react c with ⟨result | m, g⟩
  · rw [perform_answers reacts, Feed.perform_answer reacts]
  · rw [perform_sends reacts, broadcast_alone (by rw [isAlone_feed, alone]), Feed.perform, reacts]
    rfl

theorem obey_alone (alone : s.isAlone = true) (line : String) :
    (Console.obey (perform fuel) line).run s =
      some ((s.feed.obey line).1, { s with feed := (s.feed.obey line).2 }) := by
  unfold Console.obey Feed.obey
  rcases Command.parse line with e | _ | c
  · rfl
  · rfl
  · simp only [StateT.run_map, perform_alone alone]
    rfl

/-- In a service that nothing else happens in a session writes what its feed comes to hear. -/
theorem converse_alone (alone : s.isAlone = true) (prompt text : String) (inputs : List Console.Input) :
    (Console.converse (perform fuel) prompt inputs ⟨text, none⟩).run s =
      some (⟨text ++ (s.feed.hear prompt inputs).1, none⟩,
        { s with feed := (s.feed.hear prompt inputs).2 }) := by
  induction inputs generalizing s text with
  | nil => simp [Console.converse, Feed.hear]
  | cons input later ih =>
    cases input with
    | broken => simp [Console.converse, Feed.hear]
    | tooLong =>
      unfold Console.converse Feed.hear
      simp only [Console.write_unlimited]
      rw [ih alone]
      simp [String.append_assoc]
    | line line =>
      obtain ⟨_, _, ends⟩ := s.feed.obey_keeps line
      have told : text ++ ("Echo: " ++ line ++ "\n") ++ (Console.Reply.ofAnswer (s.feed.obey line).1).text =
          text ++ Console.written line (s.feed.obey line).1 := by
        rw [Console.written_eq, String.append_assoc]
      unfold Console.converse
      simp only [Console.write_unlimited, Console.replyTo_eq, StateT.run_bind, StateT.run_map,
        obey_alone alone, Option.map_eq_map, Option.map_some, Option.bind_eq_bind, Option.bind_some, ends,
        told]
      cases quit : Console.quits line with
      | true =>
        rw [Feed.hear_quit quit]
        rfl
      | false =>
        rw [Feed.hear_line quit, if_neg Bool.false_ne_true, ih (by rw [isAlone_feed, alone])]
        simp only [String.append_assoc]

theorem console_alone (alone : s.isAlone = true) (inputs : List Console.Input) :
    (console fuel inputs {}).run s =
      some (⟨s.feed.config.prompt ++ (s.feed.hear s.feed.config.prompt inputs).1, none⟩,
        { s with feed := (s.feed.hear s.feed.config.prompt inputs).2 }) := by
  unfold console Console.session
  have start : (Console.Output.mk "" none).write s.feed.config.prompt = some ⟨s.feed.config.prompt, none⟩ := by
    rw [Console.write_unlimited, String.empty_append]
  simp only [StateT.run_bind, StateT.run_get, Option.pure_def, Option.bind_eq_bind, Option.bind_some, start]
  exact converse_alone alone _ _ _

/-- A session in a service that nothing else happens in answers its lines one after the
other. The feed is told to stop if one of them asks to quit, and the first that does is the
last that is answered. If the lines come in two parts, the second session goes on where the
first has ended, and they share a prompt. -/
theorem session_is_fold {s : Service} (alone : s.isAlone = true) (fuel : Nat) {bytes : Bytes}
    {texts : List String} (readable : Console.Readable bytes texts) :
    (console fuel (Console.inputs false bytes) {}).run s =
      some (⟨(s.feed.session texts).1, none⟩, { s with feed := (s.feed.session texts).2 }) ∧
    (s.feed.session texts).2.stopping = (s.feed.stopping || texts.any Console.quits) ∧
    ∀ more moreTexts, Console.Readable more moreTexts → bytes.getLast? = some 0x0A →
      texts.any Console.quits = false → ∃ head tail middle final,
        (console fuel (Console.inputs false bytes) {}).run s =
          some (⟨head ++ s.feed.config.prompt, none⟩, middle) ∧
        (console fuel (Console.inputs false more) {}).run middle =
          some (⟨s.feed.config.prompt ++ tail, none⟩, final) ∧
        (console fuel (Console.inputs false (bytes ++ more)) {}).run s =
          some (⟨head ++ s.feed.config.prompt ++ tail, none⟩, final) := by
  refine ⟨?_, ?_, fun more moreTexts readableMore closed stays => ?_⟩
  · rw [readable.inputs_eq, console_alone alone, Feed.hear_session]
  · rw [Feed.hear_session]
    exact s.feed.hear_stopping _ texts
  · have goes : ∀ input ∈ texts.map Console.Input.line, input.stops = false := by
      intro input member
      obtain ⟨line, listed, rfl⟩ := List.mem_map.mp member
      exact Bool.eq_false_iff.mpr (List.any_eq_false.mp stays line listed)
    obtain ⟨head, ends⟩ := @Feed.hear_prompts s.feed s.feed.config.prompt _ goes
    have config := s.feed.hear_config s.feed.config.prompt (texts.map .line)
    let middle : Service := { s with feed := (s.feed.hear s.feed.config.prompt (texts.map .line)).2 }
    have first : (console fuel (Console.inputs false bytes) {}).run s =
        some (⟨head ++ s.feed.config.prompt, none⟩, middle) := by
      rw [readable.inputs_eq, console_alone alone, ends]
    have second : (console fuel (Console.inputs false more) {}).run middle =
        some (⟨s.feed.config.prompt ++ (middle.feed.hear s.feed.config.prompt (moreTexts.map .line)).1, none⟩,
          { s with feed := (middle.feed.hear s.feed.config.prompt (moreTexts.map .line)).2 }) := by
      have promptKept : middle.feed.config.prompt = s.feed.config.prompt := by rw [config]
      rw [readableMore.inputs_eq, console_alone ((s.isAlone_feed _).trans alone), promptKept]
    refine ⟨head, _, middle, _, first, second, ?_⟩
    rw [(readable.append readableMore closed).inputs_eq, List.map_append, console_alone alone,
      Feed.hear_append goes, ← ends]
    simp only [String.append_assoc, middle]

/-- Three lines, one of them blank and one no command, and then another part in which the
operator quits before the last line. -/
theorem two_sessions_share_a_prompt :
    let s : Service := { feed := .start {} [] (.ofWords fun _ => 0) }
    let bytes := Utf8.encode "raw hi\r\n\nsim M\n"
    let more := Utf8.encode "exit\nstatus"
    s.isAlone = true ∧ Console.Readable bytes ["raw hi", "", "sim M"] ∧
      Console.Readable more ["exit", "status"] ∧
      (∃ final : Feed, final.stopping = false ∧ (console 0 (Console.inputs false bytes) {}).run s =
        some (⟨">>> Echo: raw hi\nsent raw to 0 subscriber(s)\n>>> Echo: \n" ++
          ">>> Echo: sim M\nerror: sim: missing <splits>\n>>> ", none⟩, { s with feed := final })) ∧
      ∃ head tail middle final,
        (console 0 (Console.inputs false bytes) {}).run s = some (⟨head ++ ">>> ", none⟩, middle) ∧
        (console 0 (Console.inputs false more) {}).run middle = some (⟨">>> " ++ tail, none⟩, final) ∧
        (console 0 (Console.inputs false (bytes ++ more)) {}).run s =
          some (⟨head ++ ">>> " ++ tail, none⟩, final) := by
  intro s bytes more
  have readable : Console.Readable bytes ["raw hi", "", "sim M"] := by decide +kernel
  have readableMore : Console.Readable more ["exit", "status"] := by decide +kernel
  obtain ⟨answered, stopping, together⟩ := session_is_fold (s := s) rfl 0 readable
  have text : (s.feed.session ["raw hi", "", "sim M"]).1 =
      ">>> Echo: raw hi\nsent raw to 0 subscriber(s)\n>>> Echo: \n" ++
        ">>> Echo: sim M\nerror: sim: missing <splits>\n>>> " := by decide +kernel
  have stays : ["raw hi", "", "sim M"].any Console.quits = false := by decide +kernel
  rw [text] at answered
  rw [stays] at stopping
  exact ⟨rfl, readable, readableMore, ⟨_, stopping, answered⟩,
    together more _ readableMore (by decide +kernel) stays⟩

end Service

end LiveTiming
