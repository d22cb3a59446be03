import LiveTiming.Proofs.LongLines

namespace LiveTiming

namespace Console

/-- What a session writes at one time: a prompt, an error for a line that is too long, a
line again, or the reply to the last of those. -/
inductive Write
  | prompt
  | tooLong
  | echo (line : String)
  | reply
deriving DecidableEq

/-- The line that is written again. -/
def Write.line? : Write → Option String
  | .echo line => some line
  | _ => none

/-- The lines among some writes. -/
def echoed (writes : List Write) : List String :=
  writes.filterMap Write.line?

/-- The write of a prompt. An empty one is not written. -/
def promptWrites (prompt : String) : List Write :=
  if prompt = "" then [] else [.prompt]

/-- The write of the reply to a line. A blank line has none. -/
def replyWrites (line : String) : List Write :=
  match Command.parse line with
  | .ok none => []
  | _ => [.reply]

/-- The writes of a session for some inputs, after its first prompt, if none fails. -/
def inputWrites (prompt : String) : List Input → List Write
  | [] => []
  | .broken :: _ => []
  | .tooLong :: later => .tooLong :: (promptWrites prompt ++ inputWrites prompt later)
  | .line line :: later =>
    .echo line :: (replyWrites line ++
      if quits line then [] else promptWrites prompt ++ inputWrites prompt later)

/-- The writes of a session, if none fails. -/
def sessionWrites (prompt : String) (inputs : List Input) : List Write :=
  promptWrites prompt ++ inputWrites prompt inputs

/-- A text that is written. `last` came of the line that was written again before. -/
def Write.text (prompt : String) (last : Option (Except Failure Outcome)) : Write → String
  | .prompt => prompt
  | .tooLong => tooLongText
  | .echo line => "Echo: " ++ line ++ "\n"
  | .reply => (Reply.ofAnswer last).text

/-- The texts that are written. The answers came of the lines among the writes, and `last`
of the one before them. -/
def texts (prompt : String) :
    Option (Except Failure Outcome) → List Write → List (Option (Except Failure Outcome)) → List String
  | _, [], _ => []
  | last, w :: writes, answers =>
    w.text prompt last ::
      match w with
      | .echo _ => texts prompt (answers.headD none) writes answers.tail
      | _ => texts prompt last writes answers

/-- The writes that succeed if so many may. -/
def allowed (writes : List Write) : Option Nat → List Write
  | none => writes
  | some k => writes.take k

/-- What can come of a line: nothing exactly if it is blank, and the end of the session
exactly if it asks for that. -/
structure Fits (line : String) (answer : Option (Except Failure Outcome)) : Prop where
  silent : answer = none ↔ Command.parse line = .ok none
  ends : (Reply.ofAnswer answer).ends = quits line

/-- The write, unless there is nothing to write. -/
def Write.shown (prompt : String) (last : Option (Except Failure Outcome)) (w : Write) : List Write :=
  if w.text prompt last = "" then [] else [w]

variable {prompt line : String} {last answer : Option (Except Failure Outcome)}
  {writes : List Write} {answers more : List (Option (Except Failure Outcome))} {w : Write}

theorem tooLong_shown : Write.tooLong.shown prompt last = [.tooLong] :=
  if_neg tooLongText_ne

theorem ofResult_text_ne (result : Except Failure Outcome) : (Reply.ofResult result).text ≠ "" := by
  rcases result with e | outcome
  · simp [Reply.ofResult]
  · cases outcome <;> simp [Reply.ofResult]

/-- A reply is shown as one write, or as none. -/
theorem Fits.reply_shown (fits : Fits line answer) (prompt : String) :
    Write.reply.shown prompt answer = replyWrites line := by
  unfold replyWrites
  split
  · rename_i parsed
    rw [fits.silent.mpr parsed]
    rfl
  · rename_i command
    obtain ⟨result, rfl⟩ := Option.ne_none_iff_exists'.mp (mt fits.silent.mp command)
    exact if_neg (ofResult_text_ne result)

theorem texts_quiet (quiet : w.line? = none) :
    texts prompt last (w :: writes) answers = w.text prompt last :: texts prompt last writes answers := by
  cases w with
  | echo line => cases quiet
  | prompt | tooLong | reply => rfl

theorem texts_echo : texts prompt last (.echo line :: writes) (answer :: answers) =
    ("Echo: " ++ line ++ "\n") :: texts prompt answer writes answers := rfl

theorem echoed_echo : echoed (.echo line :: writes) = line :: echoed writes := rfl

theorem echoed_append (writes later : List Write) : echoed (writes ++ later) = echoed writes ++ echoed later :=
  List.filterMap_append

theorem echoed_quiet (quiet : w.line? = none) : echoed (w :: writes) = echoed writes :=
  List.filterMap_cons_none quiet

theorem echoed_shown (quiet : w.line? = none) :
    echoed (w.shown prompt last ++ writes) = echoed writes := by
  unfold Write.shown
  split
  · rfl
  · exact echoed_quiet quiet

theorem echoed_prompted : echoed (promptWrites prompt ++ writes) = echoed writes :=
  @echoed_shown prompt none writes .prompt rfl

/-- There is a text for every write. -/
theorem texts_length : (texts prompt last writes answers).length = writes.length := by
  induction writes generalizing last answers with
  | nil => rfl
  | cons w writes ih => cases w <;> simp [texts, ih]

/-- The texts of the first writes are the first texts. -/
theorem texts_take (k : Nat) :
    texts prompt last (writes.take k) answers = (texts prompt last writes answers).take k := by
  induction writes generalizing last answers k with
  | nil => simp [texts]
  | cons w writes ih =>
    cases k with
    | zero => rfl
    | succ k => cases w <;> simp [texts, ih]

/-- Only the answers to the lines among the writes are written. -/
theorem texts_surplus (enough : answers.length = (echoed writes).length) :
    texts prompt last writes (answers ++ more) = texts prompt last writes answers := by
  induction writes generalizing last answers with
  | nil => rfl
  | cons w writes ih =>
    cases w with
    | echo line =>
      obtain ⟨answer, answers, rfl⟩ := List.exists_cons_of_length_eq_add_one enough
      exact congrArg (List.cons _) (ih (Nat.succ.inj enough))
    | prompt | tooLong | reply => exact congrArg (List.cons _) (ih enough)

theorem texts_shown (quiet : w.line? = none) (rest : "" ∉ texts prompt last writes answers) :
    "" ∉ texts prompt last (w.shown prompt last ++ writes) answers := by
  unfold Write.shown
  split
  · exact rest
  · rename_i told
    rw [List.singleton_append, texts_quiet quiet, List.mem_cons, not_or]
    exact ⟨Ne.symm told, rest⟩

/-- None of the texts that a session writes is empty. -/
theorem inputWrites_told {inputs : List Input}
    (fit : List.Forall₂ Fits (echoed (inputWrites prompt inputs)) answers) :
    "" ∉ texts prompt last (inputWrites prompt inputs) answers := by
  induction inputs generalizing last answers with
  | nil => simp [inputWrites, texts]
  | cons input later ih =>
    cases input with
    | broken => simp [inputWrites, texts]
    | tooLong =>
      rw [inputWrites, echoed_quiet rfl, echoed_prompted] at fit
      rw [inputWrites, ← List.singleton_append, ← @tooLong_shown prompt last]
      exact texts_shown rfl (texts_shown (w := .prompt) rfl (ih fit))
    | line line =>
      rw [inputWrites, echoed_echo] at fit
      obtain ⟨answer, answers, fits, rest, rfl⟩ := List.forall₂_cons_left_iff.mp fit
      rw [← fits.reply_shown prompt, echoed_shown rfl] at rest
      have echo : "" ≠ "Echo: " ++ line ++ "\n" := by
        rw [ne_comm]
        simp
      rw [inputWrites, texts_echo, List.mem_cons, not_or, ← fits.reply_shown prompt]
      refine ⟨echo, texts_shown rfl ?_⟩
      split
      · exact List.not_mem_nil
      · rename_i stays
        rw [if_neg stays, echoed_prompted] at rest
        exact texts_shown (w := .prompt) rfl (ih rest)

/-- Nothing that a session writes is empty. -/
theorem sessionWrites_told {inputs : List Input}
    (fit : List.Forall₂ Fits (echoed (sessionWrites prompt inputs)) answers) :
    "" ∉ texts prompt last (sessionWrites prompt inputs) answers := by
  rw [sessionWrites, echoed_prompted] at fit
  exact texts_shown (w := .prompt) rfl (inputWrites_told fit)

/-- Writes a text and goes on, unless writing fails. -/
def thenWrite {m : Type → Type} [Monad m] (s : String) (next : Output → m Output) (out : Output) :
    m Output :=
  match out.write s with
  | none => pure out
  | some out => next out

section

variable {m : Type → Type} [Monad m] {text s : String} {next : Output → m Output}

theorem thenWrite_empty : thenWrite "" next = next := rfl

theorem thenWrite_unlimited : thenWrite s next ⟨text, none⟩ = next ⟨text ++ s, none⟩ := by
  unfold thenWrite
  rw [write_unlimited]

/-- Where nothing may be written any more a session ends. -/
theorem thenWrite_exhausted (told : s ≠ "") :
    thenWrite s next ⟨text, some 0⟩ = pure ⟨text, some 0⟩ := by
  simp [thenWrite, Output.write, told]

/-- Where something may be written still it goes on with one write less. -/
theorem thenWrite_limited (told : s ≠ "") (k : Nat) :
    thenWrite s next ⟨text, some (k + 1)⟩ = next ⟨text ++ s, some k⟩ := by
  simp [thenWrite, Output.write, told]

end

section

variable {m : Type → Type} [Monad m] {perform : Command → m (Except Failure Outcome)}
  {later : List Input}

/-- A session begins with its prompt. -/
theorem session_eq {inputs : List Input} :
    session perform prompt inputs = thenWrite prompt (converse perform prompt inputs) := rfl

/-- A line that is too long is told and passed over. -/
theorem converse_tooLong : converse perform prompt (.tooLong :: later) =
    thenWrite tooLongText (thenWrite prompt (converse perform prompt later)) := rfl

/-- A line is echoed, obeyed and answered, and then comes the next prompt unless the session ends. -/
theorem converse_line : converse perform prompt (.line line :: later) =
    thenWrite ("Echo: " ++ line ++ "\n") (fun out => replyTo perform line >>= fun reply =>
      thenWrite reply.text (fun out =>
        if reply.ends then pure out else thenWrite prompt (converse perform prompt later) out) out) := rfl

end

end Console

namespace Service

open LiveTiming.Console

variable {fuel : Nat} {s after : Service} {prompt line : String}
  {last answer : Option (Except Failure Outcome)} {writes : List Write} {w : Write}
  {next : Output → Task Output}

/-- What comes of a command ends a session exactly if the command is to quit. -/
theorem perform_quit_iff {c : Command} {result : Except Failure Outcome}
    (performed : (perform fuel c).run s = some (result, after)) : result = .ok .quit ↔ c = .quit := by
  have quit := (s.feed.react_keeps c).2.2
  rcases reacts : s.feed.react c with ⟨answer | m, g⟩ <;> rw [reacts] at quit
  · rw [perform_answers reacts] at performed
    cases performed
    simpa using quit
  · rw [perform_sends reacts] at performed
    obtain ⟨_, _, same⟩ := Option.map_eq_some_iff.mp performed
    cases same
    simpa using quit

theorem obey_fits (obeyed : (obey (perform fuel) line).run s = some (answer, after)) :
    Fits line answer := by
  have quit := @quits_iff line
  unfold obey at obeyed
  rcases parsed : Command.parse line with e | _ | c <;> rw [parsed] at obeyed quit
  · cases obeyed
    have stays : quits line = false := by simpa using quit
    exact ⟨by simp [parsed], by simp [stays, Reply.ofAnswer, Reply.ofResult]⟩
  · cases obeyed
    have stays : quits line = false := by simpa using quit
    exact ⟨by simp [parsed], by simp [stays, Reply.ofAnswer]⟩
  · rw [StateT.run_map] at obeyed
    obtain ⟨⟨result, _⟩, performed, same⟩ := Option.map_eq_some_iff.mp obeyed
    cases same
    refine ⟨by simp [parsed], ?_⟩
    rw [Bool.eq_iff_iff, quit]
    exact ends_iff.trans ((perform_quit_iff performed).trans (by simp))

/-- Does what some lines ask for, one after the other, and tells what came of them. -/
def obeyAll (fuel : Nat) (lines : List String) : Task (List (Option (Except Failure Outcome))) :=
  lines.mapM (obey (perform fuel))

theorem run_both {α β γ : Type} (first : Task α) (second : Task β) (f : α → β → γ) :
    (first >>= fun a => second >>= fun b => pure (f a b)).run s =
      (first.run s).bind fun p => (second.run p.2).map fun q => (f p.1 q.1, q.2) := by
  rw [StateT.run_bind]
  congr 1
  funext p
  rw [StateT.run_bind]
  cases second.run p.2 <;> rfl

theorem obeyAll_cons {lines : List String} : (obeyAll fuel (line :: lines)).run s =
    ((obey (perform fuel) line).run s).bind fun p =>
      ((obeyAll fuel lines).run p.2).map fun q => (p.1 :: q.1, q.2) := by
  rw [obeyAll, List.mapM_cons]
  exact run_both _ _ _

/-- Lines are obeyed one part after the other. -/
theorem obeyAll_append {early lines : List String} : (obeyAll fuel (early ++ lines)).run s =
    ((obeyAll fuel early).run s).bind fun p =>
      ((obeyAll fuel lines).run p.2).map fun q => (p.1 ++ q.1, q.2) := by
  rw [obeyAll, List.mapM_append]
  exact run_both _ _ _

/-- The answers fit the lines. -/
theorem obeyAll_fits {lines : List String} {answers : List (Option (Except Failure Outcome))}
    (obeyed : (obeyAll fuel lines).run s = some (answers, after)) : List.Forall₂ Fits lines answers := by
  induction lines generalizing s answers with
  | nil =>
    cases obeyed
    exact .nil
  | cons line lines ih =>
    rw [obeyAll_cons] at obeyed
    obtain ⟨⟨answer, middle⟩, first, rest⟩ := Option.bind_eq_some_iff.mp obeyed
    obtain ⟨⟨answers, _⟩, others, same⟩ := Option.map_eq_some_iff.mp rest
    cases same
    exact .cons (obey_fits first) (ih others)

/-- The lines among the first writes are obeyed as before, and come to the first of the texts. -/
theorem obeyAll_take {answers : List (Option (Except Failure Outcome))} {final : Service}
    (obeyed : (obeyAll fuel (echoed writes)).run s = some (answers, final)) (prompt : String)
    (last : Option (Except Failure Outcome)) (k : Nat) : ∃ early middle,
      (obeyAll fuel (echoed (writes.take k))).run s = some (early, middle) ∧ early <+: answers ∧
        texts prompt last (writes.take k) early = (texts prompt last writes answers).take k := by
  rw [← List.take_append_drop k writes, echoed_append, obeyAll_append] at obeyed
  obtain ⟨⟨early, middle⟩, first, rest⟩ := Option.bind_eq_some_iff.mp obeyed
  obtain ⟨⟨more, _⟩, _, same⟩ := Option.map_eq_some_iff.mp rest
  cases same
  have enough : early.length = (echoed (writes.take k)).length := (obeyAll_fits first).length_eq.symm
  refine ⟨early, middle, first, List.prefix_append .., ?_⟩
  rw [← texts_surplus enough, texts_take]

/-- What `next` comes to after `last` came of a line: as many of the given writes succeed as
may, and the lines among those are obeyed. -/
def ComesTo (fuel : Nat) (prompt : String) (last : Option (Except Failure Outcome))
    (writes : List Write) (next : Output → Task Output) : Prop :=
  ∀ text allowance s, (next ⟨text, allowance⟩).run s =
    ((obeyAll fuel (echoed (allowed writes allowance))).run s).map fun p =>
      (⟨text ++ String.join (texts prompt last (allowed writes allowance) p.1),
        allowance.map (· - writes.length)⟩, p.2)

/-- Where nothing is left to write nothing is written. -/
theorem ComesTo.nothing : ComesTo fuel prompt last [] pure := by
  intro text allowance s
  have none : allowed [] allowance = [] := by cases allowance <;> simp [allowed]
  rw [none]
  simp [obeyAll, echoed, texts]

/-- A write that tells something uses up one of those that are allowed. -/
theorem ComesTo.write (quiet : w.line? = none) (rest : ComesTo fuel prompt last writes next) :
    ComesTo fuel prompt last (w.shown prompt last ++ writes) (thenWrite (w.text prompt last) next) := by
  intro text allowance s
  unfold Write.shown
  split
  · rename_i silent
    rw [silent, thenWrite_empty]
    exact rest text allowance s
  · rename_i told
    rw [List.singleton_append]
    rcases allowance with _ | _ | k
    · rw [thenWrite_unlimited, rest]
      simp only [allowed, echoed_quiet quiet, texts_quiet quiet, String.join_cons, String.append_assoc,
        Option.map_none]
    · rw [thenWrite_exhausted told]
      simp [allowed, obeyAll, echoed, texts]
    · rw [thenWrite_limited told, rest]
      simp only [allowed, List.take_succ_cons, echoed_quiet quiet, texts_quiet quiet, String.join_cons,
        String.append_assoc, Option.map_some, List.length_cons, Nat.add_sub_add_right]

/-- An echo comes before the line is obeyed. -/
theorem ComesTo.echo {next : Option (Except Failure Outcome) → Output → Task Output}
    (rest : ∀ answer, Fits line answer → ComesTo fuel prompt answer writes (next answer)) :
    ComesTo fuel prompt last (.echo line :: writes) (thenWrite ("Echo: " ++ line ++ "\n") fun out =>
      obey (perform fuel) line >>= fun answer => next answer out) := by
  intro text allowance s
  have told : "Echo: " ++ line ++ "\n" ≠ "" := by simp
  have obeyed : ∀ allowance, (obey (perform fuel) line >>= fun answer =>
        next answer ⟨text ++ ("Echo: " ++ line ++ "\n"), allowance⟩).run s =
      ((obeyAll fuel (line :: echoed (allowed writes allowance))).run s).map fun p =>
        (⟨text ++ String.join (texts prompt last (.echo line :: allowed writes allowance) p.1),
          allowance.map (· - writes.length)⟩, p.2) := by
    intro allowance
    rw [StateT.run_bind, obeyAll_cons]
    -- Which writes follow is known only for an answer that really comes of the line.
    rcases first : (obey (perform fuel) line).run s with _ | ⟨answer, after⟩
    · rfl
    · simp only [Option.bind_eq_bind, Option.bind_some, rest answer (obey_fits first) _ allowance after,
        Option.map_map]
      congr 1
      funext q
      simp only [Function.comp, texts_echo, String.join_cons, String.append_assoc]
  rcases allowance with _ | _ | k
  · rw [thenWrite_unlimited, obeyed]
    rfl
  · rw [thenWrite_exhausted told]
    simp [allowed, obeyAll, echoed, texts]
  · rw [thenWrite_limited told, obeyed]
    simp only [allowed, List.take_succ_cons, echoed_echo, Option.map_some, List.length_cons,
      Nat.add_sub_add_right]

/-- A conversation comes to what its inputs ask it to write. -/
theorem converse_comes (fuel : Nat) (prompt : String) (inputs : List Input) :
    ComesTo fuel prompt last (inputWrites prompt inputs) (converse (perform fuel) prompt inputs) := by
  induction inputs generalizing last with
  | nil => exact .nothing
  | cons input later ih =>
    cases input with
    | broken => exact .nothing
    | tooLong =>
      rw [inputWrites, converse_tooLong, ← List.singleton_append, ← @tooLong_shown prompt last]
      exact .write rfl (.write (w := .prompt) rfl ih)
    | line line =>
      rw [inputWrites, converse_line]
      simp only [replyTo_eq, bind_map_left]
      refine .echo fun answer fits => ?_
      rw [← fits.reply_shown prompt, fits.ends]
      refine .write (w := .reply) rfl ?_
      cases quits line with
      | true => exact .nothing
      | false => exact .write (w := .prompt) rfl ih

/-- As many of the writes of a session succeed as may, and the lines among those are obeyed. -/
theorem console_comes (fuel : Nat) (s : Service) (inputs : List Input) (allowance : Option Nat) :
    let prompt := s.feed.config.prompt
    let writes := sessionWrites prompt inputs
    (console fuel inputs { allowance }).run s =
      ((obeyAll fuel (echoed (allowed writes allowance))).run s).map fun (answers, final) =>
        (⟨String.join (texts prompt none (allowed writes allowance) answers),
          allowance.map (· - writes.length)⟩, final) := by
  intro prompt writes
  have comes : ComesTo fuel prompt none writes (session (perform fuel) prompt inputs) := by
    rw [session_eq]
    exact .write (w := .prompt) rfl (converse_comes fuel prompt inputs)
  have ran := comes "" allowance s
  simp only [String.empty_append] at ran
  exact ran

/-- A service with no other task obeys the lines as its feed does. -/
theorem obeyAll_alone (alone : s.isAlone = true) (fuel : Nat) (lines : List String) :
    ∃ answers, (obeyAll fuel lines).run s =
      some (answers, { s with feed := lines.foldl (fun f line => (f.obey line).2) s.feed }) := by
  induction lines generalizing s with
  | nil => exact ⟨[], rfl⟩
  | cons line lines ih =>
    obtain ⟨answers, rest⟩ := @ih { s with feed := (s.feed.obey line).2 } alone
    refine ⟨(s.feed.obey line).1 :: answers, ?_⟩
    rw [obeyAll_cons, obey_alone alone, Option.bind_some, rest]
    rfl

/-- If `k` writes of a session succeed and the next fails, then what has been written are
the first `k` of the texts that the session writes if none fails, none of which is empty.
The service is left as if exactly the lines among those writes had been obeyed, each once
and in turn. So a line that cannot be written again is not obeyed, and one to which the
reply cannot be written has been. -/
theorem failed_write_ends_session (fuel : Nat) (s : Service) (inputs : List Input) (k : Nat) :
    let prompt := s.feed.config.prompt
    let writes := sessionWrites prompt inputs
    (console fuel inputs {}).run s =
      ((obeyAll fuel (echoed writes)).run s).map (fun (answers, final) =>
        (⟨String.join (texts prompt none writes answers), none⟩, final)) ∧
    (console fuel inputs { allowance := some k }).run s =
      ((obeyAll fuel (echoed (writes.take k))).run s).map (fun (answers, final) =>
        (⟨String.join (texts prompt none (writes.take k) answers), some (k - writes.length)⟩, final)) ∧
    (∀ answers final, (obeyAll fuel (echoed writes)).run s = some (answers, final) →
      (texts prompt none writes answers).length = writes.length ∧
      "" ∉ texts prompt none writes answers ∧
      ∃ early middle, (obeyAll fuel (echoed (writes.take k))).run s = some (early, middle) ∧
        early <+: answers ∧
        texts prompt none (writes.take k) early = (texts prompt none writes answers).take k) ∧
    (∀ before line later, writes = before ++ .echo line :: later →
      echoed (writes.take before.length) = echoed before ∧
      echoed (writes.take (before.length + 1)) = echoed before ++ [line]) ∧
    (s.isAlone = true → ∀ lines, ∃ answers, (obeyAll fuel lines).run s =
      some (answers, { s with feed := lines.foldl (fun f line => (f.obey line).2) s.feed })) := by
  intro prompt writes
  refine ⟨console_comes fuel s inputs none, console_comes fuel s inputs (some k), ?_, ?_,
    fun alone => obeyAll_alone alone fuel⟩
  · intro answers final obeyed
    exact ⟨texts_length, sessionWrites_told (obeyAll_fits obeyed), obeyAll_take obeyed prompt none k⟩
  · intro before line later split
    have next : writes.take (before.length + 1) = before ++ [.echo line] := by
      rw [split]
      simp [List.take_append]
    rw [next, echoed_append, split, List.take_left]
    exact ⟨rfl, rfl⟩

/-- A command is obeyed if the reply cannot be written, but not if the line cannot be written
again. -/
theorem unanswered_line_is_obeyed :
    let s : Service := { feed := .start {} [.log] (.ofWords fun _ => 0) }
    let inputs := [Input.line "raw hi", Input.line "status"]
    let writes := [Write.prompt] ++ .echo "raw hi" :: [.reply, .prompt, .echo "status", .reply, .prompt]
    sessionWrites s.feed.config.prompt inputs = writes ∧ s.isAlone = true ∧
    (∃ answers final, (obeyAll 0 ["raw hi", "status"]).run s = some (answers, final) ∧
      "" ∉ texts ">>> " none writes answers) ∧
    (console 0 inputs { allowance := some 1 }).run s = some (⟨">>> ", some 0⟩, s) ∧
    ∃ after, (console 0 inputs { allowance := some 2 }).run s =
        some (⟨">>> Echo: raw hi\n", some 0⟩, after) ∧ after.hub.journal.size = 1 := by
  intro s inputs writes
  have shape : sessionWrites s.feed.config.prompt inputs = writes := by decide +kernel
  have alone : s.isAlone = true := rfl
  obtain ⟨_, unread, shown, lines, obeyed⟩ := failed_write_ends_session 0 s inputs 1
  obtain ⟨_, unanswered, _⟩ := failed_write_ends_session 0 s inputs 2
  rw [shape] at unread shown lines unanswered
  obtain ⟨before, upTo⟩ := lines [.prompt] "raw hi" _ rfl
  refine ⟨shape, alone, ?_, ?_, ?_⟩
  · obtain ⟨answers, all⟩ := obeyed alone ["raw hi", "status"]
    exact ⟨answers, _, all, (shown answers _ all).2.1⟩
  · have nothing : echoed (writes.take 1) = [] := before
    rw [unread, nothing]
    rfl
  · obtain ⟨answers, first⟩ := obeyed alone ["raw hi"]
    have one : echoed (writes.take 2) = ["raw hi"] := upTo
    rw [unanswered, one, first]
    refine ⟨_, rfl, ?_⟩
    decide +kernel

end Service

end LiveTiming
