import LiveTiming.Proofs.CommandForms
import LiveTiming.Proofs.FailedLines
import Mathlib.Data.List.Forall2

namespace LiveTiming

/-- Whether words are all the arguments that a command takes, each of them right. -/
def Keyword.Completed (keyword : Keyword) (words : List String) : Prop :=
  List.Forall₂ Parameter.Admits keyword.parameters words

/-- The problems with words that begin with right arguments are those of the others. -/
theorem leftmost_append {keyword : Keyword} {parameters : List Parameter} {taken later : List String}
    {e : LineError}
    (right : List.Forall₂ Parameter.Admits parameters taken) :
    Leftmost keyword parameters (taken ++ later) e ↔ Leftmost keyword [] later e := by
  induction right with
  | nil => rfl
  | cons first _ ih => exact (leftmost_cons first).trans ih

namespace Command

variable {line first extra : String} {keyword : Keyword} {taken more : List String}

theorem parse_surplus (parts : wordsOf line = first :: (taken ++ extra :: more)) (begins : keyword.Begins first)
    (complete : keyword.Completed taken) (closed : keyword.isOpen = false) :
    parse line = .error (.unexpected keyword extra) := by
  have leftmost : Leftmost keyword keyword.parameters (taken ++ extra :: more) (.unexpected keyword extra) :=
    (leftmost_append complete).mpr ((leftmost_surplus closed).mpr rfl)
  exact parse_eq_error_iff.mpr ⟨first, _, parts, Or.inr ⟨keyword, begins, leftmost⟩⟩

theorem parse_help {later : List String} (parts : wordsOf line = first :: later)
    (begins : Keyword.help.Begins first) :
    parse line = .ok (some .help) :=
  parse_keyword parts begins

theorem parse_quit {later : List String} (parts : wordsOf line = first :: later)
    (begins : Keyword.quit.Begins first) :
    parse line = .ok (some .quit) :=
  parse_keyword parts begins

end Command

namespace Service

open Command

variable {fuel : Nat} {s : Service} {line first extra : String} {keyword : Keyword} {taken more : List String}

/-- A line that is answered at once leaves everything but the feed as it is. -/
theorem obey_answers {c : Command} {result : Except Failure Outcome} {g : Feed} (parsed : parse line = .ok (some c))
    (answers : s.feed.react c = (.answer result, g)) :
    (Console.obey (perform fuel) line).run s = some (some result, { s with feed := g }) := by
  rw [Console.obey, parsed]
  simp only [StateT.run_map, perform_answers answers]
  rfl

theorem obey_malformed {e : LineError} (malformed : parse line = .error e) :
    (Console.obey (perform fuel) line).run s = some (some (.error (.command e)), s) := by
  have failure : Console.failure? s.feed.config.bounds line = some (.command e) := by
    rw [Console.failure?, malformed]
  exact obey_error_iff.mpr ⟨rfl, failure⟩

/-- A word after all the arguments of a command that takes no more is refused and nothing happens, unless
the command is the one to list the commands or the one to stop. These take any words, so that such a line
still lists the commands or stops the service. -/
theorem surplus_word_refused_iff (parts : wordsOf line = first :: (taken ++ extra :: more))
    (begins : keyword.Begins first) (fixed : keyword ≠ .raw ∧ keyword ≠ .sim) (complete : keyword.Completed taken) :
    (parse line = .error (.unexpected keyword extra) ↔ keyword ≠ .help ∧ keyword ≠ .quit) ∧
    ∀ (fuel : Nat) (s : Service),
      (keyword ≠ .help ∧ keyword ≠ .quit →
        (Console.obey (perform fuel) line).run s = some (some (.error (.command (.unexpected keyword extra))), s)) ∧
      (keyword = .help → (Console.obey (perform fuel) line).run s = some (some (.ok .help), s)) ∧
      (keyword = .quit → (Console.obey (perform fuel) line).run s =
        some (some (.ok .quit), { s with feed := { s.feed with stopping := true } })) := by
  have refused (others : keyword ≠ .help ∧ keyword ≠ .quit) : parse line = .error (.unexpected keyword extra) := by
    have closed : keyword.isOpen = false := by
      cases keyword with
      | raw => exact absurd rfl fixed.1
      | sim => exact absurd rfl fixed.2
      | help => exact absurd rfl others.1
      | quit => exact absurd rfl others.2
      | stt | logr | abort | status => rfl
    exact parse_surplus parts begins complete closed
  refine ⟨⟨fun unexpected => ⟨?_, ?_⟩, refused⟩, fun fuel s => ⟨fun others => ?_, ?_, ?_⟩⟩
  · rintro rfl
    cases unexpected.symm.trans (parse_help parts begins)
  · rintro rfl
    cases unexpected.symm.trans (parse_quit parts begins)
  · exact obey_malformed (refused others)
  · rintro rfl
    exact obey_answers (parse_help parts begins) rfl
  · rintro rfl
    exact obey_answers (parse_quit parts begins) rfl

/-- A word after the code of a status change is refused, and nothing is sent. -/
theorem surplus_word_after_stage :
    let s : Service := { feed := .start {} [] (.ofWords fun _ => 0) }
    parse "stt K1 4 now" = .error (.unexpected .stt "now") ∧
      (Console.obey (perform 0) "stt K1 4 now").run s =
        some (some (.error (.command (.unexpected .stt "now"))), s) := by
  intro s
  have complete : Keyword.stt.Completed ["K1", "4"] :=
    .cons (by simp [Parameter.Admits]) (.cons (admits_iff.mpr ⟨4, by decide⟩) .nil)
  have parts : wordsOf "stt K1 4 now" = "stt" :: (["K1", "4"] ++ "now" :: []) := by decide +kernel
  obtain ⟨refused, does⟩ := surplus_word_refused_iff parts (Or.inl rfl) (by decide) complete
  exact ⟨refused.mpr (by decide), (does 0 s).1 (by decide)⟩

/-- A service is stopped by a line that goes on after the word to quit. -/
theorem quit_now_stops :
    let s : Service := { feed := .start {} [] (.ofWords fun _ => 0) }
    wordsOf "quit now" = ["quit", "now"] ∧ parse "quit now" ≠ .error (.unexpected .quit "now") ∧
      s.feed.stopping = false ∧
      ((Console.obey (perform 0) "quit now").run s).map (fun after => after.2.feed.stopping) = some true := by
  intro s
  have parsed : parse "quit now" = .ok (some .quit) := by decide +kernel
  refine ⟨by decide +kernel, ?_, rfl, ?_⟩
  · rw [parsed]
    simp
  · rw [obey_answers parsed rfl]
    rfl

end Service

end LiveTiming
