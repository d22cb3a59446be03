import LiveTiming.Proofs.ConsoleSession

namespace LiveTiming

open LiveTiming.Console

variable {fails : Bool} {before after : List Input}

theorem Console.allInputs_long {n : Nat} (long : lineLimit < n) {b : UInt8}
    (plain : b ≠ 0x0A) (later : Bytes) :
    allInputs fails (List.replicate n b ++ 0x0A :: later) = .tooLong :: allInputs fails later := by
  rw [allInputs_line (fun member => plain (List.eq_of_mem_replicate member).symm), inputOfLine,
    if_pos (by rwa [List.length_replicate])]

theorem Console.tooLongText_ne : tooLongText ≠ "" := by
  decide +kernel

/-- A session has nothing to answer exactly if nothing is left to read. -/
theorem Feed.hear_silent_iff {f : Feed} {prompt : String} {inputs : List Input} :
    f.hear prompt inputs = ("", f) ↔ inputs = [] ∨ inputs.head? = some .broken := by
  cases inputs with
  | nil => simp [hear]
  | cons input later =>
    cases input with
    | broken => simp [hear]
    | tooLong =>
      have told : (f.hear prompt (.tooLong :: later)).1 ≠ "" := by
        rw [hear]
        simp only [ne_eq, String.append_eq_empty_iff, tooLongText_ne, false_and, not_false_eq_true]
      exact iff_of_false (fun same => told (congrArg Prod.fst same)) (by simp)
    | line line =>
      have told : (f.hear prompt (.line line :: later)).1 ≠ "" := by
        cases quit : quits line with
        | true => simp [hear_quit quit, written]
        | false => simp [hear_line quit, written]
      exact iff_of_false (fun same => told (congrArg Prod.fst same)) (by simp)

theorem Feed.hear_long (f : Feed) (prompt : String) (goes : ∀ input ∈ before, input.stops = false) :
    f.hear prompt (before ++ .tooLong :: after) =
      ((f.hear prompt before).1 ++ tooLongText ++ prompt ++ ((f.hear prompt before).2.hear prompt after).1,
        ((f.hear prompt before).2.hear prompt after).2) := by
  rw [hear_append goes, hear]
  simp only [String.append_assoc]

namespace Service

variable {s : Service} {bytes : Bytes}

/-- A session ends with the first line that is too long, after an error and a prompt, as if
nothing came after that line. So it does what one that goes on does exactly if there is
nothing to go on with: the session has ended before that line, or it is the last one, or
nothing more can be read after it. -/
theorem session_goes_on_iff (split : allInputs fails bytes = before ++ .tooLong :: after)
    (first : .tooLong ∉ before) (alone : s.isAlone = true) (fuel : Nat) :
    (∀ out, console fuel (inputs fails bytes) out = console fuel (before ++ [.tooLong]) out) ∧
    ((∀ input ∈ before, input.stops = false) → ∃ text feed,
      (console fuel before {}).run s = some (⟨text, none⟩, { s with feed }) ∧
      (console fuel (inputs fails bytes) {}).run s =
        some (⟨text ++ tooLongText ++ s.feed.config.prompt, none⟩, { s with feed })) ∧
    ((console fuel (inputs fails bytes) {}).run s = (console fuel (allInputs fails bytes) {}).run s ↔
      (∃ input ∈ before, input.stops = true) ∨ after = [] ∨ after.head? = some .broken) := by
  have read : inputs fails bytes = before ++ [.tooLong] := by
    rw [inputs_eq, split, upToLong_append first]
  refine ⟨fun out => by rw [read], fun goes => ?_, ?_⟩
  · refine ⟨_, _, console_alone alone before, ?_⟩
    rw [read, console_alone alone, Feed.hear_long _ _ goes]
    simp [Feed.hear, String.append_assoc]
  · rw [read, split, console_alone alone, console_alone alone]
    by_cases stopped : ∃ input ∈ before, input.stops = true
    · rw [Feed.hear_stopped stopped, Feed.hear_stopped stopped]
      exact iff_of_true rfl (Or.inl stopped)
    · have goes : ∀ input ∈ before, input.stops = false := by simpa using stopped
      rw [Feed.hear_long _ _ goes, Feed.hear_long _ _ goes, or_iff_right stopped, ← @Feed.hear_silent_iff
        (s.feed.hear s.feed.config.prompt before).2 s.feed.config.prompt]
      simp only [Feed.hear, Option.some.injEq, Output.mk.injEq, Service.mk.injEq, String.append_right_inj,
        and_true, Prod.ext_iff, eq_comm]

/-- The command after a long line between two others is not obeyed. -/
theorem line_after_long_is_lost :
    let s : Service := { feed := .start {} [.log] (.ofWords fun _ => 0) }
    let bytes := Utf8.encode "raw hi" ++ 0x0A ::
      (List.replicate (lineLimit + 1) 0x20 ++ 0x0A :: Utf8.encode "quit\n")
    allInputs false bytes = [.line "raw hi"] ++ .tooLong :: [.line "quit"] ∧
      .tooLong ∉ [Input.line "raw hi"] ∧ s.isAlone = true ∧
      (console 0 (inputs false bytes) {}).run s ≠ (console 0 (allInputs false bytes) {}).run s := by
  intro s bytes
  have split : allInputs false bytes = [.line "raw hi"] ++ .tooLong :: [.line "quit"] := by
    have last : allInputs false (Utf8.encode "quit\n") = [.line "quit"] := by decide +kernel
    have head : inputOfLine (Utf8.encode "raw hi") = .line "raw hi" := by decide +kernel
    rw [allInputs_line (by decide +kernel), head, allInputs_long (Nat.lt_succ_self _) (by decide), last,
      List.singleton_append]
  have first : .tooLong ∉ [Input.line "raw hi"] := by decide
  obtain ⟨_, _, goesOn⟩ := session_goes_on_iff split first (rfl : s.isAlone = true) 0
  refine ⟨split, first, rfl, fun same => ?_⟩
  have stays : (∃ input ∈ [Input.line "raw hi"], input.stops = true) ∨
      [Input.line "quit"] = [] ∨ [Input.line "quit"].head? = some .broken := goesOn.mp same
  exact absurd stays (by decide +kernel)

/-- A session that went on would answer the command after a long line. -/
theorem session_ends_with_long_line :
    let s : Service := { feed := .start {} [] (.ofWords fun _ => 0) }
    let bytes := List.replicate (lineLimit + 1) 0x61 ++ 0x0A :: Utf8.encode "status\n"
    (console 0 (inputs false bytes) {}).run s =
        some (⟨">>> error: line longer than 8192 bytes\n>>> ", none⟩, s) ∧
      (console 0 (allInputs false bytes) {}).run s =
        some (⟨">>> error: line longer than 8192 bytes\n>>> Echo: status\n" ++
          "subscribers: 0, pending events: 0, active races: 0\n>>> ", none⟩, s) ∧
      (console 0 (inputs false bytes) {}).run s ≠ (console 0 (allInputs false bytes) {}).run s := by
  intro s bytes
  have all : allInputs false bytes = [.tooLong, .line "status"] := by
    have last : allInputs false (Utf8.encode "status\n") = [.line "status"] := by decide +kernel
    rw [allInputs_long (Nat.lt_succ_self _) (by decide), last]
  have read : inputs false bytes = [.tooLong] := by
    rw [inputs_eq, all]
    rfl
  have alone : s.isAlone = true := rfl
  have ends : (console 0 [.tooLong] {}).run s =
      some (⟨">>> error: line longer than 8192 bytes\n>>> ", none⟩, s) := by
    have text : ">>> " ++ (tooLongText ++ ">>> " ++ "") =
        ">>> error: line longer than 8192 bytes\n>>> " := by decide +kernel
    rw [console_alone alone, ← text]
    rfl
  have goesOn : (console 0 [.tooLong, .line "status"] {}).run s =
      some (⟨">>> error: line longer than 8192 bytes\n>>> Echo: status\n" ++
        "subscribers: 0, pending events: 0, active races: 0\n>>> ", none⟩, s) := by
    have obeyed : s.feed.obey "status" = (some (.ok (.status 0 0 0)), s.feed) := by
      have parsed : Command.parse "status" = .ok (some .report) := by decide +kernel
      rw [Feed.obey, parsed]
      rfl
    have text : ">>> " ++ (tooLongText ++ ">>> " ++
          (written "status" (some (.ok (.status 0 0 0))) ++ ">>> " ++ "")) =
        ">>> error: line longer than 8192 bytes\n>>> Echo: status\n" ++
          "subscribers: 0, pending events: 0, active races: 0\n>>> " := by decide +kernel
    rw [console_alone alone, Feed.hear, Feed.hear_line (by decide +kernel), obeyed, ← text]
    rfl
  rw [read, all, ends, goesOn]
  exact ⟨rfl, rfl, by simp⟩

end Service

end LiveTiming
