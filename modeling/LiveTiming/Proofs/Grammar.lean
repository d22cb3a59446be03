import LiveTiming.Command.Grammar
import LiveTiming.Proofs.Text

namespace LiveTiming.Command

/-- What is done in turn succeeds if every part does. -/
theorem bind_eq_ok {ε α β : Type} {x : Except ε α} {next : α → Except ε β} {b : β} :
    x >>= next = .ok b ↔ ∃ a, x = .ok a ∧ next a = .ok b := by
  cases x <;> simp [bind, Except.bind]

variable {keyword : Keyword} {argument : Argument} {limit n : Nat} {word text line : String}
  {words later : List String} {c : Command}

/-- A word is taken off the front. -/
theorem takeWord_eq_ok : takeWord keyword argument words = .ok (word, later) ↔ words = word :: later := by
  cases words <;> simp [takeWord]

/-- A number is taken off the front if the word there is one. -/
theorem takeNumber_eq_ok : takeNumber keyword argument limit words = .ok (n, later) ↔
    ∃ word, words = word :: later ∧ Text.unsigned? limit word.toList = some n := by
  unfold takeNumber
  rw [bind_eq_ok]
  constructor
  · rintro ⟨⟨word, others⟩, taken, read⟩
    cases number : Text.unsigned? limit word.toList with
    | none => simp [number] at read
    | some m =>
      simp only [number, pure, Except.pure, Except.ok.injEq, Prod.mk.injEq] at read
      obtain ⟨rfl, rfl⟩ := read
      exact ⟨word, takeWord_eq_ok.mp taken, number⟩
  · rintro ⟨word, rfl, number⟩
    refine ⟨(word, later), rfl, ?_⟩
    simp [number, pure, Except.pure]

/-- The end is found where no word is left. -/
theorem takeEnd_eq_ok {done : Unit} : takeEnd keyword words = .ok done ↔ words = [] := by
  cases words <;> simp [takeEnd]

theorem ofKeyword_stt : ofKeyword .stt words text = .ok c ↔
    ∃ component word code, words = [component, word] ∧
      Text.unsigned? (UInt8.size - 1) word.toList = some code ∧ c = .announce component ⟨UInt8.ofNat code⟩ := by
  constructor
  · intro read
    obtain ⟨⟨component, afterComponent⟩, first, read⟩ := bind_eq_ok.mp read
    obtain ⟨⟨code, afterCode⟩, second, read⟩ := bind_eq_ok.mp read
    obtain ⟨_, done, read⟩ := bind_eq_ok.mp read
    cases read
    obtain ⟨word, rfl, number⟩ := takeNumber_eq_ok.mp second
    rw [takeEnd_eq_ok.mp done] at first
    exact ⟨component, word, code, takeWord_eq_ok.mp first, number, rfl⟩
  · rintro ⟨component, word, code, rfl, number, rfl⟩
    have second : takeNumber .stt .state (UInt8.size - 1) [word] = .ok (code, []) :=
      takeNumber_eq_ok.mpr ⟨word, rfl, number⟩
    refine bind_eq_ok.mpr ⟨(component, [word]), rfl, bind_eq_ok.mpr ⟨(code, []), second, rfl⟩⟩

theorem ofKeyword_logr : ofKeyword .logr words text = .ok c ↔
    ∃ component participant word number, words = [component, participant, word] ∧
      Text.unsigned? (UInt32.size - 1) word.toList = some number ∧
      c = .randomSplit component participant number := by
  constructor
  · intro read
    obtain ⟨⟨component, afterComponent⟩, first, read⟩ := bind_eq_ok.mp read
    obtain ⟨⟨participant, afterParticipant⟩, second, read⟩ := bind_eq_ok.mp read
    obtain ⟨⟨number, afterNumber⟩, third, read⟩ := bind_eq_ok.mp read
    obtain ⟨_, done, read⟩ := bind_eq_ok.mp read
    cases read
    obtain ⟨word, rfl, digits⟩ := takeNumber_eq_ok.mp third
    rw [takeWord_eq_ok.mp second, takeEnd_eq_ok.mp done] at first
    exact ⟨component, participant, word, number, takeWord_eq_ok.mp first, digits, rfl⟩
  · rintro ⟨component, participant, word, number, rfl, digits, rfl⟩
    have third : takeNumber .logr .split (UInt32.size - 1) [word] = .ok (number, []) :=
      takeNumber_eq_ok.mpr ⟨word, rfl, digits⟩
    refine bind_eq_ok.mpr ⟨(component, [participant, word]), rfl, ?_⟩
    exact bind_eq_ok.mpr ⟨(participant, [word]), rfl, bind_eq_ok.mpr ⟨(number, []), third, rfl⟩⟩

/-- A line gives the command that its first word stands for. -/
theorem keyword_ofKeyword (read : ofKeyword keyword words text = .ok c) : c.keyword = keyword := by
  cases keyword with
  | raw =>
    unfold ofKeyword at read
    dsimp only at read
    split at read
    · cases read
    · cases read
      rfl
  | stt =>
    obtain ⟨_, _, _, _, _, rfl⟩ := ofKeyword_stt.mp read
    rfl
  | logr =>
    obtain ⟨_, _, _, _, _, _, rfl⟩ := ofKeyword_logr.mp read
    rfl
  | sim =>
    obtain ⟨_, _, read⟩ := bind_eq_ok.mp read
    obtain ⟨_, _, read⟩ := bind_eq_ok.mp read
    cases read
    rfl
  | abort =>
    obtain ⟨_, _, read⟩ := bind_eq_ok.mp read
    obtain ⟨_, _, read⟩ := bind_eq_ok.mp read
    cases read
    rfl
  | status =>
    obtain ⟨_, _, read⟩ := bind_eq_ok.mp read
    cases read
    rfl
  | help | quit =>
    cases read
    rfl

/-- A line is a command if its first word is a keyword and the rest has the form that this asks for. -/
theorem parse_eq_ok_some : parse line = .ok (some c) ↔
    ∃ first later keyword, Text.words (Text.trim line.toList) = first :: later ∧
      keyword? (String.ofList first) = some keyword ∧
      ofKeyword keyword (later.map String.ofList)
        (String.ofList (Text.trim ((Text.trim line.toList).drop first.length))) = .ok c := by
  have kept {x : Except LineError Command} : some <$> x = .ok (some c) ↔ x = .ok c := by
    cases x <;> simp [Functor.map, Except.map]
  unfold parse
  dsimp only
  cases Text.words (Text.trim line.toList) with
  | nil => simp [pure, Except.pure]
  | cons first later =>
    cases found : keyword? (String.ofList first) with
    | none =>
      simp only [found]
      refine ⟨nofun, ?_⟩
      rintro ⟨_, _, _, same, again, _⟩
      cases same
      cases found.symm.trans again
    | some keyword =>
      simp only [found]
      refine kept.trans ⟨fun read => ⟨first, later, keyword, rfl, found, read⟩, ?_⟩
      rintro ⟨_, _, _, same, again, read⟩
      cases same
      cases found.symm.trans again
      exact read

/-- The names that a command has sent in a record as they were typed. -/
def typed : Command → List String
  | .announce component _ => [component]
  | .randomSplit component participant _ => [component, participant]
  | _ => []

/-- The names in a command are words that were typed. -/
theorem typed_mem_words (read : ofKeyword keyword words text = .ok c) : ∀ name ∈ c.typed, name ∈ words := by
  have same := keyword_ofKeyword read
  cases c with
  | announce =>
    subst same
    obtain ⟨component, word, code, rfl, _, made⟩ := ofKeyword_stt.mp read
    cases made
    simp [typed]
  | randomSplit =>
    subst same
    obtain ⟨component, participant, word, number, rfl, _, made⟩ := ofKeyword_logr.mp read
    cases made
    simp [typed]
  | raw | race | abort | report | help | quit => simp [typed]

/-- The names that are typed in a line are not empty and hold no blank. -/
theorem typed_of_parse (parsed : parse line = .ok (some c)) :
    ∀ name ∈ c.typed, name.toList ≠ [] ∧ ∀ ch ∈ name.toList, Text.isBlank ch = false := by
  obtain ⟨first, later, keyword, words, _, read⟩ := parse_eq_ok_some.mp parsed
  intro name member
  obtain ⟨word, listed, rfl⟩ := List.mem_map.mp (typed_mem_words read name member)
  rw [String.toList_ofList]
  exact Text.mem_words (words ▸ List.mem_cons_of_mem first listed)

end LiveTiming.Command
