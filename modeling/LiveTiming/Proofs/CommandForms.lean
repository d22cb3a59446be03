import LiveTiming.Proofs.Grammar
import LiveTiming.Proofs.Words

namespace LiveTiming

/-- An argument that a command takes: any word, or a number up to a limit. -/
structure Parameter where
  argument : Argument
  limit? : Option Nat

/-- Whether a word can stand for the argument. -/
def Parameter.Admits (p : Parameter) (word : String) : Prop :=
  ∀ limit ∈ p.limit?, ∃ n, Text.Writes word.toList n ∧ n ≤ limit

namespace Keyword

/-- The arguments of a command, from left to right. -/
def parameters : Keyword → List Parameter
  | .raw => [⟨.text, none⟩]
  | .stt => [⟨.component, none⟩, ⟨.state, some (UInt8.size - 1)⟩]
  | .logr => [⟨.component, none⟩, ⟨.participant, none⟩, ⟨.split, some (UInt32.size - 1)⟩]
  | .sim => [⟨.component, none⟩, ⟨.splits, some (UInt32.size - 1)⟩]
  | .abort => [⟨.component, none⟩]
  | .status | .help | .quit => []

/-- Whether any words may follow the arguments of a command. -/
def isOpen : Keyword → Bool
  | .raw | .sim | .help | .quit => true
  | .stt | .logr | .abort | .status => false

/-- Whether a word begins the command. There are two words to quit with. -/
def Begins (keyword : Keyword) (word : String) : Prop :=
  word = keyword.text ∨ word = "exit" ∧ keyword = .quit

end Keyword

/-- What is wrong at one place of a line: an argument is missing there, a word stands for a number that
is none or that is too large, or a word is left over. -/
inductive Problem (keyword : Keyword) : Option Parameter → Option String → LineError → Prop
  | missing {p} : Problem keyword (some p) none (.missing keyword p.argument)
  | invalid {p word} : ¬ p.Admits word → Problem keyword (some p) (some word) (.invalid keyword p.argument word)
  | surplus {word} : keyword.isOpen = false → Problem keyword none (some word) (.unexpected keyword word)

/-- The leftmost of the problems with the words that follow a keyword. -/
def Leftmost (keyword : Keyword) (parameters : List Parameter) (words : List String) (e : LineError) : Prop :=
  ∃ i : Nat, Problem keyword parameters[i]? words[i]? e ∧
    ∀ j < i, ∀ e', ¬ Problem keyword parameters[j]? words[j]? e'

/-- What a keyword comes to with the words that follow it, unless it is one to send a text. -/
inductive Form : Keyword → List String → Command → Prop
  | stt {component word code} : Text.Writes word.toList code → code ≤ UInt8.size - 1 →
      Form .stt [component, word] (.announce component ⟨UInt8.ofNat code⟩)
  | logr {component participant word split} : Text.Writes word.toList split → split ≤ UInt32.size - 1 →
      Form .logr [component, participant, word] (.randomSplit component participant split)
  | sim {component word splits participants} : Text.Writes word.toList splits → splits ≤ UInt32.size - 1 →
      Form .sim (component :: word :: participants) (.race ⟨component, splits, participants⟩)
  | abort {component} : Form .abort [component] (.abort component)
  | status : Form .status [] .report
  | help {more} : Form .help more .help
  | quit {more} : Form .quit more .quit

section Leftmost

variable {keyword : Keyword} {p : Parameter} {parameters : List Parameter} {word : String}
  {words : List String} {e : LineError}

/-- The leftmost problem is at the first parameter, or the first one has none and it is among the others. -/
theorem leftmost_iff : Leftmost keyword parameters words e ↔
    Problem keyword parameters.head? words.head? e ∨
      (∀ e', ¬ Problem keyword parameters.head? words.head? e') ∧
        Leftmost keyword parameters.tail words.tail e := by
  simp only [Leftmost, List.getElem?_tail, List.head?_eq_getElem?]
  constructor
  · rintro ⟨_ | i, problem, none⟩
    · exact Or.inl problem
    · exact Or.inr ⟨none 0 (by omega), i, problem, fun j before => none (j + 1) (by omega)⟩
  · rintro (problem | ⟨first, i, problem, none⟩)
    · exact ⟨0, problem, by omega⟩
    · refine ⟨i + 1, problem, fun j before => ?_⟩
      cases j with
      | zero => exact first
      | succ j => exact none j (by omega)

/-- A parameter has one problem at most with a word. -/
theorem Problem.unique {p : Option Parameter} {word : Option String} {e' : LineError}
    (one : Problem keyword p word e) (other : Problem keyword p word e') : e = e' := by
  cases one <;> cases other <;> rfl

theorem leftmost_head {e' : LineError} (problem : Problem keyword parameters.head? words.head? e') :
    Leftmost keyword parameters words e ↔ e = e' := by
  rw [leftmost_iff]
  constructor
  · rintro (same | ⟨none, -⟩)
    · exact same.unique problem
    · exact absurd problem (none e')
  · rintro rfl
    exact Or.inl problem

/-- Where words end too early, the next parameter is missing. -/
theorem leftmost_missing : Leftmost keyword (p :: parameters) [] e ↔ e = .missing keyword p.argument :=
  leftmost_head .missing

theorem leftmost_invalid (wrong : ¬ p.Admits word) :
    Leftmost keyword (p :: parameters) (word :: words) e ↔ e = .invalid keyword p.argument word :=
  leftmost_head (.invalid wrong)

/-- Where they go on too long, the first one that is left over is surplus. -/
theorem leftmost_surplus (closed : keyword.isOpen = false) :
    Leftmost keyword [] (word :: words) e ↔ e = .unexpected keyword word :=
  leftmost_head (.surplus closed)

theorem leftmost_cons (right : p.Admits word) :
    Leftmost keyword (p :: parameters) (word :: words) e ↔ Leftmost keyword parameters words e := by
  have none (e' : LineError) : ¬ Problem keyword (some p) (some word) e' := by
    intro problem
    cases problem with
    | invalid wrong => exact wrong right
  rw [leftmost_iff]
  exact ⟨fun problem => (problem.resolve_left (none e)).2, fun later => Or.inr ⟨none, later⟩⟩

theorem leftmost_word {argument : Argument} :
    Leftmost keyword (⟨argument, none⟩ :: parameters) (word :: words) e ↔ Leftmost keyword parameters words e :=
  leftmost_cons (by simp [Parameter.Admits])

theorem not_leftmost_nil : ¬ Leftmost keyword [] [] e := by
  rintro ⟨i, problem, -⟩
  cases problem

/-- Who takes any words that follow has no problem with them. -/
theorem not_leftmost_open (unbounded : keyword.isOpen = true) : ¬ Leftmost keyword [] words e := by
  rintro ⟨i, problem, -⟩
  rw [List.getElem?_nil] at problem
  generalize words[i]? = word at problem
  cases problem with
  | surplus closed =>
    rw [unbounded] at closed
    cases closed

end Leftmost

namespace Command

variable {keyword : Keyword} {argument : Argument} {limit : Nat} {parameters : List Parameter}
  {words : List String} {text line : String} {e : LineError} {c : Command}

section Arguments

variable {α : Type}

theorem pure_ne_error (a : α) : (pure a : Except LineError α) ≠ .error e := by
  rintro ⟨⟩

theorem error_iff {e' : LineError} : (Except.error e' : Except LineError α) = .error e ↔ e = e' := by
  rw [Except.error.injEq, eq_comm]

/-- To take a word fails if there is none, or if what follows fails. -/
theorem takeWord_eq_error {next : String × List String → Except LineError α}
    (rest : ∀ word later, next (word, later) = .error e ↔ Leftmost keyword parameters later e) :
    takeWord keyword argument words >>= next = .error e ↔
      Leftmost keyword (⟨argument, none⟩ :: parameters) words e := by
  cases words with
  | nil =>
    rw [leftmost_missing]
    exact error_iff
  | cons word later =>
    rw [leftmost_word]
    exact rest word later

/-- A parameter for numbers admits the words that are numbers up to its limit. -/
theorem admits_iff {word : String} :
    Parameter.Admits ⟨argument, some limit⟩ word ↔ ∃ n, Text.unsigned? limit word.toList = some n := by
  simp only [Parameter.Admits, Option.mem_some_iff, forall_eq', Text.unsigned_eq_some_iff]

/-- To take a number fails at the word that is none, or in what follows. -/
theorem takeNumber_eq_error {next : Nat × List String → Except LineError α}
    (rest : ∀ n later, next (n, later) = .error e ↔ Leftmost keyword parameters later e) :
    takeNumber keyword argument limit words >>= next = .error e ↔
      Leftmost keyword (⟨argument, some limit⟩ :: parameters) words e := by
  cases words with
  | nil =>
    rw [leftmost_missing]
    exact error_iff
  | cons word later =>
    cases number : Text.unsigned? limit word.toList with
    | none =>
      have wrong : ¬ Parameter.Admits ⟨argument, some limit⟩ word := by
        rw [admits_iff, number]
        simp
      have failed : takeNumber keyword argument limit (word :: later) =
          .error (.invalid keyword argument word) := by
        simp [takeNumber, takeWord, number, bind, Except.bind, throw, throwThe, MonadExceptOf.throw]
      rw [failed, leftmost_invalid wrong]
      exact error_iff
    | some n =>
      have right : Parameter.Admits ⟨argument, some limit⟩ word := admits_iff.mpr ⟨n, number⟩
      rw [takeNumber_eq_ok.mpr ⟨word, rfl, number⟩, leftmost_cons right]
      exact rest n later

/-- Where the words are to end, the first one that is left is the problem. -/
theorem takeEnd_eq_error (closed : keyword.isOpen = false) (a : α) :
    (takeEnd keyword words >>= fun _ => pure a) = .error e ↔ Leftmost keyword [] words e := by
  cases words with
  | nil => exact iff_of_false (pure_ne_error a) not_leftmost_nil
  | cons word later =>
    rw [leftmost_surplus closed]
    exact error_iff

theorem open_eq_error (unbounded : keyword.isOpen = true) (a : α) :
    (pure a : Except LineError α) = .error e ↔ Leftmost keyword [] words e :=
  iff_of_false (pure_ne_error a) (not_leftmost_open unbounded)

end Arguments

/-- A line that begins with a keyword fails by the leftmost problem with the words after it. -/
theorem ofKeyword_eq_error (blank : text = "" ↔ words = []) :
    ofKeyword keyword words text = .error e ↔ Leftmost keyword keyword.parameters words e := by
  cases keyword with
  | raw =>
    cases words with
    | nil =>
      rw [blank.mpr rfl, Keyword.parameters, leftmost_missing]
      exact error_iff
    | cons word later =>
      have some : text.toList.isEmpty = false := by simpa using blank
      rw [Keyword.parameters, leftmost_word, ofKeyword, some]
      exact open_eq_error rfl _
  | stt =>
    exact takeWord_eq_error fun _ _ => takeNumber_eq_error fun _ _ => takeEnd_eq_error rfl _
  | logr =>
    exact takeWord_eq_error fun _ _ => takeWord_eq_error fun _ _ => takeNumber_eq_error fun _ _ =>
      takeEnd_eq_error rfl _
  | sim => exact takeWord_eq_error fun _ _ => takeNumber_eq_error fun _ _ => open_eq_error rfl _
  | abort => exact takeWord_eq_error fun _ _ => takeEnd_eq_error rfl _
  | status => exact takeEnd_eq_error rfl _
  | help | quit => exact open_eq_error rfl _

section Accepted

/-- Any text but the empty one is sent as it stands. -/
theorem ofKeyword_raw : ofKeyword .raw words text = .ok c ↔ text ≠ "" ∧ c = .raw text := by
  unfold ofKeyword
  dsimp only
  by_cases none : text = ""
  · subst none
    simp [throw, throwThe, MonadExceptOf.throw]
  · have some : text.toList.isEmpty = false := by simpa using none
    rw [some]
    simp [none, pure, Except.pure, eq_comm]

/-- A race needs a component and a number of splits, and all words that follow are participants. -/
theorem ofKeyword_sim : ofKeyword .sim words text = .ok c ↔
    ∃ component word splits participants, words = component :: word :: participants ∧
      Text.unsigned? (UInt32.size - 1) word.toList = some splits ∧ c = .race ⟨component, splits, participants⟩ := by
  constructor
  · intro read
    obtain ⟨⟨component, afterComponent⟩, first, read⟩ := bind_eq_ok.mp read
    obtain ⟨⟨splits, participants⟩, second, read⟩ := bind_eq_ok.mp read
    cases read
    obtain ⟨word, rfl, number⟩ := takeNumber_eq_ok.mp second
    exact ⟨component, word, splits, participants, takeWord_eq_ok.mp first, number, rfl⟩
  · rintro ⟨component, word, splits, participants, rfl, number, rfl⟩
    have second : takeNumber .sim .splits (UInt32.size - 1) (word :: participants) = .ok (splits, participants) :=
      takeNumber_eq_ok.mpr ⟨word, rfl, number⟩
    exact bind_eq_ok.mpr ⟨(component, word :: participants), rfl, bind_eq_ok.mpr ⟨_, second, rfl⟩⟩

theorem ofKeyword_abort : ofKeyword .abort words text = .ok c ↔
    ∃ component, words = [component] ∧ c = .abort component := by
  constructor
  · intro read
    obtain ⟨⟨component, afterComponent⟩, first, read⟩ := bind_eq_ok.mp read
    obtain ⟨_, done, read⟩ := bind_eq_ok.mp read
    cases read
    rw [takeEnd_eq_ok.mp done] at first
    exact ⟨component, takeWord_eq_ok.mp first, rfl⟩
  · rintro ⟨component, rfl, rfl⟩
    rfl

theorem ofKeyword_status : ofKeyword .status words text = .ok c ↔ words = [] ∧ c = .report := by
  constructor
  · intro read
    obtain ⟨_, done, read⟩ := bind_eq_ok.mp read
    cases read
    exact ⟨takeEnd_eq_ok.mp done, rfl⟩
  · rintro ⟨rfl, rfl⟩
    rfl

/-- The words that are accepted after a keyword, and the command that they make with it. -/
theorem ofKeyword_eq_ok (wordsOnly : keyword ≠ .raw) :
    ofKeyword keyword words text = .ok c ↔ Form keyword words c := by
  constructor
  · intro read
    cases keyword with
    | raw => exact absurd rfl wordsOnly
    | stt =>
      obtain ⟨component, word, code, rfl, number, rfl⟩ := ofKeyword_stt.mp read
      obtain ⟨writes, within⟩ := Text.unsigned_eq_some_iff.mp number
      exact .stt writes within
    | logr =>
      obtain ⟨component, participant, word, split, rfl, number, rfl⟩ := ofKeyword_logr.mp read
      obtain ⟨writes, within⟩ := Text.unsigned_eq_some_iff.mp number
      exact .logr writes within
    | sim =>
      obtain ⟨component, word, splits, participants, rfl, number, rfl⟩ := ofKeyword_sim.mp read
      obtain ⟨writes, within⟩ := Text.unsigned_eq_some_iff.mp number
      exact .sim writes within
    | abort =>
      obtain ⟨component, rfl, rfl⟩ := ofKeyword_abort.mp read
      exact .abort
    | status =>
      obtain ⟨rfl, rfl⟩ := ofKeyword_status.mp read
      exact .status
    | help =>
      cases read
      exact .help
    | quit =>
      cases read
      exact .quit
  · intro form
    cases form with
    | stt writes within =>
      exact ofKeyword_stt.mpr ⟨_, _, _, rfl, Text.unsigned_eq_some_iff.mpr ⟨writes, within⟩, rfl⟩
    | logr writes within =>
      exact ofKeyword_logr.mpr ⟨_, _, _, _, rfl, Text.unsigned_eq_some_iff.mpr ⟨writes, within⟩, rfl⟩
    | sim writes within =>
      exact ofKeyword_sim.mpr ⟨_, _, _, _, rfl, Text.unsigned_eq_some_iff.mpr ⟨writes, within⟩, rfl⟩
    | abort => exact ofKeyword_abort.mpr ⟨_, rfl, rfl⟩
    | status => exact ofKeyword_status.mpr ⟨rfl, rfl⟩
    | help | quit => rfl

end Accepted

section Lines

/-- A keyword is found if the word is one of its names. -/
theorem keyword_iff {word : String} : keyword? word = some keyword ↔ keyword.Begins word := by
  constructor
  · intro found
    unfold keyword? at found
    split at found <;> cases found
    case h_9 => exact Or.inr ⟨rfl, rfl⟩
    all_goals exact Or.inl rfl
  · rintro (rfl | ⟨rfl, rfl⟩)
    · cases keyword <;> rfl
    · rfl

/-- A word without a keyword is the name of none. -/
theorem keyword_none_iff {word : String} : keyword? word = none ↔ ∀ keyword : Keyword, ¬ keyword.Begins word := by
  simp only [← keyword_iff, Option.eq_none_iff_forall_ne_some]

/-- The words of a line. -/
def wordsOf (line : String) : List String :=
  (Text.words line.toList).map String.ofList

/-- What a line holds behind its first word. -/
def behind (first line : String) : String :=
  String.ofList (Text.trim ((Text.trim line.toList).drop first.toList.length))

variable {first : String} {later : List String}

theorem map_ofList_toList (words : List String) : (words.map String.toList).map String.ofList = words := by
  simp [Function.comp_def]

theorem wordsOf_eq_iff : wordsOf line = words ↔ Text.words line.toList = words.map String.toList := by
  constructor
  · rintro rfl
    simp [wordsOf, Function.comp_def]
  · intro same
    rw [wordsOf, same, map_ofList_toList]

/-- Nothing stands behind the only word. -/
theorem behind_eq_empty (parts : wordsOf line = first :: later) : behind first line = "" ↔ later = [] := by
  have rest := Text.words_drop (wordsOf_eq_iff.mp parts)
  rw [behind, String.ofList_eq_empty_iff, Text.trim_eq_nil_iff, rest, List.map_eq_nil_iff]

/-- What is behind the first word of a line goes from the second word to the last. -/
theorem behind_eq_iff {second : String} (parts : wordsOf line = first :: second :: later) :
    behind first line = text ↔ ∃ front gap back,
      line.toList = front ++ (first.toList ++ (gap ++ text.toList)) ++ back ∧ gap ≠ [] ∧
        Text.Blank front ∧ Text.Blank gap ∧ Text.Blank back ∧
        Text.Spans text.toList ((second :: later).map String.toList) := by
  rw [← String.toList_inj, behind, String.toList_ofList]
  exact Text.trim_drop_iff (wordsOf_eq_iff.mp parts)

/-- A blank line asks for nothing. -/
theorem parse_blank (blank : wordsOf line = []) : parse line = .ok none := by
  have none := wordsOf_eq_iff.mp blank
  unfold parse
  dsimp only
  rw [Text.words_trim, none]
  rfl

/-- A line is refused at its first word if that is no keyword. -/
theorem parse_unknown (parts : wordsOf line = first :: later) (none : ∀ keyword : Keyword, ¬ keyword.Begins first) :
    parse line = .error (.unknown first) := by
  have whole := wordsOf_eq_iff.mp parts
  unfold parse
  dsimp only
  rw [Text.words_trim, whole, List.map_cons]
  dsimp only
  rw [String.ofList_toList, keyword_none_iff.mpr none]
  rfl

/-- All else is decided by the keyword, the words that follow and the text behind it. -/
theorem parse_keyword (parts : wordsOf line = first :: later) (begins : keyword.Begins first) :
    parse line = some <$> ofKeyword keyword later (behind first line) := by
  have whole := wordsOf_eq_iff.mp parts
  unfold parse
  dsimp only
  rw [Text.words_trim, whole, List.map_cons]
  dsimp only
  rw [String.ofList_toList, keyword_iff.mpr begins]
  dsimp only
  rw [map_ofList_toList]
  rfl

/-- What a line is read to goes by its words, and by what is behind the first of them. -/
theorem parse_cases (line : String) :
    (wordsOf line = [] ∧ parse line = .ok none) ∨
      (∃ first later, wordsOf line = first :: later ∧ (∀ keyword : Keyword, ¬ keyword.Begins first) ∧
        parse line = .error (.unknown first)) ∨
      ∃ first later keyword, wordsOf line = first :: later ∧ keyword.Begins first ∧
        parse line = some <$> ofKeyword keyword later (behind first line) := by
  cases parts : wordsOf line with
  | nil => exact Or.inl ⟨rfl, parse_blank parts⟩
  | cons first later =>
    cases found : keyword? first with
    | none =>
      have none := keyword_none_iff.mp found
      exact Or.inr (Or.inl ⟨first, later, rfl, none, parse_unknown parts none⟩)
    | some keyword =>
      have begins := keyword_iff.mp found
      exact Or.inr (Or.inr ⟨first, later, keyword, rfl, begins, parse_keyword parts begins⟩)

theorem map_some_eq_error {x : Except LineError Command} : some <$> x = .error e ↔ x = .error e := by
  cases x <;> simp [Functor.map, Except.map]

theorem map_some_ne_none {x : Except LineError Command} : some <$> x ≠ .ok none := by
  cases x <;> simp [Functor.map, Except.map]

/-- Only blank lines ask for nothing. -/
theorem parse_eq_none_iff : parse line = .ok none ↔ wordsOf line = [] := by
  constructor
  · intro parsed
    rcases parse_cases line with ⟨blank, -⟩ | ⟨_, _, _, _, read⟩ | ⟨_, _, _, _, _, read⟩
    · exact blank
    · cases parsed.symm.trans read
    · exact absurd (read.symm.trans parsed) map_some_ne_none
  · exact parse_blank

/-- The lines that are read to one command, by their words and what is behind the first of them. -/
theorem parse_eq_some_iff : parse line = .ok (some c) ↔
    ∃ first later keyword, wordsOf line = first :: later ∧ keyword.Begins first ∧
      ofKeyword keyword later (behind first line) = .ok c := by
  rw [parse_eq_ok_some, Text.words_trim]
  constructor
  · rintro ⟨first, later, keyword, whole, found, read⟩
    have parts : wordsOf line = String.ofList first :: later.map String.ofList := by
      rw [wordsOf, whole, List.map_cons]
    refine ⟨_, _, keyword, parts, keyword_iff.mp found, ?_⟩
    rw [behind, String.toList_ofList]
    exact read
  · rintro ⟨first, later, keyword, parts, begins, read⟩
    have whole := wordsOf_eq_iff.mp parts
    refine ⟨first.toList, later.map String.toList, keyword, whole, ?_, ?_⟩
    · rw [String.ofList_toList]
      exact keyword_iff.mpr begins
    · rw [map_ofList_toList]
      exact read

/-- A text to send is what is behind the first of two words or more. -/
theorem parse_eq_raw_iff : parse line = .ok (some (.raw text)) ↔
    ∃ second later, wordsOf line = "raw" :: second :: later ∧ behind "raw" line = text := by
  rw [parse_eq_some_iff]
  constructor
  · rintro ⟨first, later, keyword, parts, begins, read⟩
    have isRaw : keyword = .raw := (keyword_ofKeyword read).symm
    subst isRaw
    obtain ⟨some, sent⟩ := ofKeyword_raw.mp read
    cases begins with
    | inr quits => cases quits.2
    | inl same =>
      subst same
      obtain ⟨second, later, rfl⟩ := List.exists_cons_of_ne_nil (mt (behind_eq_empty parts).mpr some)
      exact ⟨second, later, parts, (Command.raw.inj sent).symm⟩
  · rintro ⟨second, later, parts, rfl⟩
    have some : behind "raw" line ≠ "" := mt (behind_eq_empty parts).mp (by simp)
    exact ⟨_, _, .raw, parts, Or.inl rfl, ofKeyword_raw.mpr ⟨some, rfl⟩⟩

/-- A command other than raw text is read from just the words of its form. -/
theorem parse_eq_form_iff (wordsOnly : c.keyword ≠ .raw) : parse line = .ok (some c) ↔
    ∃ first later keyword, wordsOf line = first :: later ∧ keyword.Begins first ∧ Form keyword later c := by
  rw [parse_eq_some_iff]
  constructor
  · rintro ⟨first, later, keyword, parts, begins, read⟩
    rw [keyword_ofKeyword read] at wordsOnly
    exact ⟨first, later, keyword, parts, begins, (ofKeyword_eq_ok wordsOnly).mp read⟩
  · rintro ⟨first, later, keyword, parts, begins, form⟩
    have notRaw : keyword ≠ .raw := by
      rintro rfl
      cases form
    exact ⟨first, later, keyword, parts, begins, (ofKeyword_eq_ok notRaw).mpr form⟩

/-- A line is refused at an unknown first word, or with the leftmost problem of its keyword. -/
theorem parse_eq_error_iff : parse line = .error e ↔
    ∃ first later, wordsOf line = first :: later ∧
      (((∀ keyword : Keyword, ¬ keyword.Begins first) ∧ e = .unknown first) ∨
        ∃ keyword : Keyword, keyword.Begins first ∧ Leftmost keyword keyword.parameters later e) := by
  constructor
  · intro parsed
    rcases parse_cases line with ⟨_, read⟩ | ⟨first, later, parts, none, read⟩ |
      ⟨first, later, keyword, parts, begins, read⟩
    · cases parsed.symm.trans read
    · cases parsed.symm.trans read
      exact ⟨first, later, parts, Or.inl ⟨none, rfl⟩⟩
    · have failed := map_some_eq_error.mp (read.symm.trans parsed)
      have leftmost := (ofKeyword_eq_error (behind_eq_empty parts)).mp failed
      exact ⟨first, later, parts, Or.inr ⟨keyword, begins, leftmost⟩⟩
  · rintro ⟨first, later, parts, ⟨none, rfl⟩ | ⟨keyword, begins, leftmost⟩⟩
    · exact parse_unknown parts none
    · have failed := (ofKeyword_eq_error (behind_eq_empty parts)).mpr leftmost
      exact (parse_keyword parts begins).trans (map_some_eq_error.mpr failed)

/-- Lines of the same words are read alike, but for a text to send. -/
theorem parse_eq_of_words {other : String} (same : wordsOf other = wordsOf line) :
    parse other = parse line ∨
      ∃ text text', parse other = .ok (some (.raw text)) ∧ parse line = .ok (some (.raw text')) := by
  cases read : parse line with
  | error e =>
    have again : parse other = .error e := by
      rw [parse_eq_error_iff, same, ← parse_eq_error_iff]
      exact read
    exact Or.inl again
  | ok found =>
    cases found with
    | none =>
      have again : parse other = .ok none := by
        rw [parse_eq_none_iff, same, ← parse_eq_none_iff]
        exact read
      exact Or.inl again
    | some c =>
      by_cases wordsOnly : c.keyword = .raw
      · cases c with
        | raw text =>
          obtain ⟨second, later, parts, -⟩ := parse_eq_raw_iff.mp read
          exact Or.inr ⟨_, text, parse_eq_raw_iff.mpr ⟨second, later, same.trans parts, rfl⟩, rfl⟩
        | _ => cases wordsOnly
      · have again : parse other = .ok (some c) := by
          rw [parse_eq_form_iff wordsOnly, same, ← parse_eq_form_iff wordsOnly]
          exact read
        exact Or.inl again

theorem ofLine_eq_ok_iff : ofLine line = .ok c ↔ parse line = .ok (some c) := by
  unfold ofLine
  cases parse line with
  | error => simp [bind, Except.bind]
  | ok found => cases found <;> simp [bind, Except.bind, throw, throwThe, MonadExceptOf.throw, pure, Except.pure]

theorem ofLine_eq_error_iff : ofLine line = .error e ↔
    parse line = .error e ∨ wordsOf line = [] ∧ e = .unknown "" := by
  rw [← parse_eq_none_iff]
  unfold ofLine
  cases parse line with
  | error => simp [bind, Except.bind]
  | ok found =>
    cases found <;> simp [bind, Except.bind, throw, throwThe, MonadExceptOf.throw, pure, Except.pure, eq_comm]

end Lines

open Text in
/-- What a line is read to, from its words. A blank line holds no command. A text to send is the line from
its second word to its last. The other commands go by their words alone, and so does every failure: a
first word that begins no command, or the leftmost problem with the arguments. A reader that expects a
command differs in blank lines only. -/
theorem parse_reads_words (line : String) :
    (∀ words, Spaced line.toList words ↔ words.map String.ofList = wordsOf line) ∧
    (parse line = .ok none ↔ wordsOf line = []) ∧
    ((∃ text, parse line = .ok (some (.raw text))) ↔ ∃ second later, wordsOf line = "raw" :: second :: later) ∧
    (∀ text, parse line = .ok (some (.raw text)) ↔ ∃ second later front gap back,
      wordsOf line = "raw" :: second :: later ∧
        line.toList = front ++ ("raw".toList ++ (gap ++ text.toList)) ++ back ∧ gap ≠ [] ∧
        Blank front ∧ Blank gap ∧ Blank back ∧ Spans text.toList ((second :: later).map String.toList)) ∧
    (∀ c : Command, c.keyword ≠ .raw → (parse line = .ok (some c) ↔ ∃ first later keyword,
      wordsOf line = first :: later ∧ keyword.Begins first ∧ Form keyword later c)) ∧
    (∀ e, parse line = .error e ↔ ∃ first later, wordsOf line = first :: later ∧
      (((∀ keyword : Keyword, ¬ keyword.Begins first) ∧ e = .unknown first) ∨
        ∃ keyword : Keyword, keyword.Begins first ∧ Leftmost keyword keyword.parameters later e)) ∧
    (∀ other, wordsOf other = wordsOf line → parse other = parse line ∨
      ∃ text text', parse other = .ok (some (.raw text)) ∧ parse line = .ok (some (.raw text'))) ∧
    (∀ c, ofLine line = .ok c ↔ parse line = .ok (some c)) ∧
    ∀ e, ofLine line = .error e ↔ parse line = .error e ∨ wordsOf line = [] ∧ e = .unknown "" := by
  refine ⟨fun words => ?_, parse_eq_none_iff, ?_, fun text => ?_, fun c wordsOnly => parse_eq_form_iff wordsOnly,
    fun e => parse_eq_error_iff, fun other same => parse_eq_of_words same, fun c => ofLine_eq_ok_iff,
    fun e => ofLine_eq_error_iff⟩
  · rw [spaced_iff, eq_comm, wordsOf, List.map_inj_right fun _ _ => String.ofList_inj.mp]
  · simp only [parse_eq_raw_iff]
    constructor
    · rintro ⟨_, second, later, parts, -⟩
      exact ⟨second, later, parts⟩
    · rintro ⟨second, later, parts⟩
      exact ⟨_, second, later, parts, rfl⟩
  · rw [parse_eq_raw_iff]
    constructor
    · rintro ⟨second, later, parts, same⟩
      obtain ⟨front, gap, back, stretch⟩ := (behind_eq_iff parts).mp same
      exact ⟨second, later, front, gap, back, parts, stretch⟩
    · rintro ⟨second, later, front, gap, back, parts, stretch⟩
      exact ⟨second, later, parts, (behind_eq_iff parts).mpr ⟨front, gap, back, stretch⟩⟩

/-- A command between wide blanks whose number has a sign and zeros, a text with its inner blanks, and a
number that is too large before a word that is left over. -/
theorem lines_are_read :
    parse "\u2003logr K1\u00a0boat +007" = .ok (some (.randomSplit "K1" "boat" 7)) ∧
      parse "raw  STT0|A|A|9  extra words " = .ok (some (.raw "STT0|A|A|9  extra words")) ∧
      parse "stt K1 256 7" = .error (.invalid .stt .state "256") := by
  obtain ⟨-, -, -, -, command, -⟩ := parse_reads_words "\u2003logr K1\u00a0boat +007"
  obtain ⟨-, -, -, text, -⟩ := parse_reads_words "raw  STT0|A|A|9  extra words "
  obtain ⟨-, -, -, -, -, failure, -⟩ := parse_reads_words "stt K1 256 7"
  refine ⟨(command _ (by decide)).mpr ?_, (text _).mpr ?_, (failure _).mpr ?_⟩
  · refine ⟨"logr", ["K1", "boat", "+007"], .logr, by decide +kernel, Or.inl rfl, .logr ?_ (by decide)⟩
    exact ⟨['0', '0', '7'], Or.inr (by decide), by decide, List.all_eq_true.mp (by decide), by decide⟩
  · refine ⟨"STT0|A|A|9", ["extra", "words"], [], "  ".toList, [' '], by decide +kernel, by decide +kernel,
      by decide +kernel, by simp [Text.Blank], ?_, ?_, ?_⟩
    · exact List.all_eq_true.mp (by decide)
    · exact List.all_eq_true.mp (by decide)
    · refine ⟨Text.spaced_iff.mpr (by decide +kernel), ?_, ?_⟩
      · rintro _ ⟨⟩
        decide
      · rintro _ ⟨⟩
        decide
  · have wrong : ¬ Parameter.Admits ⟨.state, some (UInt8.size - 1)⟩ "256" := by
      rw [admits_iff, ← Option.isSome_iff_exists]
      decide
    exact ⟨"stt", ["K1", "256", "7"], by decide +kernel,
      Or.inr ⟨.stt, Or.inl rfl, leftmost_word.mpr ((leftmost_invalid wrong).mpr rfl)⟩⟩

end Command

end LiveTiming
