import LiveTiming.Proofs.Text

namespace LiveTiming.Text

/-- Whether a stretch of a line holds nothing but blanks. -/
def Blank (s : List Char) : Prop :=
  ∀ c ∈ s, isBlank c = true

/-- Whether a stretch of a line is a word: it is not empty and holds no blank. -/
def IsWord (s : List Char) : Prop :=
  s ≠ [] ∧ ∀ c ∈ s, isBlank c = false

/-- A line with its words: some blanks and then a word, with a blank behind it unless the line ends
there, and so on. There may be blanks after the last word. -/
inductive Spaced : List Char → List (List Char) → Prop
  | blank {gap} : Blank gap → Spaced gap []
  | last {gap word} : Blank gap → IsWord word → Spaced (gap ++ word) [word]
  | word {gap word blank rest words} : Blank gap → IsWord word → isBlank blank = true →
      Spaced rest words → Spaced (gap ++ (word ++ blank :: rest)) (word :: words)

/-- Whether a line has no blank at either end. -/
structure Tight (s : List Char) : Prop where
  head : ∀ c ∈ s.head?, isBlank c = false
  last : ∀ c ∈ s.getLast?, isBlank c = false

/-- Whether a stretch of a line goes from the start of the first of some words to the end of the
last of them. -/
structure Spans (s : List Char) (words : List (List Char)) : Prop where
  spaced : Spaced s words
  first : ∀ word ∈ words.head?, word <+: s
  last : ∀ word ∈ words.getLast?, word <:+ s

variable {s front back m word : List Char} {c : Char} {ws : List (List Char)}

theorem Blank.nil : Blank [] :=
  List.forall_mem_nil _

theorem Blank.cons (first : isBlank c = true) (rest : Blank s) : Blank (c :: s) :=
  List.forall_mem_cons.mpr ⟨first, rest⟩

theorem Blank.append (left : Blank front) (right : Blank back) : Blank (front ++ back) :=
  List.forall_mem_append.mpr ⟨left, right⟩

section Words

/-- A separator parts what stands on its two sides. -/
theorem splitAt_append_separator (ends : isBlank c = true) (x y : List Char) :
    splitAt isBlank (x ++ c :: y) = splitAt isBlank x ++ splitAt isBlank y := by
  induction x with
  | nil =>
    have none : ∀ a ∈ ([] : List Char), isBlank a = false := by simp
    exact splitAt_append none ends
  | cons a x ih =>
    cases pieces : splitAt isBlank x with
    | nil => exact absurd pieces (splitAt_ne_nil _ _)
    | cons stretch later =>
      rw [List.cons_append, splitAt, splitAt, ih, pieces]
      by_cases separates : isBlank a = true <;> simp [separates]

/-- A blank parts the words before it from those behind it. -/
theorem words_append (ends : isBlank c = true) (x y : List Char) :
    words (x ++ c :: y) = words x ++ words y := by
  rw [words, splitAt_append_separator ends, List.filter_append]
  rfl

/-- Blanks in front make no word. -/
theorem words_blank_append (blank : Blank front) (s : List Char) : words (front ++ s) = words s := by
  induction front with
  | nil => rfl
  | cons c front ih =>
    obtain ⟨first, rest⟩ := List.forall_mem_cons.mp blank
    rw [← ih rest]
    exact words_append first [] (front ++ s)

/-- Blanks at the end make no word. -/
theorem words_append_blank (s : List Char) (blank : Blank back) : words (s ++ back) = words s := by
  cases back with
  | nil => rw [List.append_nil]
  | cons c back =>
    obtain ⟨first, rest⟩ := List.forall_mem_cons.mp blank
    have none := words_blank_append rest []
    rw [List.append_nil] at none
    rw [words_append first, none]
    exact List.append_nil _

theorem words_word (isWord : IsWord word) : words word = [word] := by
  have some := isWord.1
  rw [words, splitAt_free isWord.2]
  simpa using some

/-- A word that a blank ends comes first. -/
theorem words_word_append (isWord : IsWord word) (ends : isBlank c = true) (rest : List Char) :
    words (word ++ c :: rest) = word :: words rest := by
  rw [words_append ends, words_word isWord]
  rfl

/-- Words with blanks around them are the words found. -/
theorem Spaced.words_eq (spaced : Spaced s ws) : words s = ws := by
  induction spaced with
  | blank gap => exact words_append_blank [] gap
  | last gap isWord => rw [words_blank_append gap, words_word isWord]
  | word gap isWord ends _ ih => rw [words_blank_append gap, words_word_append isWord ends, ih]

theorem Spaced.blank_append (blank : Blank front) (spaced : Spaced s ws) : Spaced (front ++ s) ws := by
  cases spaced with
  | blank gap => exact .blank (blank.append gap)
  | last gap isWord =>
    rw [← List.append_assoc]
    exact .last (blank.append gap) isWord
  | word gap isWord ends rest =>
    rw [← List.append_assoc]
    exact .word (blank.append gap) isWord ends rest

/-- A character that is no blank begins a word or lengthens the first. -/
theorem Spaced.cons_letter (letter : isBlank c = false) (spaced : Spaced s ws) : ∃ ws', Spaced (c :: s) ws' := by
  have single : IsWord [c] := ⟨by simp, by simpa using letter⟩
  have longer {word : List Char} (isWord : IsWord word) : IsWord (c :: word) :=
    ⟨by simp, List.forall_mem_cons.mpr ⟨letter, isWord.2⟩⟩
  have behind {gap rest : List Char} (blank : Blank gap) (some : gap ≠ []) {later}
      (spaced : Spaced rest later) : ∃ ws', Spaced (c :: (gap ++ rest)) ws' := by
    obtain ⟨b, gap, rfl⟩ := List.exists_cons_of_ne_nil some
    obtain ⟨first, others⟩ := List.forall_mem_cons.mp blank
    exact ⟨_, .word .nil single first (spaced.blank_append others)⟩
  cases spaced with
  | blank gapBlank =>
    by_cases none : s = []
    · subst none
      exact ⟨_, .last .nil single⟩
    · simpa using behind gapBlank none (.blank .nil)
  | @last gap word gapBlank isWord =>
    by_cases none : gap = []
    · subst none
      exact ⟨_, .last .nil (longer isWord)⟩
    · exact behind gapBlank none (.last .nil isWord)
  | @word gap word b rest later gapBlank isWord ends others =>
    by_cases none : gap = []
    · subst none
      exact ⟨_, .word .nil (longer isWord) ends others⟩
    · exact behind gapBlank none (.word .nil isWord ends others)

/-- Every line has just the words that are read. -/
theorem spaced_iff : Spaced s ws ↔ words s = ws := by
  have some (s : List Char) : ∃ ws, Spaced s ws := by
    induction s with
    | nil => exact ⟨[], .blank .nil⟩
    | cons c s ih =>
      obtain ⟨ws, spaced⟩ := ih
      by_cases blank : isBlank c = true
      · have single : Blank [c] := .cons blank .nil
        exact ⟨ws, spaced.blank_append single⟩
      · exact spaced.cons_letter (by simpa using blank)
  constructor
  · exact Spaced.words_eq
  · rintro rfl
    obtain ⟨ws, spaced⟩ := some s
    rw [spaced.words_eq]
    exact spaced

end Words

section Ends

theorem trimRight_blank (blank : Blank back) : trimRight back = [] := by
  induction back with
  | nil => rfl
  | cons c back ih =>
    obtain ⟨first, rest⟩ := List.forall_mem_cons.mp blank
    rw [trimRight, ih rest]
    exact if_pos first

theorem trimRight_append (last : ∀ c ∈ m.getLast?, isBlank c = false) (blank : Blank back) :
    trimRight (m ++ back) = m := by
  induction m with
  | nil => exact trimRight_blank blank
  | cons c m ih =>
    rw [List.cons_append, trimRight]
    cases m with
    | nil =>
      have letter : isBlank c = false := last c rfl
      rw [List.nil_append, trimRight_blank blank]
      simp [letter]
    | cons d m =>
      rw [ih (by simpa using last)]

/-- A line is what is left of it after blanks are added at both of its ends and trimmed. -/
theorem trim_append (tight : Tight m) (before : Blank front) (behind : Blank back) :
    trim (front ++ m ++ back) = m := by
  have start : (m ++ back).dropWhile isBlank = m ++ back ∨ m = [] := by
    cases m with
    | nil => exact Or.inr rfl
    | cons c m =>
      have letter := tight.head c rfl
      exact Or.inl (by simp [letter])
  rw [trim, List.append_assoc, List.dropWhile_append_of_pos before]
  rcases start with same | rfl
  · rw [same, trimRight_append tight.last behind]
  · rw [List.nil_append, ← List.append_nil back, List.dropWhile_append_of_pos behind]
    rfl

theorem exists_blank_end (s : List Char) :
    ∃ m back, s = m ++ back ∧ Blank back ∧ ∀ c ∈ m.getLast?, isBlank c = false := by
  induction s with
  | nil => exact ⟨[], [], rfl, .nil, by simp⟩
  | cons c s ih =>
    obtain ⟨m, back, rfl, blank, last⟩ := ih
    cases m with
    | cons d m => exact ⟨c :: d :: m, back, rfl, blank, by simpa using last⟩
    | nil =>
      by_cases letter : isBlank c = true
      · exact ⟨[], c :: back, rfl, .cons letter blank, by simp⟩
      · exact ⟨[c], back, rfl, blank, by simpa using letter⟩

/-- Every line is trimmed by the blanks at both of its ends. -/
theorem exists_trim (s : List Char) :
    ∃ front back, s = front ++ trim s ++ back ∧ Blank front ∧ Blank back ∧ Tight (trim s) := by
  obtain ⟨m, back, whole, behind, last⟩ := exists_blank_end s
  have parts := List.takeWhile_append_dropWhile (p := isBlank) (l := m)
  have before : Blank (m.takeWhile isBlank) := List.all_eq_true.mp List.all_takeWhile
  have tight : Tight (m.dropWhile isBlank) := by
    refine ⟨fun c first => ?_, fun c ends => last c ?_⟩
    · have letter := List.head?_dropWhile_not isBlank m
      rw [first] at letter
      exact letter
    · rw [← parts, List.getLast?_append, ends]
      rfl
  rw [← parts] at whole
  have trimmed := trim_append tight before behind
  rw [← whole] at trimmed
  rw [trimmed]
  exact ⟨_, back, whole, before, behind, tight⟩

/-- Trimming loses no word. -/
theorem words_trim (s : List Char) : words (trim s) = words s := by
  obtain ⟨front, back, whole, before, behind, -⟩ := exists_trim s
  have same := words_append_blank (front ++ trim s) behind
  rw [← whole, words_blank_append before] at same
  exact same.symm

end Ends

section Spans

theorem Tight.gap_eq_nil {gap : List Char} (tight : Tight (gap ++ m)) (blank : Blank gap) : gap = [] := by
  cases gap with
  | nil => rfl
  | cons c gap =>
    have letter := tight.head c rfl
    rw [blank c List.mem_cons_self] at letter
    cases letter

/-- A line that ends in a letter ends with its last word. -/
theorem Spaced.last_suffix (spaced : Spaced s ws) (letter : ∀ c ∈ s.getLast?, isBlank c = false) :
    ∀ word ∈ ws.getLast?, word <:+ s := by
  induction spaced with
  | blank => simp
  | last gap isWord =>
    rintro _ ⟨⟩
    exact List.suffix_append _ _
  | @word gap first blank rest later _ _ ends spaced ih =>
    intro word final
    have behind : ∀ c ∈ (blank :: rest).getLast?, isBlank c = false := by
      intro c last
      refine letter c ?_
      rw [← List.append_assoc, List.getLast?_append, last]
      rfl
    cases later with
    | nil =>
      -- Only blanks are left, so that the line would end in one.
      cases spaced with
      | blank restBlank =>
        have last := behind _ List.getLast?_cons
        rw [Blank.cons ends restBlank _ (List.mem_of_getLast? List.getLast?_cons)] at last
        cases last
    | cons second later =>
      have inner : ∀ c ∈ rest.getLast?, isBlank c = false := by
        intro c last
        refine behind c ?_
        rw [List.getLast?_cons, last]
        rfl
      have suffix := ih inner word final
      rw [List.append_cons, ← List.append_assoc]
      exact suffix.trans (List.suffix_append _ _)

theorem Tight.spans (tight : Tight s) (spaced : Spaced s ws) : Spans s ws where
  spaced := spaced
  last := spaced.last_suffix tight.last
  first := by
    intro word leads
    cases spaced with
    | blank => cases leads
    | last gap isWord =>
      cases leads
      rw [tight.gap_eq_nil gap]
      exact List.prefix_rfl
    | word gap isWord ends rest =>
      cases leads
      rw [tight.gap_eq_nil gap]
      exact List.prefix_append _ _

theorem Spans.ne_nil (spans : Spans s ws) (some : ws ≠ []) : s ≠ [] := by
  rintro rfl
  exact some spans.spaced.words_eq.symm

theorem Spans.tight (spans : Spans s ws) (some : ws ≠ []) : Tight s := by
  have parts := spans.spaced.words_eq
  refine ⟨fun c leads => ?_, fun c ends => ?_⟩
  · obtain ⟨word, later, rfl⟩ := List.exists_cons_of_ne_nil some
    obtain ⟨rest, whole⟩ := spans.first word rfl
    obtain ⟨letters, free⟩ := mem_words (parts ▸ List.mem_cons_self : word ∈ words s)
    obtain ⟨d, letters, rfl⟩ := List.exists_cons_of_ne_nil letters
    rw [← whole] at leads
    cases leads
    exact free c List.mem_cons_self
  · have final := List.getLast?_eq_some_getLast some
    obtain ⟨rest, whole⟩ := spans.last _ final
    obtain ⟨letters, free⟩ := mem_words (parts ▸ List.getLast_mem some : ws.getLast some ∈ words s)
    rw [← whole, List.getLast?_append, List.getLast?_eq_some_getLast letters] at ends
    cases ends
    exact free _ (List.getLast_mem letters)

theorem Tight.append {first : List Char} (isWord : IsWord first) (tight : Tight m) (some : m ≠ []) :
    Tight (first ++ (front ++ m)) := by
  obtain ⟨c, first, rfl⟩ := List.exists_cons_of_ne_nil isWord.1
  refine ⟨fun d leads => ?_, fun d ends => tight.last d ?_⟩
  · cases leads
    exact isWord.2 c List.mem_cons_self
  · have final := List.getLast?_eq_some_getLast some
    rw [← List.append_assoc, List.getLast?_append, final] at ends
    rw [final]
    exact ends

/-- A trimmed line begins with its first word. The other words follow, with a blank before them. -/
theorem exists_trim_eq {first : List Char} (parts : words s = first :: ws) :
    ∃ rest, trim s = first ++ rest ∧ words rest = ws ∧ ∀ c ∈ rest.head?, isBlank c = true := by
  obtain ⟨-, -, -, -, -, tight⟩ := exists_trim s
  have spaced := spaced_iff.mpr ((words_trim s).trans parts)
  generalize trim s = m at tight spaced ⊢
  cases spaced with
  | last gap isWord =>
    rw [tight.gap_eq_nil gap]
    exact ⟨[], (List.append_nil _).symm, rfl, by simp⟩
  | @word gap first blank rest _ gapBlank isWord ends spaced =>
    rw [tight.gap_eq_nil gapBlank]
    exact ⟨blank :: rest, rfl, (spaced.blank_append (.cons ends .nil)).words_eq, by simpa using ends⟩

theorem words_drop {first : List Char} (parts : words s = first :: ws) :
    words ((trim s).drop first.length) = ws := by
  obtain ⟨rest, trimmed, others, -⟩ := exists_trim_eq parts
  rw [trimmed, List.drop_left]
  exact others

/-- What follows the first word of a line, trimmed, goes from the second word to the last. -/
theorem trim_drop_iff {first second text : List Char} {later : List (List Char)}
    (parts : words s = first :: second :: later) :
    trim ((trim s).drop first.length) = text ↔
      ∃ front gap back, s = front ++ (first ++ (gap ++ text)) ++ back ∧ gap ≠ [] ∧
        Blank front ∧ Blank gap ∧ Blank back ∧ Spans text (second :: later) := by
  constructor
  · rintro rfl
    obtain ⟨front, back, whole, before, behind, -⟩ := exists_trim s
    obtain ⟨rest, trimmed, others, blank⟩ := exists_trim_eq parts
    obtain ⟨gap, tail, split, between, after, tight⟩ := exists_trim rest
    have spans := tight.spans (spaced_iff.mpr ((words_trim rest).trans others))
    rw [trimmed, List.drop_left]
    rw [trimmed] at whole
    generalize trim rest = text at split tight spans ⊢
    refine ⟨front, gap, tail ++ back, ?_, ?_, before, between, after.append behind, spans⟩
    · rw [whole, split]
      simp only [List.append_assoc]
    · rintro rfl
      obtain ⟨c, text, rfl⟩ := List.exists_cons_of_ne_nil (spans.ne_nil (by simp))
      have letter := tight.head c rfl
      rw [blank c (by simp [split])] at letter
      cases letter
  · rintro ⟨front, gap, back, whole, some, before, between, behind, spans⟩
    have tight := spans.tight (by simp)
    have isWord : IsWord first := mem_words (s := s) (parts ▸ List.mem_cons_self)
    have outer : Tight (first ++ (gap ++ text)) := .append isWord tight (spans.ne_nil (by simp))
    have trimmed := trim_append outer before behind
    have rest := trim_append tight between .nil
    rw [whole, trimmed, List.drop_left, ← List.append_nil (gap ++ text)]
    exact rest

/-- Nothing is left of a text just if it has no words. -/
theorem trim_eq_nil_iff : trim s = [] ↔ words s = [] := by
  rw [← words_trim]
  constructor
  · intro none
    rw [none]
    rfl
  · intro none
    obtain ⟨-, -, -, -, -, tight⟩ := exists_trim s
    have spaced := spaced_iff.mpr none
    generalize trim s = m at tight spaced ⊢
    cases spaced with
    | blank gap => exact Tight.gap_eq_nil (m := []) (by rwa [List.append_nil]) gap

end Spans

section Numerals

/-- Whether a word writes a number: decimal digits, with any zeros before them, and before all of them
one plus sign or none. -/
def Writes (word : List Char) (n : Nat) : Prop :=
  ∃ digits, (word = digits ∨ word = '+' :: digits) ∧ digits ≠ [] ∧
    (∀ c ∈ digits, c.isDigit = true) ∧ Nat.ofDigitChars 10 digits 0 = n

variable {limit n value : Nat}

theorem isDigit_of_decimalFrom (read : decimalFrom? value s = some n) : ∀ c ∈ s, c.isDigit = true := by
  induction s generalizing value with
  | nil => simp
  | cons c s ih =>
    have first : c.isDigit = true := by
      by_cases digit : '0' ≤ c ∧ c ≤ '9'
      · simpa [Char.isDigit, Char.le_def] using digit
      · rw [decimalFrom?, digitValue?, if_neg digit] at read
        cases read
    rw [decimalFrom?, digitValue_eq first] at read
    exact List.forall_mem_cons.mpr ⟨first, ih read⟩

/-- A number is read from digits only, and at least one of them. -/
theorem decimal_eq_some_iff :
    decimal? s = some n ↔ s ≠ [] ∧ (∀ c ∈ s, c.isDigit = true) ∧ Nat.ofDigitChars 10 s 0 = n := by
  constructor
  · intro read
    by_cases none : s = []
    · subst none
      cases read
    · have digits : ∀ c ∈ s, c.isDigit = true := by
        obtain ⟨c, s, rfl⟩ := List.exists_cons_of_ne_nil none
        exact isDigit_of_decimalFrom read
      rw [decimal_eq digits none] at read
      exact ⟨none, digits, Option.some.inj read⟩
  · rintro ⟨some, digits, rfl⟩
    exact decimal_eq digits some

/-- The words that are read as a number are the ones that write it. -/
theorem unsigned_eq_some_iff : unsigned? limit s = some n ↔ Writes s n ∧ n ≤ limit := by
  unfold unsigned?
  dsimp only
  rw [Option.filter_eq_some_iff, decide_eq_true_eq, and_congr_left_iff]
  intro _
  split
  · rename_i rest
    rw [decimal_eq_some_iff]
    constructor
    · rintro ⟨some, digits, rfl⟩
      exact ⟨rest, Or.inr rfl, some, digits, rfl⟩
    · rintro ⟨_, rfl | same, some, digits, value⟩
      · exact absurd (digits '+' List.mem_cons_self) (by decide)
      · cases same
        exact ⟨some, digits, value⟩
  · rename_i unsigned
    rw [decimal_eq_some_iff]
    constructor
    · rintro ⟨some, digits, rfl⟩
      exact ⟨s, Or.inl rfl, some, digits, rfl⟩
    · rintro ⟨_, rfl | same, some, digits, value⟩
      · exact ⟨some, digits, value⟩
      · exact absurd same (unsigned _)

end Numerals

end LiveTiming.Text
