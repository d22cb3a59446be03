import LiveTiming.Proofs.Grammar
import LiveTiming.Proofs.RaceOrder
import LiveTiming.Proofs.RaceRecords

namespace LiveTiming

open LiveTiming.Frame

theorem SplitRecord.random_eq (component participant : String) (split : Nat) (g : Generator) :
    ∃ elapsed rank delta after,
      random component participant split g = (.ranked component participant split elapsed rank delta, after) := by
  unfold random
  -- What the draws come to does not matter, and the kernel would run the generator.
  generalize Generator.uniform = draw
  exact ⟨_, _, _, _, rfl⟩

theorem Rundown.cue_of_mem_events {r : Rundown} {unit : Duration} {base : Nat} {first : EventId} {e : Event}
    (member : e ∈ r.events unit base first) : ∃ cue ∈ r.cues, cue.message = e.message := by
  obtain ⟨⟨cue, id⟩, listed, rfl⟩ := List.mem_map.mp member
  exact ⟨cue, List.fst_mem_of_mem_zipIdx listed, rfl⟩

namespace Feed

/-- The messages that a command has sent: the one that it sends at once, and those of the
events of the race that it starts, whenever they fire. -/
inductive Causes (f : Feed) (c : Command) : Message → Prop
  | atOnce {m} : (f.react c).1 = .send m → Causes f c m
  | later {race later g e now} :
      (f.perform c).1 = .ok (.scheduled race) → Run (f.perform c).2 later g →
        .apart (.fired e now) ∈ later → e.id ∈ race.events → Causes f c e.message

variable {f g : Feed} {c : Command} {m : Message} {past later : List Happening}

theorem react_randomSplit (f : Feed) (component participant : String) (split : Nat) :
    ∃ elapsed rank delta generator, f.react (.randomSplit component participant split) =
      (.send (.split (.ranked component participant split elapsed rank delta)), { f with generator }) := by
  obtain ⟨elapsed, rank, delta, generator, drawn⟩ :=
    SplitRecord.random_eq component participant split f.generator
  refine ⟨elapsed, rank, delta, generator, ?_⟩
  rw [react, drawn]

theorem typed_of_send (sends : (f.react c).1 = .send m) : m.names = c.typed := by
  cases c with
  | raw | announce =>
    cases sends
    rfl
  | randomSplit component participant split =>
    obtain ⟨_, _, _, _, reacts⟩ := f.react_randomSplit component participant split
    rw [reacts] at sends
    cases sends
    rfl
  | race r =>
    rw [react] at sends
    rcases launched : f.launch r with ⟨reason | race, g⟩ <;> rw [launched] at sends <;> cases sends
  | abort | report | help | quit => cases sends

theorem send_of_typed (some : c.typed ≠ []) : ∃ m, (f.react c).1 = .send m ∧ ∀ text, m ≠ .raw text := by
  cases c with
  | announce => exact ⟨_, rfl, nofun⟩
  | randomSplit component participant split =>
    obtain ⟨_, _, _, _, reacts⟩ := f.react_randomSplit component participant split
    exact ⟨_, congrArg Prod.fst reacts, nofun⟩
  | raw | race | abort | report | help | quit => exact absurd rfl some

theorem perform_of_send (sends : (f.react c).1 = .send m) :
    ∃ tally, (f.perform c).1 = .ok (.broadcast m.kind tally) := by
  unfold perform
  rcases reacts : f.react c with ⟨result | other, g⟩
  · rw [reacts] at sends
    cases sends
  · rw [reacts] at sends
    cases sends
    exact ⟨_, rfl⟩

theorem race_of_scheduled {race : BookedRace} (accepted : (f.perform c).1 = .ok (.scheduled race)) :
    ∃ r, c = .race r := by
  rcases perform_other f c with ⟨r, _, same, _⟩ | ⟨component, rfl⟩ | ⟨_, _, unscheduled⟩
  · exact ⟨r, same⟩
  · rw [perform_abort] at accepted
    cases accepted
  · exact absurd accepted (unscheduled race)

theorem Underway.planned_of_pending {planned : List Event} (underway : Underway planned later f) {e : Event}
    (pending : e ∈ f.hub.timeline.pending) (own : e.id ∈ planned.map Event.id) : e ∈ planned := by
  obtain ⟨done, rest, split, _, waiting | none⟩ := underway
  · rw [split]
    exact List.mem_append_right _ ((waiting e).mp ⟨pending, own⟩)
  · exact absurd own (none e pending)

/-- What the events of a race send are records. -/
theorem Tracked.race_records (tracked : Tracked past f) {r : RaceRequest} {race : BookedRace}
    (accepted : (f.perform (.race r)).1 = .ok (.scheduled race)) (run : Run (f.perform (.race r)).2 later g)
    {e : Event} {now : Nat} (fired : .apart (.fired e now) ∈ later) (own : e.id ∈ race.events) :
    e.message.IsRecord := by
  have raced := tracked.race accepted
  have issued := raced.issued r.component e.id (mem_simulated_race.mpr (Or.inl ⟨rfl, own⟩))
  have pending := run.fired_pending raced.sound fired issued
  obtain ⟨rundown, planned, numbers, underway⟩ := race_underway tracked.sound accepted
  rw [numbers] at own
  obtain ⟨cue, listed, same⟩ := Rundown.cue_of_mem_events (underway.planned_of_pending pending own)
  exact same ▸ plan_records planned cue listed

/-- The names in a record that a command has sent were typed in it, or they are those of a
race and fit. -/
theorem Causes.names (tracked : Tracked past f) (caused : f.Causes c m) :
    m.names = c.typed ∨ c.typed = [] ∧ m.IsRecord := by
  cases caused with
  | atOnce sends => exact Or.inl (typed_of_send sends)
  | later accepted run fired own =>
    obtain ⟨r, rfl⟩ := race_of_scheduled accepted
    exact Or.inr ⟨rfl, tracked.race_records accepted run fired own⟩

/-- A character that does not fit into fields stands in the names of a record that a command
has sent exactly if it was typed in one. -/
theorem Causes.absent_iff (tracked : Tracked past f) (caused : f.Causes c m) {ch : Char}
    (unfit : Text.isPlain ch = false) :
    (∀ name ∈ m.names, ch ∉ name.toList) ↔ ∀ name ∈ c.typed, ch ∉ name.toList := by
  rcases caused.names tracked with same | ⟨none, isRecord⟩
  · rw [same]
  · have absent : ∀ name ∈ m.names, ch ∉ name.toList := by
      intro name member inside
      have plain := (fitsField_iff.mp (isRecord.names_fit name member)).2 ch inside
      exact absurd plain (by simp [unfit])
    rw [none]
    exact iff_of_true absent fun _ member => absurd member List.not_mem_nil

/-- The records that a line has sent have names that fit into fields exactly if no name that
was typed in it for a record holds a bar or a control character. A line with such names is
not refused. Its record has as many fields as its kind has exactly if no bar was typed in a
name, and its frame is read as its text exactly if no character that closes frames was.
Races always send records that fit. -/
theorem caused_records_fit_iff {config : Config} {subscribers : List Subscriber} {generator : Generator}
    {line : String} (run : Run (start config subscribers generator) past f)
    (parsed : Command.parse line = .ok (some c)) :
    ((∀ m, f.Causes c m → (∀ text, m ≠ .raw text) → ∀ name ∈ m.names, fitsField name = true) ↔
      ∀ name ∈ c.typed, ∀ ch ∈ name.toList, ch ≠ '|' ∧ Text.isControl ch = false) ∧
    (c.typed ≠ [] → ∃ kind tally, (f.perform c).1 = .ok (.broadcast kind tally)) ∧
    ∀ m, f.Causes c m → (∀ text, m ≠ .raw text) →
      ((Text.fields m.render).length = m.width ↔ ∀ name ∈ c.typed, '|' ∉ name.toList) ∧
      ∀ d : Decoder, d.decode (encode m) = (.ok (some (textOf m)), []) ↔
        ∀ name ∈ c.typed, '\x03' ∉ name.toList := by
  have tracked : Tracked past f := by
    simpa using (Tracked.start config subscribers generator).run run
  refine ⟨⟨fun fit name member ch inside => ?_, fun plain m caused _ name member => ?_⟩, fun some => ?_,
    fun m caused tagged => ⟨?_, fun d => ?_⟩⟩
  · obtain ⟨m, sends, tagged⟩ := @send_of_typed f c (List.ne_nil_of_mem member)
    rw [← typed_of_send sends] at member
    have fits := (fitsField_iff.mp (fit m (.atOnce sends) tagged name member)).2 ch inside
    obtain ⟨bar, _, control⟩ := Text.isPlain_iff.mp fits
    exact ⟨bar, control⟩
  · rcases caused.names tracked with same | ⟨_, isRecord⟩
    · rw [same] at member
      obtain ⟨some, unblank⟩ := Command.typed_of_parse parsed name member
      refine fitsField_iff.mpr ⟨some, fun ch inside => Text.isPlain_iff.mpr ?_⟩
      obtain ⟨bar, control⟩ := plain name member ch inside
      exact ⟨bar, unblank ch inside, control⟩
    · exact isRecord.names_fit name member
  · obtain ⟨m, sends, _⟩ := @send_of_typed f c some
    exact ⟨m.kind, perform_of_send sends⟩
  · exact (Message.length_fields_eq_iff tagged).trans (caused.absent_iff tracked (by decide))
  · rw [← caused.absent_iff tracked (by decide), Decoder.decode_encode_iff,
      Message.closing_mem_textOf_iff tagged]
    simp

/-- A plain name and a plain participant are sent in a record that has nine fields. -/
theorem typed_names_fit :
    let f := start {} [] (.ofWords fun _ => 0)
    let c : Command := .randomSplit "K1" "boat" 2
    Command.parse "logr K1 boat +2" = .ok (some c) ∧
      (∃ m, f.Causes c m ∧ ∀ text, m ≠ .raw text) ∧
      ∀ m, f.Causes c m → (∀ text, m ≠ .raw text) →
        (∀ name ∈ m.names, fitsField name = true) ∧ (Text.fields m.render).length = m.width := by
  intro f c
  have run : Run f [] f := .start
  have parsed : Command.parse "logr K1 boat +2" = .ok (some c) := by decide +kernel
  obtain ⟨fit, _, each⟩ := caused_records_fit_iff run parsed
  obtain ⟨m, sends, tagged⟩ := @send_of_typed f c (by simp [c, Command.typed])
  have fits : ∀ name ∈ c.typed, Text.Plain name := by decide
  have plain : ∀ name ∈ c.typed, ∀ ch ∈ name.toList, ch ≠ '|' ∧ Text.isControl ch = false := by
    intro name member ch inside
    obtain ⟨bar, _, control⟩ := Text.isPlain_iff.mp (fits name member ch inside)
    exact ⟨bar, control⟩
  have free : ∀ name ∈ c.typed, '|' ∉ name.toList := by decide
  refine ⟨parsed, ⟨m, .atOnce sends, tagged⟩, fun m caused tagged => ?_⟩
  exact ⟨fit.mpr plain m caused tagged, (each m caused tagged).1.mpr free⟩

/-- A bar in the name of a component is sent as it was typed, so the line falls into six
fields. -/
theorem typed_bar_is_sent : ¬ ∀ (config : Config) (subscribers : List Subscriber) (generator : Generator)
    (past : List Happening) (f : Feed) (line : String) (c : Command) (outcome : Outcome) (m : Message),
    Run (start config subscribers generator) past f → Command.parse line = .ok (some c) →
      c.keyword = .stt ∨ c.keyword = .logr ∨ c.keyword = .sim → (f.perform c).1 = .ok outcome →
        f.Causes c m → (∀ text, m ≠ .raw text) →
        (∀ name ∈ m.names, fitsField name = true) ∧ (Text.fields m.render).length = m.width ∧
          ∀ d : Decoder, d.decode (encode m) = (.ok (some (textOf m)), []) := by
  intro fits
  have parsed : Command.parse "stt A|B 1" = .ok (some (.announce "A|B" .started)) := by decide +kernel
  have whole := (fits {} [] (.ofWords fun _ => 0) [] _ "stt A|B 1" (.announce "A|B" .started) _
    (.status "A|B" .started) .start parsed (.inl rfl) rfl (.atOnce rfl) nofun).2.1
  exact absurd whole (by decide)

end Feed

end LiveTiming
