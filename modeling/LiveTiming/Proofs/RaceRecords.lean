import LiveTiming.Feed
import LiveTiming.Proofs.RecordReading

namespace LiveTiming

open LiveTiming.Frame

/-- The messages of a draft are all records. -/
def Draft.Recorded (d : Draft) : Prop :=
  ∀ cue ∈ d.cues.toList, cue.message.IsRecord

/-- A request is accepted if its component and its participants are named in a way that fits into fields, and
neither splits nor participants are too many. -/
theorem RaceRequest.rejection?_eq_none_iff {r : RaceRequest} {bounds : RaceBounds} :
    r.rejection? bounds = none ↔ fitsField r.component = true ∧ r.splits ≤ bounds.maxSplits ∧
      r.participants.length ≤ bounds.maxParticipants ∧
      ∀ participant ∈ r.participants, fitsField participant = true := by
  unfold rejection?
  cases fitsField r.component <;> simp [ite_eq_iff]

namespace Draft

variable {d : Draft} {pacing : Pacing} {component : String} {participants : List String}

theorem Recorded.push (recorded : d.Recorded) {m : Message} (isRecord : m.IsRecord) (offset cursor : ClockTime)
    (g : Generator) : Recorded ⟨cursor, d.cues.push ⟨offset, m⟩, g⟩ := by
  intro cue member
  rw [Array.toList_push] at member
  rcases List.mem_append.mp member with old | last
  · exact recorded cue old
  · rw [List.mem_singleton.mp last]
    exact isRecord

theorem passings_recorded (recorded : d.Recorded) (fits : fitsField component = true)
    (allFit : ∀ participant ∈ participants, fitsField participant = true) (number rank : Nat)
    (delta : ClockTime) : (passings pacing component number participants rank delta d).Recorded := by
  induction participants generalizing d rank delta with
  | nil => exact recorded
  | cons participant later ih =>
    have passes : (Message.split (.ranked component participant number d.cursor rank delta)).IsRecord :=
      .split fits (allFit participant (List.mem_cons_self ..))
    exact ih (recorded.push passes _ _ _) (fun other member => allFit other (List.mem_cons_of_mem _ member)) _ _

theorem splits_recorded (recorded : d.Recorded) (fits : fitsField component = true)
    (allFit : ∀ participant ∈ participants, fitsField participant = true) (numbers : List Nat) :
    (numbers.foldl (split pacing component participants) d).Recorded := by
  induction numbers generalizing d with
  | nil => exact recorded
  | cons number numbers ih =>
    have moved : Recorded ⟨d.cursor + (pacing.splitGap.draw d.generator).1, d.cues,
        (pacing.splitGap.draw d.generator).2⟩ := recorded
    exact ih (passings_recorded moved fits allFit _ _ _)

theorem start_recorded (fits : fitsField component = true) (g : Generator) :
    (start pacing component g).Recorded := by
  intro cue member
  have either : cue.message = .status component .registered ∨ cue.message = .status component .started := by
    simp only [start, List.mem_cons, List.not_mem_nil, or_false] at member
    rcases member with rfl | rfl
    · exact Or.inl rfl
    · exact Or.inr rfl
  rcases either with same | same <;> rw [same] <;> exact .status fits

theorem finish_recorded (recorded : d.Recorded) (fits : fitsField component = true) :
    ∀ cue ∈ (finish pacing component d).cues, cue.message.IsRecord := by
  intro cue member
  have finished : (finish pacing component d).cues = d.cues.toList ++
      [⟨d.cursor, .status component .finished⟩, ⟨d.cursor + pacing.resultsDelay, .status component .final⟩] := rfl
  rw [finished] at member
  rcases List.mem_append.mp member with old | last
  · exact recorded cue old
  · simp only [List.mem_cons, List.not_mem_nil, or_false] at last
    rcases last with rfl | rfl <;> exact .status fits

end Draft

/-- All that an accepted race sends are records. -/
theorem Feed.plan_records {f : Feed} {r : RaceRequest} {rundown : Rundown}
    (planned : (f.plan r).1 = .ok rundown) : ∀ cue ∈ rundown.cues, cue.message.IsRecord := by
  unfold plan at planned
  cases rejected : r.rejection? f.config.bounds with
  | some reason =>
    rw [rejected] at planned
    cases planned
  | none =>
    obtain ⟨fits, _, _, allFit⟩ := RaceRequest.rejection?_eq_none_iff.mp rejected
    rw [rejected] at planned
    have same : (r.plan f.config.pacing f.generator).1 = rundown := Except.ok.inj planned
    rw [← same]
    exact Draft.finish_recorded (Draft.splits_recorded (Draft.start_recorded fits _) fits allFit _) fits

open Decoder in
/-- The messages of an accepted race hold no control characters, have four or nine fields,
and are read back from their lines. Their frames, joined in any way, are read back as
just these lines, in one piece whatever the limit is, and in any chunks if the lines are
within the limit. Different records have different lines, whoever makes them. -/
theorem planned_records_are_readable :
    (∀ (f : Feed) (r : RaceRequest) (rundown : Rundown), (f.plan r).1 = .ok rundown →
      (∀ cue ∈ rundown.cues,
        (∀ c ∈ cue.message.render.toList, Text.isControl c = false) ∧
        ((∃ component stage, cue.message = .status component stage ∧
            (Text.fields cue.message.render).length = 4) ∨
          ∃ record, cue.message = .split record ∧ (Text.fields cue.message.render).length = 9) ∧
        Message.ofLine? cue.message.render = some cue.message) ∧
      ∀ (d : Decoder) (messages : List Message),
        (∀ m ∈ messages, ∃ cue ∈ rundown.cues, cue.message = m) →
        (∀ n, messages.length < n →
          let whole := List.replicate n .decode ++ [.feed (messages.flatMap encode)]
          (∀ error, .error error ∉ d.answers whole) ∧ d.bodies whole = messages.map textOf ∧
            d.bufferAfter whole = []) ∧
        ((∀ m ∈ messages, (textOf m).length ≤ d.limit) →
          ∀ past, arrived past = messages.flatMap encode → ∀ n, messages.length < (d.bodies past).length + n →
            let drained := List.replicate n .decode ++ past
            (∀ error, .error error ∉ d.answers drained) ∧ d.bodies drained = messages.map textOf ∧
              d.bufferAfter drained = [])) ∧
    ∀ m n : Message, m.IsRecord → n.IsRecord → m.render = n.render → m = n := by
  refine ⟨fun f r rundown planned => ⟨fun cue member => ?_, fun d messages cues => ?_⟩, ?_⟩
  · have isRecord := Feed.plan_records planned cue member
    refine ⟨isRecord.isControl_render, ?_, isRecord.ofLine_render⟩
    rw [isRecord.fields_render]
    generalize cue.message = m at isRecord ⊢
    cases isRecord with
    | status => exact Or.inl ⟨_, _, rfl, rfl⟩
    | split => exact Or.inr ⟨_, rfl, rfl⟩
  · have plain : ∀ m ∈ messages, closing ∉ textOf m := by
      intro m member
      obtain ⟨cue, listed, rfl⟩ := cues m member
      exact (Feed.plan_records planned cue listed).closing_notMem
    exact ⟨fun n enough => read_piece plain enough,
      fun short past arrives n enough => read_chunks plain short arrives enough⟩
  · intro m n left right same
    have read := left.ofLine_render
    rw [same, right.ofLine_render] at read
    exact (Option.some.inj read).symm

open Decoder in
/-- A race of one participant over one split, whose split is read back after its finish from
one piece, by a decoder with the least limit. -/
theorem split_is_readable :
    let f := Feed.start {} [] (.ofWords fun _ => 0)
    let finish : Cue := ⟨.ofUnits 9, .status "M" .finished⟩
    let passing : Cue := ⟨.ofUnits 8, .split (.ranked "M" "x" 1 (.ofUnits 8) 1 .zero)⟩
    let rundown : Rundown := ⟨"M", [⟨.zero, .status "M" .registered⟩, ⟨.ofUnits 3, .status "M" .started⟩,
      passing, finish, ⟨.ofUnits 14, .status "M" .final⟩]⟩
    let whole : List Operation :=
      List.replicate 3 .decode ++ [.feed ([finish.message, passing.message].flatMap encode)]
    (f.plan ⟨"M", 1, ["x"]⟩).1 = .ok rundown ∧
      ({ limit := 1 } : Decoder).bodies whole = [textOf finish.message, textOf passing.message] ∧
      Message.ofLine? "LOG0|M|M|x|y|1|08.00|1|" = some passing.message := by
  intro f finish passing rundown whole
  have planned : (f.plan ⟨"M", 1, ["x"]⟩).1 = .ok rundown := by decide +kernel
  obtain ⟨readable, framed⟩ := planned_records_are_readable.1 f ⟨"M", 1, ["x"]⟩ rundown planned
  have cues : ∀ m ∈ [finish.message, passing.message], ∃ cue ∈ rundown.cues, cue.message = m := by
    intro m member
    simp only [List.mem_cons, List.not_mem_nil, or_false] at member
    rcases member with rfl | rfl
    · exact ⟨finish, by simp [rundown], rfl⟩
    · exact ⟨passing, by simp [rundown], rfl⟩
  obtain ⟨_, read, _⟩ := (framed { limit := 1 } _ cues).1 3 (by decide)
  have line : passing.message.render = "LOG0|M|M|x|y|1|08.00|1|" := by decide +kernel
  have back := (readable passing (by simp [rundown])).2.2
  rw [line] at back
  exact ⟨planned, read, back⟩

end LiveTiming
