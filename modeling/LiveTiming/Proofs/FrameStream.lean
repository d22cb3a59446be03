import LiveTiming.Proofs.FrameScan

namespace LiveTiming

open LiveTiming.Frame

namespace Frame

/-- The bytes of a message's text. -/
def textOf (m : Message) : Bytes :=
  Utf8.encode m.render

/-- Noise and a frame are written to the end of a buffer. -/
def writeAfter (buffer : Bytes) (frame : Bytes × Message) : Bytes :=
  append (buffer ++ frame.1) frame.2

/-- A stream of frames, with noise before each of them and at the end. -/
def written (frames : List (Bytes × Message)) (last : Bytes) : Bytes :=
  frames.foldl writeAfter [] ++ last

variable {frames : List (Bytes × Message)} {last : Bytes}

theorem append_eq (buffer : Bytes) (m : Message) : append buffer m = buffer ++ encode m := by
  simp [append, encode, wrap]

theorem foldl_writeAfter (buffer : Bytes) (frames : List (Bytes × Message)) :
    frames.foldl writeAfter buffer = buffer ++ frames.flatMap fun frame => frame.1 ++ encode frame.2 := by
  induction frames generalizing buffer with
  | nil => simp
  | cons frame frames ih =>
    have first : writeAfter buffer frame = buffer ++ (frame.1 ++ encode frame.2) := by
      rw [writeAfter, append_eq, List.append_assoc]
    rw [List.foldl_cons, first, ih, List.flatMap_cons, List.append_assoc]

/-- It makes no difference whether frames are written to the buffer or joined to it. -/
theorem written_eq (frames : List (Bytes × Message)) (last : Bytes) :
    written frames last = frames.flatMap (fun frame => frame.1 ++ encode frame.2) ++ last := by
  rw [written, foldl_writeAfter, List.nil_append]

theorem written_cons (frame : Bytes × Message) (frames : List (Bytes × Message)) (last : Bytes) :
    written (frame :: frames) last =
      frame.1 ++ opening :: (textOf frame.2 ++ closing :: written frames last) := by
  rw [written_eq, written_eq]
  simp [encode, wrap, textOf]

theorem written_joined (messages : List Message) :
    written (messages.map fun m => ([], m)) [] = messages.flatMap encode := by
  rw [written_eq, List.append_nil, List.flatMap_map]
  rfl

theorem scan_written (quiet : ∀ frame ∈ frames, opening ∉ frame.1) (quietEnd : opening ∉ last)
    (plain : ∀ frame ∈ frames, closing ∉ textOf frame.2) :
    scan (written frames last) = ⟨frames.map fun frame => textOf frame.2, none⟩ := by
  induction frames with
  | nil => exact Scan.scan_noise quietEnd
  | cons frame frames ih =>
    have rest := ih (fun other member => quiet other (List.mem_cons_of_mem _ member))
      fun other member => plain other (List.mem_cons_of_mem _ member)
    have free := quiet frame (List.mem_cons_self ..)
    have unclosed := plain frame (List.mem_cons_self ..)
    rw [written_cons, Scan.scan_closed free unclosed, rest]
    rfl

theorem scan_joined {messages : List Message} (plain : ∀ m ∈ messages, closing ∉ textOf m) :
    scan (messages.flatMap encode) = ⟨messages.map textOf, none⟩ := by
  have quiet : ∀ frame ∈ messages.map fun m => (([] : Bytes), m), opening ∉ frame.1 := by simp
  have plainFrames : ∀ frame ∈ messages.map fun m => (([] : Bytes), m), closing ∉ textOf frame.2 := by
    simpa using plain
  have scanned := scan_written quiet List.not_mem_nil plainFrames
  rw [written_joined, List.map_map] at scanned
  exact scanned

end Frame

namespace Decoder

variable {d : Decoder} {frames : List (Bytes × Message)} {last : Bytes} {past : List Operation}

/-- No body that is read holds a closing byte. -/
theorem closing_notMem_bodies {body : Bytes} (read : body ∈ d.bodies past) : closing ∉ body := by
  have given : .ok (some body) ∈ d.answers past := by
    obtain ⟨answer, member, same⟩ := List.mem_filterMap.mp (List.mem_reverse.mp read)
    cases answer with
    | error => cases same
    | ok found =>
      have found_eq : found = some body := same
      rw [← found_eq]
      exact member
  obtain ⟨_, earlier, _, answered⟩ := mem_answers.mp given
  obtain ⟨_, _, _, unclosed, _⟩ := decode_body_iff.mp answered
  exact unclosed

/-- The frame of a message alone is read as its text, unless the text closes it before. -/
theorem decode_encode_iff {m : Message} :
    d.decode (encode m) = (.ok (some (textOf m)), []) ↔ closing ∉ textOf m := by
  constructor
  · intro read
    obtain ⟨_, _, _, unclosed, _⟩ := decode_body_iff.mp (congrArg Prod.fst read)
    exact unclosed
  · intro unclosed
    have whole : encode m = [] ++ opening :: (textOf m ++ closing :: []) := by simp [encode, wrap, textOf]
    rw [whole, decode_closed d List.not_mem_nil unclosed]

/-- No call fails on a stream in which all frames are closed and within the limit. -/
theorem InStep.of_closed {stream : Bytes} {texts : List Bytes} (scanned : scan stream = ⟨texts, none⟩)
    (short : ∀ text ∈ texts, text.length ≤ d.limit) (arrives : arrived past = stream) : InStep d past := by
  have within : ∀ body ∈ (scan stream).contents, body.length ≤ d.limit := by
    rw [scanned]
    intro body member
    exact short body ((List.mem_append.mp member).resolve_right (by simp))
  exact .of_short within (arrives ▸ List.prefix_refl _)

/-- All frames of a stream are read, once it has arrived without a call that failed. -/
theorem InStep.read_closed (inStep : InStep d past) {texts : List Bytes}
    (scanned : scan (arrived past) = ⟨texts, none⟩) {n : Nat} (enough : texts.length < (d.bodies past).length + n) :
    let drained := List.replicate n .decode ++ past
    d.Drained drained ∧ (∀ error, .error error ∉ d.answers drained) ∧ d.bodies drained = texts ∧
      d.bufferAfter drained = [] := by
  intro drained
  have short : ∀ inside ∈ (scan (arrived past)).inside, inside.length ≤ d.limit := by
    rw [scanned]
    simp
  have ended : d.Drained drained := inStep.drains short (by rw [scanned]; exact enough)
  have after : InStep d drained := (inStep.drain short n).1
  obtain ⟨read, left⟩ := after.drained ended
  have same : arrived drained = arrived past := arrived_drain n past
  rw [same, scanned] at read left
  exact ⟨ended, after.accepted, read, left⟩

/-- The frames of messages that arrive in one piece are all read, however long they are. -/
theorem read_piece {messages : List Message} (plain : ∀ m ∈ messages, closing ∉ textOf m) {n : Nat}
    (enough : messages.length < n) :
    let whole := List.replicate n .decode ++ [.feed (messages.flatMap encode)]
    (∀ error, .error error ∉ d.answers whole) ∧ d.bodies whole = messages.map textOf ∧
      d.bufferAfter whole = [] := by
  have piece : InStep d [.feed (messages.flatMap encode)] := (InStep.start d).feed _
  have many : (messages.map textOf).length < (d.bodies [.feed (messages.flatMap encode)]).length + n := by
    rw [List.length_map]
    exact enough.trans_le (Nat.le_add_left _ _)
  exact (piece.read_closed (scan_joined plain) many).2

/-- The frames of messages are all read from any chunks, if their texts are within the limit. -/
theorem read_chunks {messages : List Message} (plain : ∀ m ∈ messages, closing ∉ textOf m)
    (short : ∀ m ∈ messages, (textOf m).length ≤ d.limit) (arrives : arrived past = messages.flatMap encode)
    {n : Nat} (enough : messages.length < (d.bodies past).length + n) :
    let drained := List.replicate n .decode ++ past
    (∀ error, .error error ∉ d.answers drained) ∧ d.bodies drained = messages.map textOf ∧
      d.bufferAfter drained = [] := by
  have scanned := scan_joined plain
  have within : ∀ text ∈ messages.map textOf, text.length ≤ d.limit := by
    intro text member
    obtain ⟨m, listed, rfl⟩ := List.mem_map.mp member
    exact short m listed
  have inStep : InStep d past := .of_closed scanned within arrives
  have many : (messages.map textOf).length < (d.bodies past).length + n := by
    rw [List.length_map]
    exact enough
  rw [← arrives] at scanned
  exact (inStep.read_closed scanned many).2

/-- A stream of frames is read back without a failure, whatever noise is between them and
however it is cut into chunks, exactly when no text in it holds a closing byte. Opening
bytes in a text do no harm. Noise must not hold any, and texts must be within the limit. -/
theorem texts_are_read_back_iff (quiet : ∀ frame ∈ frames, opening ∉ frame.1) (quietEnd : opening ∉ last)
    (short : ∀ frame ∈ frames, (textOf frame.2).length ≤ d.limit) :
    (∀ buffer m, append buffer m = buffer ++ encode m) ∧
    ((∀ frame ∈ frames, closing ∉ textOf frame.2) ↔
      ∀ past, arrived past = written frames last →
        (∀ error, .error error ∉ d.answers past) ∧
        d.bodies past <+: frames.map (fun frame => textOf frame.2) ∧
        ∀ n, frames.length < (d.bodies past).length + n →
          let drained := List.replicate n .decode ++ past
          d.Drained drained ∧ (∀ error, .error error ∉ d.answers drained) ∧
            d.bodies drained = frames.map (fun frame => textOf frame.2) ∧ d.bufferAfter drained = []) := by
  refine ⟨append_eq, fun plain past arrives => ?_, fun readBack frame member => ?_⟩
  · have scanned := scan_written quiet quietEnd plain
    have within : ∀ text ∈ frames.map fun frame => textOf frame.2, text.length ≤ d.limit := by
      intro text member
      obtain ⟨frame, listed, rfl⟩ := List.mem_map.mp member
      exact short frame listed
    have inStep : InStep d past := .of_closed scanned within arrives
    rw [← arrives] at scanned
    have first := inStep.read_first
    rw [scanned] at first
    refine ⟨inStep.accepted, first, fun n enough => inStep.read_closed scanned ?_⟩
    rw [List.length_map]
    exact enough
  · have piece : arrived [.feed (written frames last)] = written frames last := rfl
    obtain ⟨_, _, drains⟩ := readBack _ piece
    obtain ⟨_, _, read, _⟩ := drains (frames.length + 1) (Nat.lt_add_left _ (Nat.lt_succ_self _))
    have text : textOf frame.2 ∈ frames.map fun frame => textOf frame.2 := List.mem_map_of_mem member
    rw [← read] at text
    exact closing_notMem_bodies text

/-- A text with an opening byte in it and an empty one are read back from three chunks, with
closing bytes as noise around them. -/
theorem opening_byte_is_read_back :
    let d : Decoder := { limit := 3 }
    let frames : List (Bytes × Message) := [([3, 10], .raw "a\x02b"), ([3], .raw "")]
    let past : List Operation :=
      [.feed [2, 3, 3], .decode, .feed [98, 3, 3], .decode, .decode, .feed [3, 10, 2, 97, 2]]
    let drained := List.replicate 3 .decode ++ past
    arrived past = written frames [3] ∧ d.bodies drained = [[97, 2, 98], []] ∧ d.bufferAfter drained = [] := by
  intro d frames past drained
  have quiet : ∀ frame ∈ frames, opening ∉ frame.1 := by decide
  have quietEnd : opening ∉ ([3] : Bytes) := by decide
  have short : ∀ frame ∈ frames, (textOf frame.2).length ≤ d.limit := by decide
  have plain : ∀ frame ∈ frames, closing ∉ textOf frame.2 := by decide
  have arrives : arrived past = written frames [3] := by decide
  obtain ⟨_, _, drains⟩ := (texts_are_read_back_iff quiet quietEnd short).2.mp plain past arrives
  obtain ⟨_, _, read, left⟩ := drains 3 (by decide)
  exact ⟨arrives, read, left⟩

end Decoder

end LiveTiming
