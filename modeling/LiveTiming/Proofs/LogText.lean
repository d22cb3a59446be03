import LiveTiming.Proofs.FrameStream
import LiveTiming.Proofs.Text
import LiveTiming.Proofs.Utf8Parts

namespace LiveTiming.Frame

open LiveTiming.Decoder

variable {m : Message} {d : Decoder} {bytes body : Bytes} {past : List Operation}

theorem strip_wrap (body : Bytes) : strip (wrap body) = body := by
  unfold wrap strip
  simp

/-- Bytes that are no frame lose nothing. -/
theorem strip_bare (bare : ∀ body, bytes ≠ wrap body) : strip bytes = bytes := by
  unfold strip
  split
  · rfl
  · rename_i first rest
    refine if_neg fun ⟨opens, closes⟩ => bare rest.dropLast ?_
    obtain ⟨_, whole⟩ := List.getLast?_eq_some_iff.mp closes
    rw [opens, whole, List.dropLast_concat, wrap, List.cons_append]

theorem logText_encode (m : Message) : logText (encode m) = m.render := by
  rw [logText, encode, strip_wrap, Utf8.decodeLossy_encode]

theorem closing_mem_textOf : closing ∈ textOf m ↔ '\x03' ∈ m.render.toList :=
  Utf8.mem_encode_ascii (by decide)

/-- The frame of a message that arrives in any chunks is read as one body, the bytes of its text. -/
theorem bodies_encode (unclosed : closing ∉ textOf m) (short : (textOf m).length ≤ d.limit)
    (arrives : arrived past = encode m) {n : Nat} (enough : 2 ≤ n) :
    d.bodies (List.replicate n .decode ++ past) = [textOf m] := by
  have alone : arrived past = [m].flatMap encode := by
    rw [arrives, List.flatMap_singleton]
  have many : [m].length < (d.bodies past).length + n := by
    rw [List.length_singleton]
    omega
  exact (read_chunks (by simpa using unclosed) (by simpa using short) alone many).2.1

/-- A log shows the text of a message, whatever control bytes are in it. A decoder reads the same from its frame
and leaves nothing of it, exactly if no closing byte is in the text; then the chunks in which the frame arrives
make no difference either, as long as the text is within the limit. Of bytes that do not both begin with an
opening byte and end with a closing byte of their own a log shows all, and of others what is between the two:
their characters, and a replacement character for each broken part. -/
theorem log_agrees_with_decoder (m : Message) (d : Decoder) :
    logText (encode m) = m.render ∧
    ((∃ body, d.decode (encode m) = (.ok (some body), []) ∧ Utf8.decode? body = some (logText (encode m))) ↔
      '\x03' ∉ m.render.toList) ∧
    ('\x03' ∉ m.render.toList → (Utf8.encode m.render).length ≤ d.limit →
      ∀ past, arrived past = encode m → ∀ n, 2 ≤ n →
        ∃ body, d.bodies (List.replicate n .decode ++ past) = [body] ∧
          Utf8.decode? body = some (logText (encode m))) ∧
    (∀ bytes, (∀ body, bytes ≠ opening :: (body ++ [closing])) → logText bytes = Utf8.decodeLossy bytes) ∧
    (∀ body, logText (opening :: (body ++ [closing])) = Utf8.decodeLossy body) ∧
    ∀ bytes, ∃ parts, (∀ others, Utf8.Parts bytes others ↔ others = parts) ∧
      Utf8.decodeLossy bytes = String.ofList (parts.map (·.getD '\uFFFD')) := by
  have shown := logText_encode m
  refine ⟨shown, ?_, fun free short past arrives n enough => ?_, fun bytes bare => ?_, fun body => ?_,
    Utf8.decodeLossy_parts⟩
  · rw [shown, ← closing_mem_textOf]
    constructor
    · rintro ⟨body, read, text⟩
      obtain ⟨_, _, _, unclosed, _⟩ := decode_body_iff.mp (congrArg Prod.fst read)
      have whole : body = textOf m := Utf8.decode?_eq_some_iff.mp text
      exact whole ▸ unclosed
    · exact fun unclosed => ⟨_, decode_encode_iff.mpr unclosed, Utf8.decode_encode _⟩
  · rw [shown]
    exact ⟨_, bodies_encode (mt closing_mem_textOf.mp free) short arrives enough, Utf8.decode_encode _⟩
  · rw [logText, strip_bare bare]
  · exact congrArg Utf8.decodeLossy (strip_wrap body)

/-- A text between opening bytes is shown and read, from two chunks of which the first ends inside a character. Of
a text with closing bytes around it the log shows all, but the first of them ends the frame. An opening byte alone
is no frame, and a character that stops short is one broken part. -/
theorem control_bytes_are_shown :
    let d : Decoder := { limit := 4 }
    let m : Message := .raw "\x02é\x02"
    let past : List Operation := [.feed [0xA9, 2, 3], .decode, .feed [2, 2, 0xC3]]
    logText (encode m) = "\x02é\x02" ∧ arrived past = encode m ∧
      (∃ body, d.bodies (.decode :: .decode :: past) = [body] ∧ Utf8.decode? body = some "\x02é\x02") ∧
      logText (encode (.raw "\x03a\x03")) = "\x03a\x03" ∧
      (¬ ∃ body, d.decode (encode (.raw "\x03a\x03")) = (.ok (some body), []) ∧
        Utf8.decode? body = some "\x03a\x03") ∧
      logText [2] = "\x02" ∧ logText [2, 0xE2, 0x82, 0x28] = "\x02\uFFFD(" := by
  intro d m past
  obtain ⟨shown, _, chunks, bare, _⟩ := log_agrees_with_decoder m d
  have free : '\x03' ∉ m.render.toList := by decide
  have arrives : arrived past = encode m := by decide
  obtain ⟨body, read, text⟩ := chunks free (by decide) past arrives 2 le_rfl
  obtain ⟨closed, agrees, _⟩ := log_agrees_with_decoder (.raw "\x03a\x03") d
  rw [shown] at text
  rw [closed] at agrees
  refine ⟨shown, arrives, ⟨body, read, text⟩, closed, fun both => agrees.mp both (by decide), ?_, ?_⟩
  · refine (bare [2] fun body whole => ?_).trans (by decide)
    simp at whole
  · refine (bare [2, 0xE2, 0x82, 0x28] fun body whole => ?_).trans (by decide)
    have last := congrArg List.getLast? whole
    rw [← List.cons_append, List.getLast?_concat] at last
    exact absurd last (by decide)

end LiveTiming.Frame
