import LiveTiming.Command
import LiveTiming.Text.Numeral

namespace LiveTiming.Command

/-- The first of the words that are left, which is the named argument, and those
after it. -/
def takeWord (keyword : Keyword) (argument : Argument) :
    List String → Except LineError (String × List String)
  | [] => .error (.missing keyword argument)
  | word :: later => .ok (word, later)

/-- The first of the words that are left as a number up to `limit`, and those after
it. -/
def takeNumber (keyword : Keyword) (argument : Argument) (limit : Nat) (words : List String) :
    Except LineError (Nat × List String) := do
  let (word, later) ← takeWord keyword argument words
  match Text.unsigned? limit word.toList with
  | some n => pure (n, later)
  | none => throw (.invalid keyword argument word)

/-- Refuses words that are left over. -/
def takeEnd (keyword : Keyword) : List String → Except LineError Unit
  | [] => .ok ()
  | word :: _ => .error (.unexpected keyword word)

/-- Reads the command that begins with a keyword, from the words after it and from
the text after it. -/
def ofKeyword (keyword : Keyword) (words : List String) (text : String) :
    Except LineError Command :=
  match keyword with
  | .raw => if text.toList.isEmpty then throw (.missing .raw .text) else pure (.raw text)
  | .stt => do
    let (component, words) ← takeWord .stt .component words
    let (code, words) ← takeNumber .stt .state (UInt8.size - 1) words
    takeEnd .stt words
    pure (.announce component ⟨UInt8.ofNat code⟩)
  | .logr => do
    let (component, words) ← takeWord .logr .component words
    let (participant, words) ← takeWord .logr .participant words
    let (split, words) ← takeNumber .logr .split (UInt32.size - 1) words
    takeEnd .logr words
    pure (.randomSplit component participant split)
  | .sim => do
    let (component, words) ← takeWord .sim .component words
    let (splits, words) ← takeNumber .sim .splits (UInt32.size - 1) words
    pure (.race ⟨component, splits, words⟩)
  | .abort => do
    let (component, words) ← takeWord .abort .component words
    takeEnd .abort words
    pure (.abort component)
  | .status => do
    takeEnd .status words
    pure .report
  | .help => pure .help
  | .quit => pure .quit

/-- The keyword that a word is. There are two words to quit with. -/
def keyword? (word : String) : Option Keyword :=
  match word with
  | "raw" => some .raw
  | "stt" => some .stt
  | "logr" => some .logr
  | "sim" => some .sim
  | "abort" => some .abort
  | "status" => some .status
  | "help" => some .help
  | "quit" => some .quit
  | "exit" => some .quit
  | _ => none

/-- Reads one line. A blank line holds no command. -/
def parse (line : String) : Except LineError (Option Command) :=
  let line := Text.trim line.toList
  match Text.words line with
  | [] => pure none
  | first :: later =>
    match keyword? (String.ofList first) with
    | none => throw (.unknown (String.ofList first))
    | some keyword =>
      let text := String.ofList (Text.trim (line.drop first.length))
      some <$> ofKeyword keyword (later.map String.ofList) text

/-- Reads a line that must hold a command. -/
def ofLine (line : String) : Except LineError Command := do
  match ← parse line with
  | some command => pure command
  | none => throw (.unknown "")

end LiveTiming.Command
