import LiveTiming.Command.Grammar
import LiveTiming.Console.Lines
import LiveTiming.Outcome

namespace LiveTiming.Console

/-- What was written to an operator, and how many more writes succeed if they are
limited. -/
structure Output where
  text : String := ""
  allowance : Option Nat := none

/-- Writes a text, unless writing fails. An empty text is no write. -/
def Output.write (o : Output) (s : String) : Option Output :=
  if s.isEmpty then some o
  else
    match o.allowance with
    | some 0 => none
    | some (k + 1) => some ⟨o.text ++ s, some k⟩
    | none => some ⟨o.text ++ s, none⟩

/-- The reply to a command or to a line that holds none, and the end of a session. -/
structure Reply where
  text : String
  ends : Bool

/-- The reply to the outcome of a command. -/
def Reply.ofResult : Except Failure Outcome → Reply
  | .ok .quit => ⟨Outcome.quit.text ++ "\n", true⟩
  | .ok outcome => ⟨outcome.text ++ "\n", false⟩
  | .error e => ⟨"error: " ++ e.message ++ "\n", false⟩

/-- The reply to a line, which is empty for a blank one. A command is performed. -/
def replyTo {m : Type → Type} [Monad m] (perform : Command → m (Except Failure Outcome))
    (line : String) : m Reply :=
  match Command.parse line with
  | .ok none => pure ⟨"", false⟩
  | .ok (some command) => Reply.ofResult <$> perform command
  | .error e => pure (.ofResult (.error (.command e)))

/-- What is written for a line that is too long. -/
def tooLongText : String :=
  s!"error: line longer than {lineLimit} bytes\n"

/-- Answers the inputs in turn. Each line is echoed before its command is performed, and
a prompt follows the reply, unless the session ends. The session also ends when
something cannot be written or read. -/
def converse {m : Type → Type} [Monad m] (perform : Command → m (Except Failure Outcome))
    (prompt : String) : List Input → Output → m Output
  | [], out => pure out
  | .broken :: _, out => pure out
  | .tooLong :: later, out =>
    match out.write tooLongText with
    | none => pure out
    | some out =>
      match out.write prompt with
      | none => pure out
      | some out => converse perform prompt later out
  | .line text :: later, out =>
    match out.write ("Echo: " ++ text ++ "\n") with
    | none => pure out
    | some out => do
      let reply ← replyTo perform text
      match out.write reply.text with
      | none => pure out
      | some out =>
        if reply.ends then pure out
        else
          match out.write prompt with
          | none => pure out
          | some out => converse perform prompt later out

/-- A session: a prompt, and then the answers to the inputs. -/
def session {m : Type → Type} [Monad m] (perform : Command → m (Except Failure Outcome))
    (prompt : String) (inputs : List Input) (out : Output) : m Output :=
  match out.write prompt with
  | none => pure out
  | some out => converse perform prompt inputs out

end LiveTiming.Console
