import LiveTiming.Message
import LiveTiming.Race.Request

namespace LiveTiming

/-- The words that begin a command. -/
inductive Keyword
  | raw
  | stt
  | logr
  | sim
  | abort
  | status
  | help
  | quit
deriving DecidableEq

/-- The word as it is written. -/
def Keyword.text : Keyword → String
  | .raw => "raw"
  | .stt => "stt"
  | .logr => "logr"
  | .sim => "sim"
  | .abort => "abort"
  | .status => "status"
  | .help => "help"
  | .quit => "quit"

/-- What an operator asks for: to send a text, to announce a state, to send a random
split record, to run a race, to cancel one, to report, to list the commands, or to
stop. -/
inductive Command
  | raw (text : String)
  | announce (component : String) (stage : Stage)
  | randomSplit (component participant : String) (split : Nat)
  | race (request : RaceRequest)
  | abort (component : String)
  | report
  | help
  | quit
deriving DecidableEq

namespace Command

/-- The word that begins the command. -/
def keyword : Command → Keyword
  | .raw _ => .raw
  | .announce .. => .stt
  | .randomSplit .. => .logr
  | .race _ => .sim
  | .abort _ => .abort
  | .report => .status
  | .help => .help
  | .quit => .quit

/-- The list of the commands. -/
def listing : String :=
  String.intercalate "\n" [
    "raw <text>                              broadcast text verbatim",
    "stt <component> <state>                 broadcast a status change",
    "logr <component> <participant> <split>  broadcast a random split record",
    "sim <component> <splits> <participant>...  simulate a race",
    "abort <component>                       cancel a simulated race",
    "status                                  show subscribers and pending events",
    "help                                    show this list",
    "quit                                    stop the feed"]

end Command

/-- The arguments that commands take. -/
inductive Argument
  | text
  | component
  | participant
  | state
  | split
  | splits
deriving DecidableEq

/-- The argument's name. -/
def Argument.name : Argument → String
  | .text => "text"
  | .component => "component"
  | .participant => "participant"
  | .state => "state"
  | .split => "split"
  | .splits => "splits"

/-- Why a line is no command. -/
inductive LineError
  | unknown (word : String)
  | missing (keyword : Keyword) (argument : Argument)
  | invalid (keyword : Keyword) (argument : Argument) (value : String)
  | unexpected (keyword : Keyword) (value : String)
deriving DecidableEq

namespace LineError

/-- The reason in one word. -/
def label : LineError → String
  | .unknown _ => "command_unknown"
  | .missing .. => "command_missing_argument"
  | .invalid .. => "command_invalid_argument"
  | .unexpected .. => "command_unexpected_argument"

/-- The reason in words. -/
def message : LineError → String
  | .unknown word => "unknown command '" ++ word ++ "'"
  | .missing keyword argument => keyword.text ++ ": missing <" ++ argument.name ++ ">"
  | .invalid keyword argument value =>
    keyword.text ++ ": invalid <" ++ argument.name ++ "> '" ++ value ++ "'"
  | .unexpected keyword value => keyword.text ++ ": unexpected argument '" ++ value ++ "'"

end LineError

end LiveTiming
