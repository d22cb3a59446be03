import LiveTiming.Random.ChaCha
import LiveTiming.Site

namespace LiveTiming.CommandLine

/-- What can be set when the program is started. -/
structure Options where
  listen : Option SocketAddress := none
  port : Option Nat := none
  timeUnit : Option Nat := none
  seed : Option Nat := none
  echo : Bool := false
  maxSplits : Option Nat := none

/-- What the program is started for. -/
inductive Purpose
  | help
  | version
  | serve (options : Options)

/-- Why the program cannot be started like that. -/
inductive UsageError
  | unknownFlag (flag : String)
  | strayArgument (word : String)
  | repeated (flag : String)
  | missingValue (flag : String)
  | surplusValue (flag : String)
  | invalidValue (flag value : String)

/-- The reason in words. -/
def UsageError.message : UsageError → String
  | .unknownFlag flag => "error: unexpected argument '" ++ flag ++ "' found"
  | .strayArgument word => "error: unexpected argument '" ++ word ++ "' found"
  | .repeated flag => "error: the argument '" ++ flag ++ "' cannot be used multiple times"
  | .missingValue flag => "error: a value is required for '" ++ flag ++ "' but none was supplied"
  | .surplusValue flag => "error: unexpected value for '" ++ flag ++ "' found"
  | .invalidValue flag value => "error: invalid value '" ++ value ++ "' for '" ++ flag ++ "'"

/-- The flags that take a value. -/
inductive ValueFlag
  | listen
  | port
  | timeUnit
  | seed
  | maxSplits

/-- The flag as it is written. -/
def ValueFlag.text : ValueFlag → String
  | .listen => "--listen"
  | .port => "--port"
  | .timeUnit => "--time-unit-ms"
  | .seed => "--seed"
  | .maxSplits => "--max-splits"

/-- The flag of a long name. -/
def ValueFlag.ofName? : String → Option ValueFlag
  | "listen" => some .listen
  | "port" => some .port
  | "time-unit-ms" => some .timeUnit
  | "seed" => some .seed
  | "max-splits" => some .maxSplits
  | _ => none

/-- Sets a field that is not set yet. -/
def setOnce {α : Type} (flag : ValueFlag) (value : String) (old : Option α) (new : Option α) :
    Except UsageError (Option α) :=
  match old, new with
  | some _, _ => .error (.repeated flag.text)
  | none, none => .error (.invalidValue flag.text value)
  | none, some a => .ok (some a)

/-- The options with the value of one more flag. -/
def Options.setValue (o : Options) (flag : ValueFlag) (value : String) :
    Except UsageError Options := do
  let digits := value.toList
  match flag with
  | .listen =>
    let listen ← setOnce flag value o.listen (SocketAddress.parse? value)
    pure { o with listen }
  | .port =>
    let port ← setOnce flag value o.port (Text.signed? (UInt16.size - 1) digits)
    pure { o with port }
  | .timeUnit =>
    let timeUnit ← setOnce flag value o.timeUnit (Text.unsigned? maxWord digits)
    pure { o with timeUnit }
  | .seed =>
    let seed ← setOnce flag value o.seed (Text.unsigned? maxWord digits)
    pure { o with seed }
  | .maxSplits =>
    let maxSplits ← setOnce flag value o.maxSplits (Text.signed? (UInt32.size - 1) digits)
    pure { o with maxSplits }

/-- One word of the command line: a long flag with the value that is joined to it by an
equals sign, a group of short flags, the mark that ends the flags, or another word. -/
inductive Token
  | long (name : String) (value : Option String)
  | short (letters : List Char)
  | endOfFlags
  | word (text : String)

/-- What a word of the command line is. -/
def Token.ofWord (word : String) : Token :=
  match word.toList with
  | ['-', '-'] => .endOfFlags
  | '-' :: '-' :: rest =>
    let name := String.ofList (rest.takeWhile (· != '='))
    match rest.dropWhile (· != '=') with
    | [] => .long name none
    | _ :: value => .long name (some (String.ofList value))
  | '-' :: c :: rest => .short (c :: rest)
  | _ => .word word

/-- What a flag comes to: the purpose is settled, or the options are changed and some
words are used up. -/
inductive FlagResult
  | settled (p : Purpose)
  | proceed (o : Options) (rest : List String)

/-- Sets a flag to the value that is joined to it or is the next word, which must not
look like a flag. -/
def useValue (o : Options) (flag : ValueFlag) (joined : Option String) (rest : List String) :
    Except UsageError FlagResult :=
  match joined, rest with
  | some value, _ => (FlagResult.proceed · rest) <$> o.setValue flag value
  | none, [] => .error (.missingValue flag.text)
  | none, next :: rest =>
    match Token.ofWord next with
    | .word value => (FlagResult.proceed · rest) <$> o.setValue flag value
    | _ => .error (.missingValue flag.text)

/-- Reads a long flag. -/
def useLong (o : Options) (name : String) (joined : Option String) (rest : List String) :
    Except UsageError FlagResult :=
  let bare (result : Except UsageError FlagResult) : Except UsageError FlagResult :=
    if joined.isSome then .error (.surplusValue ("--" ++ name)) else result
  match name with
  | "help" => bare (.ok (.settled .help))
  | "version" => bare (.ok (.settled .version))
  | "echo-feed" =>
    bare (if o.echo then .error (.repeated "--echo-feed")
      else .ok (.proceed { o with echo := true } rest))
  | _ =>
    match ValueFlag.ofName? name with
    | some flag => useValue o flag joined rest
    | none => .error (.unknownFlag ("--" ++ name))

/-- Reads the first of a group of short flags, which settles the group: two of them
settle the purpose, and one takes the rest of the group as its value. -/
def useShort (o : Options) (letters : List Char) (rest : List String) :
    Except UsageError FlagResult :=
  match letters with
  | 'h' :: _ => .ok (.settled .help)
  | 'V' :: _ => .ok (.settled .version)
  | 'p' :: [] => useValue o .port none rest
  | 'p' :: '=' :: value => useValue o .port (some (String.ofList value)) rest
  | 'p' :: value => useValue o .port (some (String.ofList value)) rest
  | _ => .error (.unknownFlag ("-" ++ String.ofList letters))

/-- Reads the words of the command line in turn. Every step uses up a word. -/
def parseFrom : (fuel : Nat) → Options → List String → Except UsageError Purpose
  | 0, o, _ => .ok (.serve o)
  | _, o, [] => .ok (.serve o)
  | fuel + 1, o, word :: rest => do
    let result ← match Token.ofWord word with
      | .long name value => useLong o name value rest
      | .short letters => useShort o letters rest
      | .endOfFlags =>
        match rest with
        | [] => .ok (.proceed o [])
        | stray :: _ => .error (.strayArgument stray)
      | .word stray => .error (.strayArgument stray)
    match result with
    | .settled p => pure p
    | .proceed o rest => parseFrom fuel o rest

/-- Reads the words of the command line. -/
def parse (args : List String) : Except UsageError Purpose :=
  parseFrom args.length {} args

/-- How the feed is set up. -/
def Options.config (o : Options) : Config :=
  let standard : Config := {}
  let config := standard.onPort (o.port.getD standard.listen.port)
  { config with
    listen := o.listen.getD config.listen
    timeUnit := .ofMillis (o.timeUnit.getD 1000)
    echo := o.echo
    bounds := { config.bounds with maxSplits := o.maxSplits.getD config.bounds.maxSplits } }

/-- The feed that is served. -/
def Options.feed (o : Options) : Feed :=
  .start o.config [] (ChaCha.generator (UInt64.ofNat (o.seed.getD 0)))

/-- The name and the version of the program. -/
def versionText : String :=
  "racefeed 0.1.0\n"

/-- How the program is started. -/
def helpText : String :=
  String.intercalate "\n" [
    "Simulated live race feed broadcast to TCP subscribers",
    "",
    "Usage: racefeed [OPTIONS]",
    "",
    "Options:",
    "      --listen <LISTEN>              Listen address (overrides --port)",
    "  -p, --port <PORT>                  Port on all interfaces [default: 9000]",
    "      --time-unit-ms <TIME_UNIT_MS>  Real milliseconds per race time unit [default: 1000]",
    "      --seed <SEED>                  Seed for the race generator",
    "      --echo-feed                    Log every broadcast frame",
    "      --max-splits <MAX_SPLITS>      Largest split count that sim accepts [default: 100]",
    "  -h, --help                         Print help",
    "  -V, --version                      Print version",
    ""]

/-- How a run of the program ends: its exit code and what it wrote. -/
structure Exit where
  code : Nat
  output : String

/-- Runs the program on the given input, until the operator quits or, at the end of the
input, somebody else ends it. All input is there from the start. -/
def run (network : Network) (args : List String) (input : Bytes) (fuel : Nat) : Option Exit :=
  match parse args with
  | .error _ => some ⟨2, ""⟩
  | .ok .help => some ⟨0, helpText⟩
  | .ok .version => some ⟨0, versionText⟩
  | .ok (.serve o) =>
    match Site.start network o.config.listen o.feed fuel with
    | .error _ => some ⟨1, ""⟩
    | .ok site => do
      let (out, _) ← (← site).run fuel (Service.console fuel (Console.inputs false input) {})
      pure ⟨0, out.text⟩

end LiveTiming.CommandLine
