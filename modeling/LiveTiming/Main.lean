import LiveTiming.CommandLine

namespace LiveTiming.CommandLine

/-- More steps than any line takes. -/
def patience : Nat := 1 <<< 60

/-- Answers the operator's lines in turn. The clock of the site follows that of the
machine, and an echo of what the feed sends goes to the other output. -/
partial def serveLines (site : Site) (begun told : Nat) : IO Unit := do
  let line ← (← IO.getStdin).getLine
  if line.isEmpty then return
  let typed := String.ofList (line.toList.takeWhile (· != '\n'))
  let elapsed := (← IO.monoNanosNow) - begun - site.service.hub.clock
  let some (text, site) := (site.sleep patience elapsed).bind (·.typeLine patience typed) | return
  let journal := site.service.hub.journal
  if site.service.feed.config.echo then
    for d in journal.extract told journal.size do
      IO.eprintln (Frame.logText d.frame)
  IO.print text
  (← IO.getStdout).flush
  if site.consoleOpen then serveLines site begun journal.size

end LiveTiming.CommandLine

open LiveTiming in
/-- Runs the feed with the given arguments and an operator at the standard streams. -/
def main (args : List String) : IO UInt32 := do
  match CommandLine.parse args with
  | .error e =>
    IO.eprintln e.message
    return 2
  | .ok .help => IO.print CommandLine.helpText; return 0
  | .ok .version => IO.print CommandLine.versionText; return 0
  | .ok (.serve o) =>
    match Site.start {} o.config.listen o.feed CommandLine.patience with
    | .error e =>
      IO.eprintln e.sentence
      return 1
    | .ok none => return 1
    | .ok (some site) =>
      IO.print o.config.prompt
      (← IO.getStdout).flush
      CommandLine.serveLines site (← IO.monoNanosNow) 0
      return 0
