import Rendezvous.Protocol.Connection
import Rendezvous.Service.World
import Rendezvous.Settings.CommandLine
import Std.Time.DateTime.Timestamp
/-!
# The program

Serves one connection, which is the standard input and output, and keeps the registrations in a file
if it is told to. There is no way to other components from here, so one whose lease has run out is
evicted.
-/

namespace Rendezvous.Program

/-- The content of a file, if it can be read. -/
def contentOf (path : String) : IO (Option String) := do
  try
    return some (← IO.FS.readFile path)
  catch _ =>
    return none

/-- The moment of the calendar. -/
def moment : IO Timestamp := do
  let now ← Std.Time.Timestamp.now
  return ⟨now.toSecondsSinceUnixEpoch.val, now.val.nano.val.toNat⟩

/-- The instant of the clock, which started at the given number of milliseconds. -/
def instant (start : Nat) : IO Instant := do
  return .ofMillis ((← IO.monoMsNow) - start)

/-- Answers line after line. Before and after each line the journal is handed to `keep`, which
brings its moment up to date and writes its file. -/
partial def answerLines {J : Type} [Journal J] (keep : J → IO J) (start : Nat) (w : World J) :
    IO Unit := do
  let line ← (← IO.getStdin).getLine
  let journal ← keep w.mediator.journal
  let w := ({ w with mediator := { w.mediator with journal } } : World J).run (← instant start)
  if line.isEmpty then return ()
  let bytes := Text.Utf8.encode line.toList
  let (replies, w) := w.perform fun now m => m.serve (fun _ => now) bytes
  let output ← IO.getStdout
  for reply in replies do
    output.putStr (String.ofList (Framing.line reply))
  output.flush
  let journal ← keep w.mediator.journal
  -- Nothing is read any more behind a line that is too long.
  if (Framing.receiveAll Framing.defaultLimit bytes).contains .tooLong then return ()
  answerLines keep start { w with mediator := { w.mediator with journal } }

/-- Serves with a journal, whose registrations nobody can be asked about any more. -/
def serve {J : Type} [Journal J] (settings : DaemonSettings) (journal : J) (keep : J → IO J) :
    IO Unit := do
  let seed := (← IO.rand 0 (UInt64.size - 1)) * UInt64.size + (← IO.rand 0 (UInt64.size - 1))
  let start ← IO.monoMsNow
  let w : World J :=
    { mediator := .new settings.discovery journal (fun n => "cursor:" ++ (Uuid.supply seed n).text)
        fun n => ⟨Uuid.supply seed n⟩
      network := deadNetwork }
  let w := w.restore.2
  answerLines keep start w

/-- Brings the moment of a log up to date and writes its file where the content is new. -/
def keepLog (path : String) (written : IO.Ref (Option String)) (log : RegistrationLog) :
    IO RegistrationLog := do
  if log.disk.content ≠ (← written.get) then
    IO.FS.writeFile path (log.disk.content.getD "")
    written.set log.disk.content
  return { log with clock := ← moment }

/-- Serves as the settings say. -/
def serveWith (settings : DaemonSettings) : IO Unit := do
  IO.println settings.greeting
  match settings.discovery.logPath with
  | none => serve settings NoJournal.mk pure
  | some path =>
    let content ← contentOf path
    match RegistrationLog.openOn (← moment) { content } with
    | .error e => throw (IO.userError ("Discovery error: " ++ e.message))
    | .ok log => serve settings log (keepLog path (← IO.mkRef content))

end Rendezvous.Program

open Rendezvous in
/-- Serves as the command line says. -/
def main (arguments : List String) : IO Unit := do
  let result ← match CommandLine.ofArguments {} arguments with
    | .error e => pure (Except.error e)
    | .ok c => do
      let content ← match c.config with
        | some path => Program.contentOf path
        | none => pure none
      pure (c.settings content)
  match result with
  | .ok settings => Program.serveWith settings
  | .error e => throw (IO.userError e.message)
