import Rendezvous.Settings.File
/-!
# The command line

What can be said when a server is started: a settings file, and three settings that count more than
what the file says.
-/

namespace Rendezvous

/-- What the command line says. -/
structure CommandLine where
  config : Option String := none
  listen : Option String := none
  id : Option String := none
  discoveryLog : Option String := none
deriving DecidableEq, Inhabited

/-- Why a command line is refused. -/
inductive CommandLineError
  | unexpected (argument : String)
  | missingValue (option : String)
  | unreadableSettings
  | invalidAddress (text : String)
deriving DecidableEq, Inhabited

namespace CommandLineError

/-- The error in words. -/
def message : CommandLineError → String
  | unexpected argument => "unexpected argument '" ++ argument ++ "'"
  | missingValue option => "a value is required for '" ++ option ++ "'"
  | unreadableSettings => "Configuration error: the file cannot be read"
  | invalidAddress text => "Configuration error: Invalid listen address: " ++ text

end CommandLineError

namespace CommandLine

/-- The command line with the value of an option. -/
def withOption (c : CommandLine) (option value : String) : Except CommandLineError CommandLine :=
  if option = "--config" ∨ option = "-c" then .ok { c with config := some value }
  else if option = "--listen" ∨ option = "-l" then .ok { c with listen := some value }
  else if option = "--id" then .ok { c with id := some value }
  else if option = "--discovery-log" then .ok { c with discoveryLog := some value }
  else .error (.unexpected option)

/-- Reads arguments, which are options with a value each. -/
def ofArguments (c : CommandLine) : List String → Except CommandLineError CommandLine
  | [] => .ok c
  -- An option that is not known is refused for that, not for the value that is missing.
  | [option] => (c.withOption option "").bind fun _ => .error (.missingValue option)
  | option :: value :: rest => (c.withOption option value).bind fun c => ofArguments c rest

/-- The settings with what the command line says. -/
def adjust (c : CommandLine) (s : DaemonSettings) : Except CommandLineError DaemonSettings := do
  let s ← match c.listen with
    | none => .ok s
    | some raw =>
      match Net.SocketAddress.ofText? raw with
      | some address => .ok (s.listenOn address)
      | none => .error (.invalidAddress raw)
  return { s with
    discovery := { s.discovery with
      id := c.id.getD s.discovery.id
      logPath := match c.discoveryLog with
        | some path => some path
        | none => s.discovery.logPath } }

/-- The settings that a command line makes, given the content of the file that it names. -/
def settings (c : CommandLine) (content : Option String) :
    Except CommandLineError DaemonSettings :=
  let read := match c.config, content with
    | some name, some content => DaemonSettings.ofFile name content
    | _, _ => .ok {}
  match read with
  | .ok s => c.adjust s
  | .error _ => .error .unreadableSettings

end CommandLine

namespace DaemonSettings

/-- What a server says when it starts. -/
def greeting (s : DaemonSettings) : String :=
  "\n  Context Discovery daemon\n  Version: 0.1.0\n  Discoverer: " ++ s.discovery.id ++
    "\n  Listening: " ++ s.server.listenAddress.text ++ "\n"

end DaemonSettings

end Rendezvous
