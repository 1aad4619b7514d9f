import Floodgate.Node
import Floodgate.Station

/-! # The node's command

The command reads the configuration of a node, applies the switches of the command line and checks
the result. It then saves the configuration and ends, or builds the station and keeps it until its
input ends.

* `Arguments.read` is the reading of the command line;
* everything that touches files and streams is in `loadConfig` and `run`. -/

namespace Floodgate

/-- What the command line says. -/
structure Arguments where
  /-- The configuration file. -/
  configFile : String := "shard-node.toml"
  /-- The least severe records that are shown. -/
  logLevel : String := "info"
  switches : Switches := {}
  /-- The file to which the configuration is saved, if it is only to be saved. -/
  dumpFile : Option String := none
deriving DecidableEq

namespace Arguments

/-- Reads the words of a command line on top of arguments that are already known. -/
def readOnto (a : Arguments) : List String → Except String Arguments
  | [] => .ok a
  | "--antiflood-disabled" :: words =>
    readOnto { a with switches := { a.switches with withoutProtection := true } } words
  | "--debug-antiflood" :: words =>
    readOnto { a with switches := { a.switches with withJournal := true } } words
  | "--config" :: file :: words => readOnto { a with configFile := file } words
  | "-c" :: file :: words => readOnto { a with configFile := file } words
  | "--log-level" :: level :: words => readOnto { a with logLevel := level } words
  | "--dump-config" :: file :: words => readOnto { a with dumpFile := some file } words
  | word :: _ => .error s!"unexpected argument '{word}'"

/-- Reads the words of a command line. -/
def read (words : List String) : Except String Arguments := readOnto {} words

/-- Are records of everyday progress shown? -/
def isTalkative (a : Arguments) : Bool :=
  a.logLevel.toLower ≠ "warn" && a.logLevel.toLower ≠ "error"

end Arguments

/-- The text of an error: what could not be done, and why if that is known. -/
def failureText (context : String) (cause : Option Fault) : String :=
  match cause with
  | none => s!"Error: {context}"
  | some f => s!"Error: {context}\n\nCaused by:\n    {f.message}"

/-- Loads the configuration; a file that is missing is no fault, one that cannot be read is. -/
def loadConfig (a : Arguments) : IO (Except LoadFault NodeConfig) := do
  try
    return NodeConfig.load (some (← IO.FS.readBinFile a.configFile)) a.switches
  catch
    | .noFileOrDirectory _ _ _ => return NodeConfig.load none a.switches
    | _ => return .error .unreadable

/-- Runs the command; the answer is its exit code. -/
def run (a : Arguments) : IO UInt32 := do
  let tell (text : String) : IO Unit := if a.isTalkative then IO.println text else pure ()
  match ← loadConfig a with
  | .error f =>
    IO.eprintln (failureText f.context f.cause?)
    return 1
  | .ok config =>
    tell s!"Configuration loaded: {config.name}"
    match a.dumpFile with
    | some file =>
      match config.saved? with
      | none =>
        IO.eprintln (failureText "out-of-range value for u64 type" none)
        return 1
      | some text =>
        IO.FS.writeFile file text
        tell s!"Configuration written to {file}"
        return 0
    | none =>
      match Station.build config.protection config.journal true with
      | .error f =>
        IO.eprintln (failureText "Failed to build antiflood components" (some f))
        return 1
      | .ok station =>
        tell s!"Node running: {config.name}, antiflood {station.enabled}"
        let _ ← (← IO.getStdin).getLine
        let station := station.cancel
        tell s!"Shard node stopped: {station.schedule.cancelled}"
        return 0

end Floodgate

/-- The command. -/
def main (words : List String) : IO UInt32 :=
  match Floodgate.Arguments.read words with
  | .error text => do
    IO.eprintln s!"error: {text}"
    return 2
  | .ok a => Floodgate.run a
