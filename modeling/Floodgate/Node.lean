import Floodgate.Config.Settings
import Floodgate.Config.Validity
import Floodgate.Toml.Reader
import Floodgate.Toml.Writer

/-! # Configuration files of nodes

A node reads its configuration from a file, or takes the standard one if there is none; two switches
of the command line change it, and the result is checked. A configuration is saved as a list of
statements from which it can be read again. -/

namespace Floodgate

/-- The switches of the command line. -/
structure Switches where
  /-- Turns the protection off. -/
  withoutProtection : Bool := false
  /-- Turns the journal on. -/
  withJournal : Bool := false
deriving DecidableEq

/-- Why a configuration cannot be loaded. -/
inductive LoadFault where
  /-- The file is not text. -/
  | unreadable
  /-- The text is not a configuration. -/
  | malformed
  | protection (fault : Fault)
  | journal (fault : Fault)
deriving DecidableEq

namespace LoadFault

/-- What could not be done. -/
def context : LoadFault → String
  | unreadable => "Failed to read config file"
  | malformed => "Failed to parse config file"
  | protection _ => "Invalid antiflood configuration"
  | journal _ => "Invalid debug configuration"

/-- The fault behind it, if it is one of the settings. -/
def cause? : LoadFault → Option Fault
  | unreadable | malformed => none
  | protection f | journal f => some f

end LoadFault

namespace NodeConfig

/-! ### Loading -/

/-- The configuration with the switches applied. -/
def switched (c : NodeConfig) (s : Switches) : NodeConfig :=
  { c with
    protection := { c.protection with enabled := c.protection.enabled && !s.withoutProtection }
    journal := { c.journal with enabled := c.journal.enabled || s.withJournal } }

/-- The configuration that a text describes. -/
def ofText? (text : String) : Option NodeConfig := (Toml.read text.toList).bind ofDocument?

/-- The configuration in a file, if there is one. -/
def ofFile (file : Option ByteArray) : Except LoadFault NodeConfig :=
  match file with
  | none => .ok .standard
  | some bytes =>
    match String.fromUTF8? bytes with
    | none => .error .unreadable
    | some text =>
      match ofText? text with
      | none => .error .malformed
      | some c => .ok c

/-- Checks the sections of a configuration. -/
def check (c : NodeConfig) : Except LoadFault Unit :=
  match c.protection.validate with
  | .error f => .error (.protection f)
  | .ok _ =>
    match c.journal.validate with
    | .error f => .error (.journal f)
    | .ok _ => .ok ()

/-- Loads a configuration: reads the file, applies the switches and checks the result. -/
def load (file : Option ByteArray) (s : Switches) : Except LoadFault NodeConfig := do
  let c ← ofFile file
  let c := c.switched s
  c.check
  return c

/-! ### Saving -/

/-- The assignment of a value to a name. -/
def assign (name : String) (d : Document) : Toml.Statement := .assign [name] d

/-- The assignment of a natural number to a name. -/
def assignNat (name : String) (n : Nat) : Toml.Statement := assign name (.integer n)

/-- The statements of a tier. -/
def tierStatements (speed : Speed) (c : TierConfig) : List Toml.Statement :=
  let below (names : List String) : List String := ["antiflood", speed.name] ++ names
  [ .header (below []),
    assignNat "interval_in_seconds" c.intervalSeconds.toNat,
    assign "reserved_percent" (.number c.reservedPercent),
    .header (below ["peer_max_input"]),
    assignNat "base_messages_per_interval" c.input.messages.toNat,
    assignNat "total_size_per_interval" c.input.totalSize.toNat,
    .header (below ["peer_max_input", "increase_factor"]),
    assign "threshold" (.number c.input.increase.threshold),
    assign "factor" (.number c.input.increase.factor),
    .header (below ["black_list"]),
    assignNat "threshold_num_messages_per_interval" c.ban.messages.toNat,
    assignNat "threshold_size_per_interval" c.ban.size.toNat,
    assignNat "num_flooding_rounds" c.ban.rounds.toNat,
    assignNat "peer_ban_duration_in_seconds" c.ban.banSeconds.toNat ]

/-- The statements of the limit of a topic. -/
def limitStatements (l : TopicLimit) : List Toml.Statement :=
  [ .arrayHeader ["antiflood", "topic", "max_messages"],
    assign "topic" (.string l.topic),
    assignNat "num_messages_per_sec" l.messagesPerSecond.toNat ]

/-- The statements of the limits of topics. -/
def topicStatements (c : TopicConfig) : List Toml.Statement :=
  [ .header ["antiflood", "topic"],
    assignNat "default_max_messages_per_sec" c.defaultLimit.toNat ] ++
    if c.limits.isEmpty then [assign "max_messages" (.sequence [])]
    else c.limits.flatMap limitStatements

/-- The statements of a configuration. -/
def statements (c : NodeConfig) : List Toml.Statement :=
  [ assign "node_name" (.string c.name),
    .header ["antiflood"],
    assign "enabled" (.boolean c.protection.enabled),
    .header ["antiflood", "cache"],
    assignNat "capacity" c.protection.cache.capacity.toNat,
    assignNat "size_in_bytes" c.protection.cache.sizeInBytes.toNat,
    assignNat "shards" c.protection.cache.shards.toNat ] ++
    c.protection.tiers.toList.flatMap (fun t => tierStatements t.1 t.2) ++
    topicStatements c.protection.topics ++
    [ .header ["debug", "antiflood"],
      assign "enabled" (.boolean c.journal.enabled),
      assignNat "cache_size" c.journal.capacity.toNat,
      assignNat "interval_auto_print_in_seconds" c.journal.printSeconds.toNat ]

/-- The text in which a configuration is saved. -/
def save (c : NodeConfig) : String := String.ofList (Toml.write c.statements)

/-- The text in which a configuration is saved, if all its values can be written. -/
def saved? (c : NodeConfig) : Option String :=
  if c.statements.all Toml.Statement.isWritable then some c.save else none

/-- Does the saved text load to the same configuration? -/
def reloads (c : NodeConfig) : Bool :=
  match c.saved? with
  | none => false
  | some text =>
    match load (some text.toUTF8) {} with
    | .ok d => d = c
    | .error _ => false

end NodeConfig

end Floodgate
