import Floodgate.Config
import Floodgate.Fault

/-! # Valid settings

Settings are checked rule by rule in a fixed order, and the first broken rule is reported. Each
section has its list of rules; settings that are turned off are not checked. -/

namespace Floodgate

/-- What is wrong with the settings of a tier. -/
inductive TierFault where
  | interval (seconds : Nat)
  | reservedPercent (percent : Double)
  | messages
  | totalSize
  | threshold (share : Double)
  | factor (multiplier : Double)
  | banMessages
  | banSize
  | banRounds
  | banDuration (seconds : Nat)

/-- What is wrong with settings. -/
inductive ConfigFault where
  | cacheCapacity
  | cacheShards
  | tier (speed : Speed) (fault : TierFault)
  | topicDefault
  | topicName
  | journalCapacity
  | journalInterval (seconds : Nat)
  | watchThresholds (speed : Speed)
  | watchRounds (speed : Speed)
  | watchDuration (speed : Speed)
  | noTier

namespace Config

/-- The longest interval in seconds: a day. -/
def maxInterval : Nat := 86400

/-- The longest ban in seconds: a year. -/
def maxBan : Nat := 31536000

/-- The largest multiplier of a budget. -/
def maxFactor : Nat := 1000

end Config

/-- The text of a tier's fault. -/
def TierFault.text : TierFault → String
  | interval n => s!"interval_in_seconds {n} outside 1..={Config.maxInterval}"
  | reservedPercent x => s!"reserved_percent {x.text} outside 0..=100"
  | messages => "base_messages_per_interval must be > 0"
  | totalSize => "total_size_per_interval must be > 0"
  | threshold x => s!"increase_factor.threshold {x.text} outside 0..=1"
  | factor x => s!"increase_factor.factor {x.text} outside 1..={Config.maxFactor}"
  | banMessages => "black_list.threshold_num_messages_per_interval must be > 0"
  | banSize => "black_list.threshold_size_per_interval must be > 0"
  | banRounds => "black_list.num_flooding_rounds must be > 0"
  | banDuration n => s!"black_list.peer_ban_duration_in_seconds {n} outside 1..={Config.maxBan}"

namespace ConfigFault

/-- The text of a fault. -/
def text : ConfigFault → String
  | cacheCapacity => "cache.capacity must be > 0"
  | cacheShards => "cache.shards must be a power of two > 1"
  | tier speed fault => s!"{speed.name}: {fault.text}"
  | topicDefault => "topic.default_max_messages_per_sec must be > 0"
  | topicName => "topic.max_messages contains an empty topic"
  | journalCapacity => "debug.antiflood.cache_size must be > 0"
  | journalInterval n =>
    s!"debug.antiflood.interval_auto_print_in_seconds {n} outside 1..={Config.maxInterval}"
  | watchThresholds speed => s!"{speed.name}: black list thresholds must be > 0"
  | watchRounds speed => s!"{speed.name}: num_flooding_rounds must be > 0"
  | watchDuration speed =>
    s!"{speed.name}: peer_ban_duration_in_seconds must be in 1..={Config.maxBan}"
  | noTier => "antiflood needs at least one quota tier"

/-- The fault of a component that cannot be built. -/
def fault (f : ConfigFault) : Fault := .invalidConfig f.text

end ConfigFault

/-! ### Rules -/

/-- A rule: a condition, and the fault if it does not hold. -/
abbrev Rule := Bool × ConfigFault

/-- Reports the first broken rule. -/
def Rule.check : List Rule → Except Fault Unit
  | [] => .ok ()
  | r :: rs => if r.1 then check rs else .error r.2.fault

theorem Rule.check_eq_ok_iff {rs : List Rule} : Rule.check rs = .ok () ↔ ∀ r ∈ rs, r.1 = true := by
  induction rs with
  | nil => simp [Rule.check]
  | cons r rs ih => by_cases h : r.1 = true <;> simp [Rule.check, h, ih]

/-- Does a number lie between one and a limit? -/
def upTo (n limit : Nat) : Bool := 1 ≤ n && n ≤ limit

/-- The rules of the sizing. -/
def CacheConfig.rules (c : CacheConfig) : List Rule :=
  [ (c.capacity != 0, .cacheCapacity),
    (2 ≤ c.shards.toNat && isPowerOfTwo c.shards.toNat, .cacheShards) ]

/-- The rules of a tier. -/
def TierConfig.rules (c : TierConfig) (speed : Speed) : List Rule :=
  [ (upTo c.intervalSeconds.toNat Config.maxInterval, .interval c.intervalSeconds.toNat),
    (c.reservedPercent.within .zero (.ofNat 100), .reservedPercent c.reservedPercent),
    (c.input.messages != 0, .messages),
    (c.input.totalSize != 0, .totalSize),
    (c.input.increase.threshold.within .zero (.ofNat 1), .threshold c.input.increase.threshold),
    (c.input.increase.factor.within (.ofNat 1) (.ofNat Config.maxFactor),
      .factor c.input.increase.factor),
    (c.ban.messages != 0, .banMessages),
    (c.ban.size != 0, .banSize),
    (c.ban.rounds != 0, .banRounds),
    (upTo c.ban.banSeconds.toNat Config.maxBan,
      TierFault.banDuration c.ban.banSeconds.toNat) ].map fun r => (r.1, .tier speed r.2)

/-- The rules of the topic limits. -/
def TopicConfig.rules (c : TopicConfig) : List Rule :=
  [ (c.defaultLimit != 0, .topicDefault),
    (c.limits.all fun l => !l.topic.isEmpty, .topicName) ]

/-- The rules of the protection. -/
def Config.rules (c : Config) : List Rule :=
  c.cache.rules ++ c.tiers.toList.flatMap (fun t => t.2.rules t.1) ++ c.topics.rules

/-- The rules of the journal. -/
def JournalConfig.rules (c : JournalConfig) : List Rule :=
  [ (c.capacity != 0, .journalCapacity),
    (upTo c.printSeconds.toNat Config.maxInterval, .journalInterval c.printSeconds.toNat) ]

/-- Checks the settings of the protection, unless it is turned off. -/
def Config.validate (c : Config) : Except Fault Unit :=
  if c.enabled then Rule.check c.rules else .ok ()

/-- Checks the settings of the journal, unless it is turned off. -/
def JournalConfig.validate (c : JournalConfig) : Except Fault Unit :=
  if c.enabled then Rule.check c.rules else .ok ()

end Floodgate
