import Floodgate.Double.Text
import Floodgate.Speed
import Floodgate.Clock

/-! # Configuration

The settings of the quota tiers, the topic limits, the peers' caches and the decision journal, and
of a node that uses them. The default value of each type is what stands for a section's missing
settings; `Config.production` is what stands for missing sections. -/

namespace Floodgate

/-- The sizing of a tier's records. -/
structure CacheConfig where
  /-- Peers a tier keeps before it drops idle ones. -/
  capacity : UInt64 := 7000
  /-- Bytes a tier's records may take; zero sets no bound. -/
  sizeInBytes : UInt64 := 0
  /-- Parts into which the records are divided. -/
  shards : UInt64 := 16
deriving DecidableEq, Inhabited

/-- The increase that a peer's budget gets in an interval once its admitted traffic has reached a
share of it. -/
structure IncreaseConfig where
  /-- The share of the budget that earns the increase; zero turns it off. -/
  threshold : Double := .zero
  /-- The multiplier of the budget; one turns it off. -/
  factor : Double := .ofNat 1
deriving DecidableEq

/-- Can the increase ever be earned? -/
def IncreaseConfig.isActive (c : IncreaseConfig) : Bool :=
  Double.lt .zero c.threshold && Double.lt (.ofNat 1) c.factor

/-- The budget of one peer in one interval. -/
structure InputConfig where
  /-- Messages of a validator. -/
  messages : UInt32 := 0
  /-- Bytes of a validator. -/
  totalSize : UInt64 := 0
  increase : IncreaseConfig := {}
deriving DecidableEq

/-- When a flooding peer is banned, and for how long. -/
structure BanConfig where
  /-- Messages that make an interval a flooding one. -/
  messages : UInt32 := 0
  /-- Bytes that make an interval a flooding one. -/
  size : UInt64 := 0
  /-- Consecutive flooding intervals that lead to a ban. -/
  rounds : UInt32 := 0
  /-- The length of the ban in seconds. -/
  banSeconds : UInt64 := 0
deriving DecidableEq, Inhabited

/-- The length of the ban. -/
def BanConfig.banSpan (c : BanConfig) : Span := .ofSeconds c.banSeconds.toNat

/-- One quota tier. -/
structure TierConfig where
  /-- The seconds between two resets of the tier. -/
  intervalSeconds : UInt64 := 0
  /-- The percentage of the budget that only validators may use. -/
  reservedPercent : Double := .zero
  input : InputConfig := {}
  ban : BanConfig := {}
deriving DecidableEq

/-- The time between two resets of the tier. -/
def TierConfig.interval (c : TierConfig) : Span := .ofSeconds c.intervalSeconds.toNat

/-- The limit of one topic. -/
structure TopicLimit where
  topic : String
  messagesPerSecond : UInt32
deriving DecidableEq

/-- The limits of the topics. -/
structure TopicConfig where
  /-- Messages per second of a topic without a limit of its own. -/
  defaultLimit : UInt32 := 15000
  limits : List TopicLimit :=
    [⟨"heartbeat", 30⟩, ⟨"shardBlocks", 30⟩, ⟨"metachainBlocks", 30⟩, ⟨"validatorTrieNodes", 5000⟩]
deriving DecidableEq

/-- The settings of the flood protection. -/
structure Config where
  enabled : Bool
  cache : CacheConfig
  tiers : PerSpeed TierConfig
  topics : TopicConfig
deriving DecidableEq

/-- The number of bytes in a mebibyte. -/
def mebibyte : UInt64 := 1048576

/-- The settings for production. -/
def Config.production : Config where
  enabled := true
  cache := {}
  tiers :=
    { fast :=
        { intervalSeconds := 1
          reservedPercent := .ofNat 20
          input :=
            { messages := 140
              totalSize := 4 * mebibyte
              increase :=
                { threshold := .ofDecimal false 9 (-1), factor := .ofDecimal false 15 (-1) } }
          ban := { messages := 1000, size := 8 * mebibyte, rounds := 10, banSeconds := 300 } }
      slow :=
        { intervalSeconds := 30
          reservedPercent := .ofNat 20
          input := { messages := 6000, totalSize := 36 * mebibyte }
          ban := { messages := 10000, size := 64 * mebibyte, rounds := 2, banSeconds := 3600 } }
      outOfSpecs :=
        { intervalSeconds := 1
          reservedPercent := .zero
          input := { messages := 2000, totalSize := 10 * mebibyte }
          ban := { messages := 3600, size := 12 * mebibyte, rounds := 2, banSeconds := 3600 } } }
  topics := {}

/-- The settings of the decision journal. -/
structure JournalConfig where
  enabled : Bool := false
  /-- Pairs of peer and topic that are kept between two prints. -/
  capacity : UInt64 := 10000
  /-- The seconds between two prints. -/
  printSeconds : UInt64 := 5
deriving DecidableEq, Inhabited

/-- The settings of a node. -/
structure NodeConfig where
  name : String
  protection : Config
  journal : JournalConfig
deriving DecidableEq

/-- The settings of a node that has no configuration file. -/
def NodeConfig.standard : NodeConfig := ⟨"shard-node", .production, {}⟩

end Floodgate
