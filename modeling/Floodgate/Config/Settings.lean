import Floodgate.Config
import Floodgate.Document

/-! # Settings in documents

How each section of the configuration is read off a document. A missing section of the protection
takes its settings for production, a missing setting of a section that is there the default of the
section's type. Settings that are not known are passed over. -/

namespace Floodgate

open Document (setting required)

/-- The sizing that a document describes. -/
def CacheConfig.ofDocument? (d : Document) : Option CacheConfig := do
  let s ← d.settings? ["capacity", "size_in_bytes", "shards"]
  let standard : CacheConfig := {}
  return {
    capacity := ← setting s "capacity" Document.word64? standard.capacity
    sizeInBytes := ← setting s "size_in_bytes" Document.word64? standard.sizeInBytes
    shards := ← setting s "shards" Document.word64? standard.shards }

/-- The increase that a document describes. -/
def IncreaseConfig.ofDocument? (d : Document) : Option IncreaseConfig := do
  let s ← d.settings? ["threshold", "factor"]
  let standard : IncreaseConfig := {}
  return {
    threshold := ← setting s "threshold" Document.double? standard.threshold
    factor := ← setting s "factor" Document.double? standard.factor }

/-- The budget that a document describes. -/
def InputConfig.ofDocument? (d : Document) : Option InputConfig := do
  let s ← d.settings?
    ["base_messages_per_interval", "total_size_per_interval", "increase_factor"]
  let standard : InputConfig := {}
  return {
    messages := ← setting s "base_messages_per_interval" Document.word32? standard.messages
    totalSize := ← setting s "total_size_per_interval" Document.word64? standard.totalSize
    increase := ← setting s "increase_factor" IncreaseConfig.ofDocument? standard.increase }

/-- The rules of bans that a document describes. -/
def BanConfig.ofDocument? (d : Document) : Option BanConfig := do
  let s ← d.settings?
    ["threshold_num_messages_per_interval", "threshold_size_per_interval", "num_flooding_rounds",
      "peer_ban_duration_in_seconds"]
  let standard : BanConfig := {}
  return {
    messages := ← setting s "threshold_num_messages_per_interval" Document.word32? standard.messages
    size := ← setting s "threshold_size_per_interval" Document.word64? standard.size
    rounds := ← setting s "num_flooding_rounds" Document.word32? standard.rounds
    banSeconds := ← setting s "peer_ban_duration_in_seconds" Document.word64? standard.banSeconds }

/-- The tier that a document describes. -/
def TierConfig.ofDocument? (d : Document) : Option TierConfig := do
  let s ← d.settings? ["interval_in_seconds", "reserved_percent", "peer_max_input", "black_list"]
  let standard : TierConfig := {}
  return {
    intervalSeconds := ← setting s "interval_in_seconds" Document.word64? standard.intervalSeconds
    reservedPercent := ← setting s "reserved_percent" Document.double? standard.reservedPercent
    input := ← setting s "peer_max_input" InputConfig.ofDocument? standard.input
    ban := ← setting s "black_list" BanConfig.ofDocument? standard.ban }

/-- The limit of a topic that a document describes. -/
def TopicLimit.ofDocument? (d : Document) : Option TopicLimit := do
  let s ← d.settings? ["topic", "num_messages_per_sec"]
  return {
    topic := ← required s "topic" Document.string?
    messagesPerSecond := ← required s "num_messages_per_sec" Document.word32? }

/-- The limits of topics that a document describes. -/
def TopicConfig.ofDocument? (d : Document) : Option TopicConfig := do
  let s ← d.settings? ["default_max_messages_per_sec", "max_messages"]
  let standard : TopicConfig := {}
  return {
    defaultLimit := ←
      setting s "default_max_messages_per_sec" Document.word32? standard.defaultLimit
    limits := ←
      setting s "max_messages" (Document.list? TopicLimit.ofDocument?) standard.limits }

/-- The protection that a document describes. -/
def Config.ofDocument? (d : Document) : Option Config := do
  let s ← d.settings?
    ["enabled", "cache", "fast_reacting", "slow_reacting", "out_of_specs", "topic"]
  let standard := Config.production
  let tier (speed : Speed) : Option TierConfig :=
    setting s speed.name TierConfig.ofDocument? (standard.tiers.get speed)
  return {
    enabled := ← setting s "enabled" Document.boolean? standard.enabled
    cache := ← setting s "cache" CacheConfig.ofDocument? standard.cache
    tiers := { fast := ← tier .fast, slow := ← tier .slow, outOfSpecs := ← tier .outOfSpecs }
    topics := ← setting s "topic" TopicConfig.ofDocument? standard.topics }

/-- The journal that a document describes. -/
def JournalConfig.ofDocument? (d : Document) : Option JournalConfig := do
  let s ← d.settings? ["enabled", "cache_size", "interval_auto_print_in_seconds"]
  let standard : JournalConfig := {}
  return {
    enabled := ← setting s "enabled" Document.boolean? standard.enabled
    capacity := ← setting s "cache_size" Document.word64? standard.capacity
    printSeconds := ←
      setting s "interval_auto_print_in_seconds" Document.word64? standard.printSeconds }

/-- The section around the journal's. -/
def JournalConfig.ofSection? (d : Document) : Option JournalConfig := do
  let s ← d.settings? ["antiflood"]
  setting s "antiflood" JournalConfig.ofDocument? {}

/-- The node that a document describes; only its name must be there. -/
def NodeConfig.ofDocument? (d : Document) : Option NodeConfig := do
  let s ← d.settings? ["node_name", "antiflood", "debug"]
  return {
    name := ← required s "node_name" Document.string?
    protection := ← setting s "antiflood" Config.ofDocument? .production
    journal := ← setting s "debug" JournalConfig.ofSection? {} }

end Floodgate
