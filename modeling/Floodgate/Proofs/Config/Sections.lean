import Floodgate.Node

/-! # Sections of configurations

What is read off the document of a section, said once for each of them: each setting is read off the
value of its name, or is the default (`CacheConfig.ofDocument?_eq_some_iff` and its like). The
document of a configuration has its sections as tables, in the order in which they are saved; every
section is read off its own table again (`NodeConfig.ofDocument?_document`). -/

namespace Floodgate

namespace Document

theorem word32?_toNat (n : UInt32) : word32? (.integer n.toNat) = some n := by
  have hlt : (n.toNat : Int) < UInt32.size := by exact_mod_cast n.toNat_lt_size
  rw [word32?, below?, if_pos ⟨Int.natCast_nonneg _, hlt⟩]
  simp

theorem word64?_toNat (n : UInt64) : word64? (.integer n.toNat) = some n := by
  have hlt : (n.toNat : Int) < UInt64.size := by exact_mod_cast n.toNat_lt_size
  rw [word64?, below?, if_pos ⟨Int.natCast_nonneg _, hlt⟩]
  simp

end Document

/-! ### Reading -/

section Reading

open Document

variable {d : Document}

theorem CacheConfig.ofDocument?_eq_some_iff {c : CacheConfig} :
    ofDocument? d = some c ↔
      ∃ s, d.settings? ["capacity", "size_in_bytes", "shards"] = some s ∧
        setting s "capacity" word64? ({} : CacheConfig).capacity = some c.capacity ∧
        setting s "size_in_bytes" word64? ({} : CacheConfig).sizeInBytes = some c.sizeInBytes ∧
        setting s "shards" word64? ({} : CacheConfig).shards = some c.shards := by
  simp only [ofDocument?, Option.bind_eq_bind, Option.bind_eq_some_iff]
  constructor
  · rintro ⟨s, hs, capacity, hcapacity, size, hsize, shards, hshards, ⟨⟩⟩
    exact ⟨s, hs, hcapacity, hsize, hshards⟩
  · rintro ⟨s, hs, hcapacity, hsize, hshards⟩
    exact ⟨s, hs, _, hcapacity, _, hsize, _, hshards, rfl⟩

theorem InputConfig.ofDocument?_eq_some_iff {c : InputConfig} :
    ofDocument? d = some c ↔
      ∃ s, d.settings? ["base_messages_per_interval", "total_size_per_interval",
          "increase_factor"] = some s ∧
        setting s "base_messages_per_interval" word32? ({} : InputConfig).messages =
          some c.messages ∧
        setting s "total_size_per_interval" word64? ({} : InputConfig).totalSize =
          some c.totalSize ∧
        setting s "increase_factor" IncreaseConfig.ofDocument? ({} : InputConfig).increase =
          some c.increase := by
  simp only [ofDocument?, Option.bind_eq_bind, Option.bind_eq_some_iff]
  constructor
  · rintro ⟨s, hs, messages, hmessages, size, hsize, increase, hincrease, ⟨⟩⟩
    exact ⟨s, hs, hmessages, hsize, hincrease⟩
  · rintro ⟨s, hs, hmessages, hsize, hincrease⟩
    exact ⟨s, hs, _, hmessages, _, hsize, _, hincrease, rfl⟩

theorem BanConfig.ofDocument?_eq_some_iff {c : BanConfig} :
    ofDocument? d = some c ↔
      ∃ s, d.settings? ["threshold_num_messages_per_interval", "threshold_size_per_interval",
          "num_flooding_rounds", "peer_ban_duration_in_seconds"] = some s ∧
        setting s "threshold_num_messages_per_interval" word32? ({} : BanConfig).messages =
          some c.messages ∧
        setting s "threshold_size_per_interval" word64? ({} : BanConfig).size = some c.size ∧
        setting s "num_flooding_rounds" word32? ({} : BanConfig).rounds = some c.rounds ∧
        setting s "peer_ban_duration_in_seconds" word64? ({} : BanConfig).banSeconds =
          some c.banSeconds := by
  simp only [ofDocument?, Option.bind_eq_bind, Option.bind_eq_some_iff]
  constructor
  · rintro ⟨s, hs, messages, hmessages, size, hsize, rounds, hrounds, span, hspan, ⟨⟩⟩
    exact ⟨s, hs, hmessages, hsize, hrounds, hspan⟩
  · rintro ⟨s, hs, hmessages, hsize, hrounds, hspan⟩
    exact ⟨s, hs, _, hmessages, _, hsize, _, hrounds, _, hspan, rfl⟩

theorem TierConfig.ofDocument?_eq_some_iff {c : TierConfig} :
    ofDocument? d = some c ↔
      ∃ s, d.settings? ["interval_in_seconds", "reserved_percent", "peer_max_input",
          "black_list"] = some s ∧
        setting s "interval_in_seconds" word64? ({} : TierConfig).intervalSeconds =
          some c.intervalSeconds ∧
        setting s "reserved_percent" double? ({} : TierConfig).reservedPercent =
          some c.reservedPercent ∧
        setting s "peer_max_input" InputConfig.ofDocument? ({} : TierConfig).input =
          some c.input ∧
        setting s "black_list" BanConfig.ofDocument? ({} : TierConfig).ban = some c.ban := by
  simp only [ofDocument?, Option.bind_eq_bind, Option.bind_eq_some_iff]
  constructor
  · rintro ⟨s, hs, interval, hinterval, reserved, hreserved, input, hinput, ban, hban, ⟨⟩⟩
    exact ⟨s, hs, hinterval, hreserved, hinput, hban⟩
  · rintro ⟨s, hs, hinterval, hreserved, hinput, hban⟩
    exact ⟨s, hs, _, hinterval, _, hreserved, _, hinput, _, hban, rfl⟩

theorem TopicLimit.ofDocument?_eq_some_iff {l : TopicLimit} :
    ofDocument? d = some l ↔
      ∃ s, d.settings? ["topic", "num_messages_per_sec"] = some s ∧
        required s "topic" string? = some l.topic ∧
        required s "num_messages_per_sec" word32? = some l.messagesPerSecond := by
  simp only [ofDocument?, Option.bind_eq_bind, Option.bind_eq_some_iff]
  constructor
  · rintro ⟨s, hs, topic, htopic, messages, hmessages, ⟨⟩⟩
    exact ⟨s, hs, htopic, hmessages⟩
  · rintro ⟨s, hs, htopic, hmessages⟩
    exact ⟨s, hs, _, htopic, _, hmessages, rfl⟩

theorem TopicConfig.ofDocument?_eq_some_iff {c : TopicConfig} :
    ofDocument? d = some c ↔
      ∃ s, d.settings? ["default_max_messages_per_sec", "max_messages"] = some s ∧
        setting s "default_max_messages_per_sec" word32? ({} : TopicConfig).defaultLimit =
          some c.defaultLimit ∧
        setting s "max_messages" (list? TopicLimit.ofDocument?) ({} : TopicConfig).limits =
          some c.limits := by
  simp only [ofDocument?, Option.bind_eq_bind, Option.bind_eq_some_iff]
  constructor
  · rintro ⟨s, hs, limit, hlimit, limits, hlimits, ⟨⟩⟩
    exact ⟨s, hs, hlimit, hlimits⟩
  · rintro ⟨s, hs, hlimit, hlimits⟩
    exact ⟨s, hs, _, hlimit, _, hlimits, rfl⟩

theorem Config.ofDocument?_eq_some_iff {c : Config} :
    ofDocument? d = some c ↔
      ∃ s, d.settings? ["enabled", "cache", "fast_reacting", "slow_reacting", "out_of_specs",
          "topic"] = some s ∧
        setting s "enabled" boolean? production.enabled = some c.enabled ∧
        setting s "cache" CacheConfig.ofDocument? production.cache = some c.cache ∧
        (∀ speed : Speed, setting s speed.name TierConfig.ofDocument?
          (production.tiers.get speed) = some (c.tiers.get speed)) ∧
        setting s "topic" TopicConfig.ofDocument? production.topics = some c.topics := by
  simp only [ofDocument?, Option.bind_eq_bind, Option.bind_eq_some_iff]
  constructor
  · rintro ⟨s, hs, enabled, henabled, cache, hcache, fast, hfast, slow, hslow, out, hout, topics,
      htopics, ⟨⟩⟩
    refine ⟨s, hs, henabled, hcache, fun speed => ?_, htopics⟩
    cases speed
    · exact hfast
    · exact hslow
    · exact hout
  · rintro ⟨s, hs, henabled, hcache, htier, htopics⟩
    exact ⟨s, hs, _, henabled, _, hcache, _, htier .fast, _, htier .slow, _, htier .outOfSpecs, _,
      htopics, rfl⟩

theorem JournalConfig.ofDocument?_eq_some_iff {c : JournalConfig} :
    ofDocument? d = some c ↔
      ∃ s, d.settings? ["enabled", "cache_size", "interval_auto_print_in_seconds"] = some s ∧
        setting s "enabled" boolean? ({} : JournalConfig).enabled = some c.enabled ∧
        setting s "cache_size" word64? ({} : JournalConfig).capacity = some c.capacity ∧
        setting s "interval_auto_print_in_seconds" word64? ({} : JournalConfig).printSeconds =
          some c.printSeconds := by
  simp only [ofDocument?, Option.bind_eq_bind, Option.bind_eq_some_iff]
  constructor
  · rintro ⟨s, hs, enabled, henabled, capacity, hcapacity, print, hprint, ⟨⟩⟩
    exact ⟨s, hs, henabled, hcapacity, hprint⟩
  · rintro ⟨s, hs, henabled, hcapacity, hprint⟩
    exact ⟨s, hs, _, henabled, _, hcapacity, _, hprint, rfl⟩

theorem JournalConfig.ofSection?_eq_some_iff {c : JournalConfig} :
    ofSection? d = some c ↔
      ∃ s, d.settings? ["antiflood"] = some s ∧
        setting s "antiflood" JournalConfig.ofDocument? {} = some c := by
  simp only [ofSection?, Option.bind_eq_bind, Option.bind_eq_some_iff]

theorem NodeConfig.ofDocument?_eq_some_iff {c : NodeConfig} :
    ofDocument? d = some c ↔
      ∃ s, d.settings? ["node_name", "antiflood", "debug"] = some s ∧
        required s "node_name" string? = some c.name ∧
        setting s "antiflood" Config.ofDocument? .production = some c.protection ∧
        setting s "debug" JournalConfig.ofSection? {} = some c.journal := by
  simp only [ofDocument?, Option.bind_eq_bind, Option.bind_eq_some_iff]
  constructor
  · rintro ⟨s, hs, name, hname, protection, hprotection, journal, hjournal, ⟨⟩⟩
    exact ⟨s, hs, hname, hprotection, hjournal⟩
  · rintro ⟨s, hs, hname, hprotection, hjournal⟩
    exact ⟨s, hs, _, hname, _, hprotection, _, hjournal, rfl⟩

end Reading

/-! ### Documents -/

/-- The settings of the sizing. -/
def CacheConfig.entries (c : CacheConfig) : List (String × Document) :=
  [ ("capacity", .integer c.capacity.toNat), ("size_in_bytes", .integer c.sizeInBytes.toNat),
    ("shards", .integer c.shards.toNat) ]

/-- The settings of an increase. -/
def IncreaseConfig.entries (c : IncreaseConfig) : List (String × Document) :=
  [("threshold", .number c.threshold), ("factor", .number c.factor)]

/-- The settings of a budget, without those of its increase. -/
def InputConfig.values (c : InputConfig) : List (String × Document) :=
  [ ("base_messages_per_interval", .integer c.messages.toNat),
    ("total_size_per_interval", .integer c.totalSize.toNat) ]

/-- The settings of a budget. -/
def InputConfig.entries (c : InputConfig) : List (String × Document) :=
  c.values ++ [("increase_factor", .table c.increase.entries)]

/-- The rules of bans. -/
def BanConfig.entries (c : BanConfig) : List (String × Document) :=
  [ ("threshold_num_messages_per_interval", .integer c.messages.toNat),
    ("threshold_size_per_interval", .integer c.size.toNat),
    ("num_flooding_rounds", .integer c.rounds.toNat),
    ("peer_ban_duration_in_seconds", .integer c.banSeconds.toNat) ]

/-- The settings of a tier, without those of its sections. -/
def TierConfig.values (c : TierConfig) : List (String × Document) :=
  [ ("interval_in_seconds", .integer c.intervalSeconds.toNat),
    ("reserved_percent", .number c.reservedPercent) ]

/-- The settings of a tier. -/
def TierConfig.entries (c : TierConfig) : List (String × Document) :=
  c.values ++ [("peer_max_input", .table c.input.entries), ("black_list", .table c.ban.entries)]

/-- The settings of the limit of a topic. -/
def TopicLimit.entries (l : TopicLimit) : List (String × Document) :=
  [("topic", .string l.topic), ("num_messages_per_sec", .integer l.messagesPerSecond.toNat)]

/-- The settings of the limits of topics. -/
def TopicConfig.entries (c : TopicConfig) : List (String × Document) :=
  [ ("default_max_messages_per_sec", .integer c.defaultLimit.toNat),
    ("max_messages", .sequence (c.limits.map fun l => .table l.entries)) ]

/-- The settings of the protection. -/
def Config.entries (c : Config) : List (String × Document) :=
  ("enabled", .boolean c.enabled) :: ("cache", .table c.cache.entries) ::
    (c.tiers.toList.map fun t => (t.1.name, .table t.2.entries)) ++
    [("topic", .table c.topics.entries)]

/-- The settings of the journal. -/
def JournalConfig.entries (c : JournalConfig) : List (String × Document) :=
  [ ("enabled", .boolean c.enabled), ("cache_size", .integer c.capacity.toNat),
    ("interval_auto_print_in_seconds", .integer c.printSeconds.toNat) ]

/-- The document of a configuration. -/
def NodeConfig.document (c : NodeConfig) : Document :=
  .table [ ("node_name", .string c.name), ("antiflood", .table c.protection.entries),
    ("debug", .table [("antiflood", .table c.journal.entries)]) ]

/-! ### Sections read off their tables -/

section Tables

open Document

theorem CacheConfig.ofDocument?_entries (c : CacheConfig) :
    ofDocument? (.table c.entries) = some c :=
  ofDocument?_eq_some_iff.mpr ⟨_, rfl, word64?_toNat _, word64?_toNat _, word64?_toNat _⟩

theorem IncreaseConfig.ofDocument?_entries (c : IncreaseConfig) :
    ofDocument? (.table c.entries) = some c := rfl

theorem InputConfig.ofDocument?_entries (c : InputConfig) :
    ofDocument? (.table c.entries) = some c :=
  ofDocument?_eq_some_iff.mpr
    ⟨_, rfl, word32?_toNat _, word64?_toNat _, c.increase.ofDocument?_entries⟩

theorem BanConfig.ofDocument?_entries (c : BanConfig) :
    ofDocument? (.table c.entries) = some c :=
  ofDocument?_eq_some_iff.mpr
    ⟨_, rfl, word32?_toNat _, word64?_toNat _, word32?_toNat _, word64?_toNat _⟩

theorem TierConfig.ofDocument?_entries (c : TierConfig) :
    ofDocument? (.table c.entries) = some c :=
  ofDocument?_eq_some_iff.mpr
    ⟨_, rfl, word64?_toNat _, rfl, c.input.ofDocument?_entries, c.ban.ofDocument?_entries⟩

theorem TopicLimit.ofDocument?_entries (l : TopicLimit) :
    ofDocument? (.table l.entries) = some l := by
  have hmessages : Keyed.find "num_messages_per_sec" l.entries =
      some (.integer l.messagesPerSecond.toNat) := rfl
  refine ofDocument?_eq_some_iff.mpr ⟨_, rfl, rfl, ?_⟩
  rw [required, hmessages, Option.bind_some, word32?_toNat]

theorem TopicConfig.ofDocument?_entries (c : TopicConfig) :
    ofDocument? (.table c.entries) = some c := by
  have hlimits : (c.limits.map fun l => Document.table l.entries).mapM TopicLimit.ofDocument? =
      some c.limits := by
    induction c.limits with
    | nil => rfl
    | cons l ls ih => simp [TopicLimit.ofDocument?_entries, ih]
  exact ofDocument?_eq_some_iff.mpr ⟨_, rfl, word32?_toNat _, hlimits⟩

theorem Config.ofDocument?_entries (c : Config) : ofDocument? (.table c.entries) = some c := by
  refine ofDocument?_eq_some_iff.mpr
    ⟨_, rfl, rfl, c.cache.ofDocument?_entries, fun speed => ?_, c.topics.ofDocument?_entries⟩
  cases speed
  all_goals exact TierConfig.ofDocument?_entries _

theorem JournalConfig.ofDocument?_entries (c : JournalConfig) :
    ofDocument? (.table c.entries) = some c :=
  ofDocument?_eq_some_iff.mpr ⟨_, rfl, rfl, word64?_toNat _, word64?_toNat _⟩

/-- **A configuration is read off its document.** -/
theorem NodeConfig.ofDocument?_document (c : NodeConfig) : ofDocument? c.document = some c :=
  ofDocument?_eq_some_iff.mpr ⟨_, rfl, rfl, c.protection.ofDocument?_entries,
    JournalConfig.ofSection?_eq_some_iff.mpr ⟨_, rfl, c.journal.ofDocument?_entries⟩⟩

end Tables

end Floodgate
