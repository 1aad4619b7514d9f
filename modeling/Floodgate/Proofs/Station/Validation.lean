import Floodgate.Node
import Floodgate.Proofs.Station.Build
import Mathlib.Tactic.SplitIfs

/-! # Validation and construction

Settings are checked as a whole before a station is built, and once more by each of its parts. A
part asks for nothing that the check of the whole has not made sure of (`Lane.make?_of_rules`,
`Topics.make?_of_rules`, `Journal.make?_of_validate`), so a station is built exactly if its settings
are valid, and what can go wrong is what the check reports
(`Station.build_agrees_with_validation`). -/

namespace Floodgate

/-! ### Rules -/

theorem Rule.check_ne_noRuntime (rs : List Rule) : Rule.check rs ≠ .error .noRuntime := by
  induction rs with
  | nil => exact fun h => by cases h
  | cons r rs ih =>
    rw [Rule.check]
    split_ifs
    · exact ih
    · exact fun h => by cases h

theorem upTo_eq_true_iff {n limit : Nat} : upTo n limit = true ↔ 1 ≤ n ∧ n ≤ limit := by
  rw [upTo, Bool.and_eq_true, decide_eq_true_iff, decide_eq_true_iff]

theorem Config.validate_of_enabled {c : Config} (enabled : c.enabled = true) :
    c.validate = Rule.check c.rules := if_pos enabled

theorem Config.validate_ne_noRuntime (c : Config) : c.validate ≠ .error .noRuntime := by
  rw [validate]
  split_ifs
  · exact Rule.check_ne_noRuntime _
  · exact fun h => by cases h

theorem JournalConfig.validate_ne_noRuntime (c : JournalConfig) :
    c.validate ≠ .error .noRuntime := by
  rw [validate]
  split_ifs
  · exact Rule.check_ne_noRuntime _
  · exact fun h => by cases h

theorem Config.check_rules_iff {c : Config} :
    Rule.check c.rules = .ok () ↔
      Rule.check c.cache.rules = .ok () ∧
        (∀ t ∈ c.tiers.toList, Rule.check (t.2.rules t.1) = .ok ()) ∧
        Rule.check c.topics.rules = .ok () := by
  simp only [Rule.check_eq_ok_iff, rules, List.mem_append, List.mem_flatMap]
  constructor
  · exact fun h => ⟨fun r hr => h r (.inl (.inl hr)),
      fun t ht r hr => h r (.inl (.inr ⟨t, ht, hr⟩)), fun r hr => h r (.inr hr)⟩
  · rintro ⟨hcache, htiers, htopics⟩ r ((hr | ⟨t, ht, hr⟩) | hr)
    · exact hcache r hr
    · exact htiers t ht r hr
    · exact htopics r hr

theorem mapM_eq_ok_of_forall {ε α β : Type} {f : α → Except ε β} {g : α → β} {as : List α}
    (h : ∀ a ∈ as, f a = .ok (g a)) : as.mapM f = .ok (as.map g) := by
  induction as with
  | nil => rfl
  | cons a as ih =>
    obtain ⟨ha, has⟩ := List.forall_mem_cons.mp h
    rw [List.mapM_cons, ha, ih has]
    rfl

/-! ### Parts -/

variable {speed : Speed} {t : TierConfig} {cache : CacheConfig}

theorem FloodWatch.make?_of_rules (h : Rule.check (t.rules speed) = .ok ()) :
    make? speed t.ban = .ok (new speed t.ban) := by
  have hrules : Rule.check (rules speed t.ban) = .ok () := by
    simp only [Rule.check_eq_ok_iff, TierConfig.rules, List.map_cons, List.map_nil,
      List.forall_mem_cons] at h
    obtain ⟨-, -, -, -, -, -, hmessages, hsize, hrounds, hspan, -⟩ := h
    simp only [Rule.check_eq_ok_iff, rules, List.forall_mem_cons]
    exact ⟨Bool.and_eq_true_iff.mpr ⟨hmessages, hsize⟩, hrounds, hspan, fun r hr => by cases hr⟩
  rw [make?, hrules]

theorem Tier.make?_of_rules (h : Rule.check (t.rules speed) = .ok ())
    (hcache : Rule.check cache.rules = .ok ()) :
    make? speed t cache = .ok (new (.ofConfig speed t cache)) := by
  have hrules : Rule.check (t.rules speed ++ cache.rules) = .ok () := by
    rw [Rule.check_eq_ok_iff] at h hcache ⊢
    exact List.forall_mem_append.mpr ⟨h, hcache⟩
  rw [make?, hrules]

/-- The lane that settings describe. -/
def Lane.ofConfig (speed : Speed) (t : TierConfig) (cache : CacheConfig) : Lane where
  tier := .new (.ofConfig speed t cache)
  watch := .new speed t.ban

theorem Lane.make?_of_rules (h : Rule.check (t.rules speed) = .ok ())
    (hcache : Rule.check cache.rules = .ok ()) :
    make? speed t cache = .ok (ofConfig speed t cache) := by
  rw [make?, FloodWatch.make?_of_rules h, Tier.make?_of_rules h hcache]
  rfl

theorem Topics.make?_of_rules {c : TopicConfig} (h : Rule.check c.rules = .ok ()) :
    make? c = .ok (new c) := by
  rw [make?, h]

theorem Journal.make?_of_validate {c : JournalConfig} (enabled : c.enabled = true)
    (h : c.validate = .ok ()) : make? c = .ok (new c) := by
  rw [JournalConfig.validate, if_pos enabled] at h
  rw [make?, h]

/-- The lanes that settings describe. -/
def Config.lanes (c : Config) : List Lane :=
  c.tiers.toList.map fun t => .ofConfig t.1 t.2 c.cache

/-- The journal that settings describe. -/
def JournalConfig.journal (c : JournalConfig) : Option Journal :=
  if c.enabled then some (.new c) else none

theorem NodeConfig.valid_of_load {file : Option ByteArray} {switches : Switches} {n : NodeConfig}
    (h : load file switches = .ok n) :
    n.protection.validate = .ok () ∧ n.journal.validate = .ok () := by
  obtain ⟨read, -, h⟩ := of_bind_eq_ok h
  obtain ⟨u, hcheck, h⟩ := of_bind_eq_ok h
  cases h
  unfold check at hcheck
  split at hcheck
  · cases hcheck
  · split at hcheck
    · cases hcheck
    · exact ⟨‹_›, ‹_›⟩

theorem NodeConfig.switched_default (c : NodeConfig) : c.switched {} = c := by
  simp [switched]

/-- Without switches a configuration that is valid is loaded as it is read. -/
theorem NodeConfig.load_of_ofFile {file : Option ByteArray} {c : NodeConfig}
    (hread : ofFile file = .ok c) (hcheck : c.check = .ok ()) : load file {} = .ok c := by
  rw [load, hread]
  show ((c.switched {}).check >>= fun _ => .ok (c.switched {})) = _
  rw [switched_default, hcheck]
  rfl

namespace Station

variable {c : Config} {j : JournalConfig} {f : Fault} {runtime : Bool}

theorem lanes?_of_rules (h : Rule.check c.rules = .ok ()) : lanes? c = .ok c.lanes := by
  obtain ⟨hcache, htiers, -⟩ := Config.check_rules_iff.mp h
  exact mapM_eq_ok_of_forall fun t ht => Lane.make?_of_rules (htiers t ht) hcache

/-- **Valid settings are built as far as there is something to run on.** -/
theorem build_of_valid (enabled : c.enabled = true) (hc : c.validate = .ok ())
    (hj : j.validate = .ok ()) (runtime : Bool) :
    build c j runtime =
      start (.new (.new c.topics) c.lanes) true [.peers, .keys] j.journal runtime := by
  rw [Config.validate_of_enabled enabled] at hc
  have hlanes : lanes? c = .ok c.lanes := lanes?_of_rules hc
  have htopics : Topics.make? c.topics = .ok (.new c.topics) :=
    Topics.make?_of_rules (Config.check_rules_iff.mp hc).2.2
  rw [build, if_pos enabled, Config.validate_of_enabled enabled, hc, hj, hlanes, htopics,
    JournalConfig.journal]
  cases hkept : j.enabled with
  | true =>
    simp only [if_true, Journal.make?_of_validate hkept hj]
    rfl
  | false => rfl

theorem build_of_invalid (enabled : c.enabled = true)
    (h : c.validate = .error f ∨ c.validate = .ok () ∧ j.validate = .error f) (runtime : Bool) :
    build c j runtime = .error f := by
  rcases h with hc | ⟨hc, hj⟩
  · rw [build, if_pos enabled, hc]
    rfl
  · rw [build, if_pos enabled, hc, hj]
    rfl

/-- **What becomes of settings**: they are turned off, or valid, or the first broken rule is
reported. -/
theorem build_cases (c : Config) (j : JournalConfig) (runtime : Bool) :
    (c.enabled = false ∧ build c j runtime = .ok disabled) ∨
      (c.enabled = true ∧ c.validate = .ok () ∧ j.validate = .ok () ∧
        build c j runtime =
          start (.new (.new c.topics) c.lanes) true [.peers, .keys] j.journal runtime) ∨
      ∃ f, c.enabled = true ∧
        (c.validate = .error f ∨ c.validate = .ok () ∧ j.validate = .error f) ∧
        build c j runtime = .error f := by
  cases enabled : c.enabled with
  | false => exact .inl ⟨rfl, by rw [build, enabled]; rfl⟩
  | true =>
    rcases hc : c.validate with f | u
    · exact .inr (.inr ⟨f, rfl, .inl rfl, build_of_invalid enabled (.inl hc) runtime⟩)
    · rcases hj : j.validate with f | u
      · exact .inr (.inr ⟨f, rfl, .inr ⟨rfl, rfl⟩,
          build_of_invalid enabled (.inr ⟨hc, hj⟩) runtime⟩)
      · exact .inr (.inl ⟨rfl, rfl, rfl, build_of_valid enabled hc hj runtime⟩)

/-! ### What the parts rely on -/

/-- The longest period of a loop. -/
def longestPeriod : Span := .ofSeconds Config.maxInterval

/-- Every loop does its job at least once a day and at most once a second, and every part that keeps
a number of things keeps one at least. -/
structure Sound (s : Station) : Prop where
  periods : ∀ l ∈ s.schedule.loops, Span.ofSeconds 1 ≤ l.period ∧ l.period ≤ longestPeriod
  capacities : ∀ l ∈ s.gate.lanes, 1 ≤ l.tier.policy.capacity
  kept : ∀ k ∈ s.journal, 1 ≤ k.capacity

theorem ofSeconds_between {n : Nat} (h : upTo n Config.maxInterval = true) :
    Span.ofSeconds 1 ≤ Span.ofSeconds n ∧ Span.ofSeconds n ≤ longestPeriod := by
  obtain ⟨hpos, hle⟩ := upTo_eq_true_iff.mp h
  exact ⟨Nat.mul_le_mul_right _ hpos, Nat.mul_le_mul_right _ hle⟩

theorem one_le_toNat {n : UInt64} (h : (n != 0) = true) : 1 ≤ n.toNat := by
  have hne : n ≠ 0 := by simpa using h
  exact Nat.pos_of_ne_zero fun hzero => hne (UInt64.toNat.inj hzero)

theorem one_le_capacityOf {cache : CacheConfig} (h : Rule.check cache.rules = .ok ()) :
    1 ≤ Policy.capacityOf cache := by
  rw [Rule.check_eq_ok_iff, CacheConfig.rules, List.forall_mem_cons] at h
  have hcapacity : 1 ≤ cache.capacity.toNat := one_le_toNat h.1
  rw [Policy.capacityOf]
  split_ifs
  · exact hcapacity
  · exact Nat.le_min.mpr ⟨hcapacity, Nat.le_max_left _ _⟩

theorem shards_of_rules {cache : CacheConfig} (h : Rule.check cache.rules = .ok ()) :
    ∃ k : Nat, 1 ≤ k ∧ cache.shards.toNat = 2 ^ k := by
  rw [Rule.check_eq_ok_iff, CacheConfig.rules, List.forall_mem_cons, List.forall_mem_cons] at h
  obtain ⟨htwo, hpower⟩ := Bool.and_eq_true_iff.mp h.2.1
  obtain ⟨k, hk⟩ := isPowerOfTwo_iff.mp hpower
  refine ⟨k, Nat.pos_of_ne_zero ?_, hk⟩
  rintro rfl
  exact absurd (hk ▸ of_decide_eq_true htwo : 2 ≤ 2 ^ 0) (by decide)

theorem period_cases {lanes : List Lane} {journal : Option Journal} {l : Loop Job} {start : Instant}
    (h : l ∈ (Schedule.start start (jobs lanes true [.peers, .keys] journal)).loops) :
    (∃ x ∈ lanes, l.period = x.tier.policy.interval) ∨ l.period = topicInterval ∨
      l.period = sweepInterval ∨ ∃ k ∈ journal, l.period = k.interval := by
  obtain ⟨⟨job, period⟩, hjob, rfl⟩ := List.mem_map.mp h
  simp only [jobs, List.mem_append, List.mem_map, Option.mem_toList] at hjob
  rcases hjob with ((⟨⟨x, i⟩, hx, hp⟩ | hp) | hp) | ⟨k, hk, hp⟩
  · cases hp
    exact .inl ⟨x, List.fst_mem_of_mem_zipIdx hx, rfl⟩
  · cases List.mem_singleton.mp hp
    exact .inr (.inl rfl)
  · cases List.mem_singleton.mp hp
    exact .inr (.inr (.inl rfl))
  · cases hp
    exact .inr (.inr (.inr ⟨k, hk, rfl⟩))

/-- **A station of valid settings is sound.** -/
theorem sound_of_valid (enabled : c.enabled = true) (hc : c.validate = .ok ())
    (hj : j.validate = .ok ()) {s : Station}
    (hs : start (.new (.new c.topics) c.lanes) true [.peers, .keys] j.journal true = .ok s) :
    s.Sound := by
  rw [Config.validate_of_enabled enabled] at hc
  obtain ⟨hcache, htiers, -⟩ := Config.check_rules_iff.mp hc
  have hjournal : ∀ k ∈ j.journal, Rule.check j.rules = .ok () ∧ k = .new j := by
    intro k hk
    rw [JournalConfig.journal] at hk
    split_ifs at hk with hon
    · rw [JournalConfig.validate, if_pos hon] at hj
      exact ⟨hj, (Option.some.inj hk).symm⟩
    · cases hk
  cases hs
  refine ⟨fun l hl => ?_, fun l hl => ?_, fun k hk => ?_⟩
  · rcases period_cases hl with ⟨x, hx, hp⟩ | hp | hp | ⟨k, hk, hp⟩
    · obtain ⟨t, ht, rfl⟩ := List.mem_map.mp hx
      have hinterval := htiers t ht
      rw [Rule.check_eq_ok_iff, TierConfig.rules, List.map_cons, List.forall_mem_cons] at hinterval
      rw [hp]
      exact ofSeconds_between hinterval.1
    · rw [hp]
      exact ofSeconds_between (n := 1) (by decide)
    · rw [hp]
      exact ofSeconds_between (n := 5) (by decide)
    · obtain ⟨hrules, rfl⟩ := hjournal k hk
      rw [Rule.check_eq_ok_iff, JournalConfig.rules, List.forall_mem_cons,
        List.forall_mem_cons] at hrules
      rw [hp]
      exact ofSeconds_between hrules.2.1
  · obtain ⟨t, -, rfl⟩ := List.mem_map.mp hl
    exact one_le_capacityOf hcache
  · obtain ⟨hrules, rfl⟩ := hjournal k hk
    rw [Rule.check_eq_ok_iff, JournalConfig.rules, List.forall_mem_cons] at hrules
    exact one_le_toNat hrules.1

/-! ### Validation and construction -/

theorem exists_build_iff (c : Config) (j : JournalConfig) :
    (∃ s, build c j true = .ok s) ↔
      c.enabled = false ∨ c.validate = .ok () ∧ j.validate = .ok () := by
  rcases build_cases c j true with ⟨hoff, h⟩ | ⟨-, hc, hj, h⟩ | ⟨f, enabled, hf, h⟩
  · exact iff_of_true ⟨_, h⟩ (.inl hoff)
  · exact iff_of_true ⟨_, h⟩ (.inr ⟨hc, hj⟩)
  · refine iff_of_false (fun ⟨s, hs⟩ => by cases h.symm.trans hs) ?_
    rintro (hoff | ⟨hc, hj⟩)
    · cases hoff.symm.trans enabled
    · rcases hf with hf | ⟨-, hf⟩
      · cases hf.symm.trans hc
      · cases hf.symm.trans hj

theorem error_of_build_iff (c : Config) (j : JournalConfig) (f : Fault) :
    build c j true = .error f ↔
      c.enabled = true ∧
        (c.validate = .error f ∨ c.validate = .ok () ∧ j.validate = .error f) := by
  refine ⟨fun hf => ?_, fun ⟨enabled, hf⟩ => build_of_invalid enabled hf true⟩
  rcases build_cases c j true with ⟨-, h⟩ | ⟨-, -, -, h⟩ | ⟨f', enabled, hf', h⟩
  · cases h.symm.trans hf
  · cases h.symm.trans hf
  · cases h.symm.trans hf
    exact ⟨enabled, hf'⟩

theorem noRuntime_of_build_iff (c : Config) (j : JournalConfig) :
    build c j false = .error .noRuntime ↔
      c.enabled = true ∧ (c.enabled = false ∨ c.validate = .ok () ∧ j.validate = .ok ()) := by
  rcases build_cases c j false with ⟨hoff, h⟩ | ⟨enabled, hc, hj, h⟩ | ⟨f, enabled, hf, h⟩
  · refine iff_of_false (fun hs => by cases h.symm.trans hs) fun hon => ?_
    cases hoff.symm.trans hon.1
  · exact iff_of_true h ⟨enabled, .inr ⟨hc, hj⟩⟩
  · have hfault : f ≠ .noRuntime := by
      rintro rfl
      rcases hf with hf | ⟨-, hf⟩
      · exact Config.validate_ne_noRuntime c hf
      · exact JournalConfig.validate_ne_noRuntime j hf
    refine iff_of_false (fun hs => hfault (Except.error.inj (h.symm.trans hs))) ?_
    rintro ⟨-, hoff | ⟨hc, hj⟩⟩
    · cases hoff.symm.trans enabled
    · rcases hf with hf | ⟨-, hf⟩
      · cases hf.symm.trans hc
      · cases hf.symm.trans hj

theorem sound_disabled : disabled.Sound :=
  ⟨fun _ hl => absurd hl List.not_mem_nil, fun _ hl => absurd hl List.not_mem_nil,
    fun k hk => by cases hk⟩

/-- **Validation and construction agree.** With something to run on, a station is built exactly if
its protection is turned off or the settings of the protection and of the journal are valid, and
otherwise the first broken rule is reported, those of the protection before those of the journal.
Without anything to run on, that is what is missing exactly if the protection is turned on and a
station would have been built. No part refuses settings that are valid: neither a watch, a tier or a
lane, nor the topics, the gate or the journal; every loop has a period between one second and one
day, whatever keeps a number of things keeps one at least, and records are divided into a power of
two of parts, two at least. So whatever configuration of a node is loaded, its station is built. -/
theorem build_agrees_with_validation (c : Config) (j : JournalConfig) :
    ((∃ s, build c j true = .ok s) ↔
        c.enabled = false ∨ c.validate = .ok () ∧ j.validate = .ok ()) ∧
      (∀ f, build c j true = .error f ↔
        c.enabled = true ∧
          (c.validate = .error f ∨ c.validate = .ok () ∧ j.validate = .error f)) ∧
      (build c j false = .error .noRuntime ↔
        c.enabled = true ∧ ∃ s, build c j true = .ok s) ∧
      (c.enabled = true → c.validate = .ok () →
        (∀ t ∈ c.tiers.toList, (∃ w, FloodWatch.make? t.1 t.2.ban = .ok w) ∧
          (∃ tier, Tier.make? t.1 t.2 c.cache = .ok tier) ∧
          ∃ l, Lane.make? t.1 t.2 c.cache = .ok l) ∧
        (∃ topics, Topics.make? c.topics = .ok topics) ∧
        (∃ lanes, lanes? c = .ok lanes ∧ ∀ topics, ∃ g, Gate.make? topics lanes = .ok g) ∧
        ∃ k : Nat, 1 ≤ k ∧ c.cache.shards.toNat = 2 ^ k) ∧
      (j.enabled = true → j.validate = .ok () → ∃ k, Journal.make? j = .ok k) ∧
      (∀ s, build c j true = .ok s → s.Sound) ∧
      ∀ file switches n, NodeConfig.load file switches = .ok n →
        ∃ s, build n.protection n.journal true = .ok s := by
  have hbuilds : (∃ s, build c j true = .ok s) ↔
      c.enabled = false ∨ c.validate = .ok () ∧ j.validate = .ok () :=
    exists_build_iff c j
  refine ⟨hbuilds, error_of_build_iff c j, ?_, fun enabled hc => ?_, fun enabled hj => ?_,
    fun s hs => ?_, fun file switches n hload => ?_⟩
  · rw [noRuntime_of_build_iff, hbuilds]
  · rw [Config.validate_of_enabled enabled] at hc
    obtain ⟨hcache, htiers, htopics⟩ := Config.check_rules_iff.mp hc
    refine ⟨fun t ht => ⟨⟨_, FloodWatch.make?_of_rules (htiers t ht)⟩,
        ⟨_, Tier.make?_of_rules (htiers t ht) hcache⟩,
        ⟨_, Lane.make?_of_rules (htiers t ht) hcache⟩⟩,
      ⟨_, Topics.make?_of_rules htopics⟩, ⟨c.lanes, lanes?_of_rules hc, fun topics => ⟨_, rfl⟩⟩,
      shards_of_rules hcache⟩
  · exact ⟨_, Journal.make?_of_validate enabled hj⟩
  · rcases build_cases c j true with ⟨-, h⟩ | ⟨enabled, hc, hj, h⟩ | ⟨f, -, -, h⟩
    · cases h.symm.trans hs
      exact sound_disabled
    · exact sound_of_valid enabled hc hj (h.symm.trans hs)
    · cases h.symm.trans hs
  · exact (exists_build_iff _ _).mpr (.inr (NodeConfig.valid_of_load hload))

/-- Settings of production without room for peers, turned on or off. -/
def roomless (enabled : Bool) : Config :=
  { Config.production with enabled := enabled, cache := { capacity := 0 } }

/-- A journal without room for pairs. -/
def pairless : JournalConfig := { enabled := true, capacity := 0 }

/-- The station for production is sound and needs something to run on; of two broken rules the one
of the protection is reported, and that of the journal only if there is no other. -/
theorem production_agrees_with_validation :
    build .production {} true = .ok production ∧ production.Sound ∧
      build .production {} false = .error .noRuntime ∧
      build (roomless true) pairless true = .error ConfigFault.cacheCapacity.fault ∧
      build .production pairless true = .error ConfigFault.journalCapacity.fault ∧
      (∃ s, build (roomless false) pairless true = .ok s) ∧
      NodeConfig.load none {} = .ok .standard ∧
      ∃ s, build NodeConfig.standard.protection NodeConfig.standard.journal true = .ok s := by
  have hproduction : Config.production.validate = .ok () :=
    (Config.validate_of_enabled rfl).trans (Rule.check_eq_ok_iff.mpr (by decide +kernel))
  have hload : NodeConfig.load none {} = .ok .standard := by
    have hcheck : NodeConfig.standard.check = .ok () := by
      rw [NodeConfig.check, NodeConfig.standard, hproduction]
      rfl
    exact NodeConfig.load_of_ofFile rfl hcheck
  have hroomless : (roomless true).validate = .error ConfigFault.cacheCapacity.fault := rfl
  have hpairless : pairless.validate = .error ConfigFault.journalCapacity.fault := rfl
  obtain ⟨-, -, hruntime, -, -, hsound, hnode⟩ := build_agrees_with_validation .production {}
  refine ⟨build_production, hsound _ build_production,
    hruntime.mpr ⟨rfl, production, build_production⟩, ?_, ?_, ?_, hload, hnode none {} _ hload⟩
  · exact ((build_agrees_with_validation _ _).2.1 _).mpr ⟨rfl, .inl hroomless⟩
  · exact ((build_agrees_with_validation _ _).2.1 _).mpr ⟨rfl, .inr ⟨hproduction, hpairless⟩⟩
  · exact (build_agrees_with_validation _ _).1.mpr (.inl rfl)

end Station

end Floodgate
