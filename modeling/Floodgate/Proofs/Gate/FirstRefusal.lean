import Floodgate.Proofs.Cache.Lease
import Floodgate.Proofs.Gate.Pass
import Floodgate.Proofs.Tier.Budget
import Floodgate.Proofs.Topics.Load

/-! # The first refusal decides

A message of a peer that is not banned is held against the limit of its topic and then against the
tiers in order. `Gate.screen` is described by what each of them would decide alone
(`Gate.first_refusal_decides`): a topic at its limit leaves the whole gate as it is, the first tier
that refuses leaves the lanes behind it as they are, and a ban that a watch writes on the way
changes nothing for this message.

The counters of a topic stop at their largest values, so a topic whose limit is that value admits
messages that it no longer counts (`Gate.full_load_stays`). -/

namespace Floodgate

namespace Gate

variable (g : Gate) (now : Instant) (m : Message)

/-! ### The way to the lanes -/

theorem banned?_eq_none (unbanned : g.blacklist.has m.peer = false) : g.banned? m.peer = none := by
  rw [banned?, (Blacklist.get?_eq_none_iff _ _).mpr unbanned, Option.map_none]

theorem screen_topic_refused (unbanned : g.blacklist.has m.peer = false)
    (h : g.topics.limit m.topic < addCount (g.topics.load m.topic).messages 1) :
    g.screen now m = (g, .error (.topicFlood m.topic (g.topics.limit m.topic))) := by
  rw [screen, banned?_eq_none g m unbanned, Topics.increase_refused _ _ _ _ h]

theorem screen_topic_accepted (unbanned : g.blacklist.has m.peer = false)
    (h : addCount (g.topics.load m.topic).messages 1 ≤ g.topics.limit m.topic) :
    g.screen now m =
      ({ ledger := (Lane.pass now m g.lanes g.ledger).2.1
         topics :=
          { g.topics with
            loads :=
              g.topics.loads.insert m.topic
                ⟨addCount (g.topics.load m.topic).messages 1,
                  addSize (g.topics.load m.topic).size m.size⟩ }
         lanes := (Lane.pass now m g.lanes g.ledger).1 },
        (Lane.pass now m g.lanes g.ledger).2.2) := by
  rw [screen, banned?_eq_none g m unbanned, Topics.increase_accepted _ _ _ _ h]

/-- Behind lanes that admit a message, the verdict and the counters are those of the lanes that are
left, whatever has been banned on the way. -/
theorem screen_behind (unbanned : g.blacklist.has m.peer = false)
    (h : addCount (g.topics.load m.topic).messages 1 ≤ g.topics.limit m.topic)
    {before after : List Lane} (hlanes : g.lanes = before ++ after)
    (hbefore : ∀ l ∈ before, l.Admits m) (ledger : Ledger) :
    (g.screen now m).2 = (Lane.pass now m after ledger).2.2 ∧
      ((g.screen now m).1.lanes.drop before.length).map (·.tier) =
        (Lane.pass now m after ledger).1.map (·.tier) := by
  have hlength : (Lane.serve now m before g.ledger).1.length = before.length := by
    have htiers := congrArg List.length (Lane.serve_tiers now m before g.ledger)
    rwa [List.length_map, List.length_map] at htiers
  rw [screen_topic_accepted g now m unbanned h, hlanes, Lane.pass_append now m hbefore]
  obtain ⟨hverdict, htiers⟩ :=
    Lane.pass_ledger now m after (Lane.serve now m before g.ledger).2 ledger now
  refine ⟨hverdict, ?_⟩
  rw [← htiers, ← hlength, List.drop_left]

/-! ### The decision -/

/-- **The first refusal decides.** A message of a peer that is not banned is refused with the limit
of its topic, and nothing changes, if the topic has had that many messages. Otherwise its topic
counts one more message of its size, as far as the counters reach. If every tier, asked alone,
admits it, it is admitted; else the first tier that refuses it names itself and its reason. The
tiers up to there end as if each had been asked alone, and the lanes behind stay. What the lanes in
front of others write to the ledger is of no account to these. -/
theorem first_refusal_decides (unbanned : g.blacklist.has m.peer = false) :
    let limit := g.topics.limit m.topic
    let load := g.topics.load m.topic
    let next : Load := ⟨min (load.messages + 1) countLimit, min (load.size + m.size) sizeLimit⟩
    let g' := (g.screen now m).1
    let verdict := (g.screen now m).2
    (limit < next.messages → verdict = .error (.topicFlood m.topic limit) ∧ g' = g) ∧
    (next.messages ≤ limit →
      (∀ topic, g'.topics.load topic = if topic = m.topic then next else g.topics.load topic) ∧
      (∀ topic, g'.topics.limit topic = g.topics.limit topic) ∧
      ((∀ l ∈ g.lanes, l.Admits m) →
        verdict = .ok () ∧ g'.lanes.map (·.tier) = g.lanes.map fun l => (l.alone m).1) ∧
      (∀ before l after e, g.lanes = before ++ l :: after → (∀ x ∈ before, x.Admits m) →
        (l.alone m).2.2 = .rejected e →
          verdict = .error (.peerFlood l.speed.name e) ∧
          ∃ served, g'.lanes = served ++ after ∧
            served.map (·.tier) = (before ++ [l]).map fun l => (l.alone m).1) ∧
      ∀ before after, g.lanes = before ++ after → (∀ x ∈ before, x.Admits m) → ∀ ledger,
        verdict = (Lane.pass now m after ledger).2.2 ∧
        (g'.lanes.drop before.length).map (·.tier) =
          (Lane.pass now m after ledger).1.map (·.tier)) := by
  intro limit load next g' verdict
  constructor
  · intro hfull
    have hscreen := screen_topic_refused g now m unbanned hfull
    exact ⟨congrArg Prod.snd hscreen, congrArg Prod.fst hscreen⟩
  · intro hroom
    have hscreen := screen_topic_accepted g now m unbanned hroom
    have htopics := congrArg (fun r => r.1.topics) hscreen
    have hlanes := congrArg (fun r => r.1.lanes) hscreen
    have hverdict := congrArg Prod.snd hscreen
    refine ⟨fun topic => ?_, fun topic => ?_, fun hall => ?_, ?_, ?_⟩
    · rw [← Topics.load_insert]
      exact congrArg (·.load topic) htopics
    · exact congrArg (·.limit topic) htopics
    · have hpass := Lane.pass_admitted now m hall g.ledger
      refine ⟨hverdict.trans (congrArg (·.2.2) hpass), ?_⟩
      rw [← Lane.serve_tiers now m g.lanes g.ledger]
      exact congrArg (List.map (·.tier)) (hlanes.trans (congrArg Prod.fst hpass))
    · intro before l after e hsplit hbefore hl
      have hpass := Lane.pass_refused now m hbefore hl after g.ledger
      rw [← hsplit] at hpass
      exact ⟨hverdict.trans (congrArg (·.2.2) hpass), _,
        hlanes.trans (congrArg Prod.fst hpass), Lane.serve_tiers now m _ _⟩
    · intro before after hsplit hbefore ledger
      exact screen_behind g now m unbanned hroom hsplit hbefore ledger

/-- Settings by which every message completes a streak. -/
def hastyConfig : TierConfig :=
  { Config.production.tiers.fast with
    ban := { messages := 1, size := 1, rounds := 1, banSeconds := 60 } }

/-- A lane that bans whoever sends a message, and one of a narrow budget behind it. -/
def hasty : Gate :=
  new .unlimited
    [⟨.new (.ofConfig .fast hastyConfig {}), .new .fast hastyConfig.ban, {}⟩,
      ⟨.new (.ofConfig .slow Tier.narrowConfig {}), .new .slow Tier.narrowConfig.ban, {}⟩]

/-- A message above the narrow budget. -/
def largeMessage : Message := ⟨⟨[1]⟩, .normal, "t", 101⟩

/-- The ban that the first lane writes leaves the decision to the second. -/
theorem hasty_refuses_after_ban :
    hasty.blacklist.has largeMessage.peer = false ∧
      (hasty.screen 0 largeMessage).1.blacklist.has largeMessage.peer = true ∧
      (hasty.screen 0 largeMessage).2 =
        .error (.peerFlood Speed.slow.name (.messageSize 101 80)) ∧
      ∀ ledger, (hasty.screen 0 largeMessage).2 =
        (Lane.pass 0 largeMessage (hasty.lanes.drop 1) ledger).2.2 := by
  have hno : hasty.blacklist.has largeMessage.peer = false := rfl
  obtain ⟨-, -, -, hrefused, hbehind⟩ :=
    (first_refusal_decides hasty 0 largeMessage hno).2 (by decide +kernel)
  have hfirst : ∀ x ∈ hasty.lanes.take 1, x.Admits largeMessage := by
    intro x hx
    rw [List.mem_singleton.mp hx, Lane.Admits]
    decide +kernel
  have hsecond : (hasty.lanes[1].alone largeMessage).2.2 = .rejected (.messageSize 101 80) := by
    decide +kernel
  refine ⟨hno, by decide +kernel, ?_, fun ledger => ?_⟩
  · exact (hrefused (hasty.lanes.take 1) hasty.lanes[1] [] _ rfl hfirst hsecond).1
  · exact (hbehind _ _ (List.take_append_drop 1 hasty.lanes).symm hfirst ledger).1

/-- A gate whose topic has had as many messages as its counter can hold. -/
def full : Gate := (hasty.screenBatch ⟨[2]⟩ "t" countLimit 5).1

/-- A topic with the largest limit admits a message that its full counter does not count. -/
theorem full_load_stays :
    full.blacklist.has largeMessage.peer = false ∧
      (full.screen 0 { largeMessage with size := 1 }).2 = .ok () ∧
      ((full.screen 0 { largeMessage with size := 1 }).1.topics.load "t").messages = countLimit ∧
      (full.topics.load "t").messages + 1 ≠
        ((full.screen 0 { largeMessage with size := 1 }).1.topics.load "t").messages := by
  decide +kernel

end Gate

end Floodgate
