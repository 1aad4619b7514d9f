import Floodgate.Proofs.Gate.FirstBan
import Floodgate.Proofs.Station.DenialEnds
import Floodgate.Proofs.Station.Terms

/-! # The quota path bans once

Messages, reports and the ends of intervals make up the quota path. They write to the blacklist the
bans that the watches issue (`Station.meet_blacklist`), and a watch bans nobody who is banned
already (`Station.new_of_mem_bans`), so a ban that is there stays as it is. A message of a peer that
is not banned leads to the ban of the first lane that it reaches and at which it completes a streak,
on the terms that the settings have for the speed of that lane
(`Station.quota_path_bans_once`). -/

namespace Floodgate

namespace Incident

/-- Is an incident on the quota path? Bans by hand, sweeps and the clock are not. -/
def isOnQuotaPath : Incident → Bool
  | .moment (.event (.operation o)) =>
    match o with
    | .screen _ | .screenBatch .. | .consumeAt .. | .resetTopic _ | .setLimit .. | .setObserver _
    | .perform (.resetLane _) | .perform .resetTopics | .perform .print => true
    | .ban .. | .deny .. | .perform .sweep | .visit _ | .advance _ | .jump _ | .cancel => false
  | .report .. | .addExcess .. | .endWatch _ | .resetRegistered | .resetUnregistered
  | .note _ => true
  | .moment (.event (.enter ..)) | .moment (.event (.lift _)) | .moment (.lapse _) | .enterKey ..
  | .extendKey .. | .liftKey _ | .liftKeys => false

end Incident

theorem Gate.new_of_mem_reportSentence {g : Gate} {now : Instant} {i : Nat} {peer : PeerId}
    {q : Quota} {a : Admission} {x : Sentence} (hx : x ∈ g.reportSentence now i peer q a) :
    g.blacklist.has x.peer = false := by
  unfold reportSentence at hx
  split at hx
  · exact absurd hx List.not_mem_nil
  · obtain ⟨entry, hentry, rfl⟩ := Option.map_eq_some_iff.mp (Option.mem_toList.mp hx)
    obtain ⟨hnews, -, -⟩ := FloodWatch.of_report_eq_some hentry
    simp only [FloodWatch.isNews, Bool.and_eq_true, Bool.not_eq_true'] at hnews
    exact hnews.1.2

namespace Station

variable {s : Station} {c : Config} {i : Incident} {peer : PeerId} {l : Lease Ban}

/-! ### Stations of settings -/

/-- The protection of a station is turned on, and its lanes are set to what settings say. -/
structure Manned (c : Config) (s : Station) : Prop where
  enabled : s.enabled = true
  terms : s.gate.terms =
    Speed.all.map fun speed => ⟨speed, speed, (c.tiers.get speed).ban.banSpan⟩

theorem manned_build {journal : JournalConfig} {runtime : Bool}
    (hs : build c journal runtime = .ok s) (enabled : c.enabled = true) : s.Manned c := by
  obtain ⟨lanes, topics, kept, -, hlanes, -, hstart⟩ := of_build hs enabled
  obtain ⟨-, hon, -, hgate, -⟩ := of_start hstart
  refine ⟨hon, ?_⟩
  have hterms : lanes.map Lane.terms =
      c.tiers.toList.map fun t => ⟨t.1, t.1, t.2.ban.banSpan⟩ :=
    map_of_mapM_eq_ok (fun t l hl => Lane.terms_of_make? hl) hlanes
  rw [hgate]
  refine hterms.trans ?_
  rw [PerSpeed.toList, List.map_map]
  rfl

theorem steady_manned (c : Config) : Steady (Manned c) :=
  fun _ _ _ _ _ _ _ _ hterms h => ⟨h.enabled, hterms.trans h.terms⟩

theorem Manned.sweep (h : s.Manned c) : s.sweep.Manned c := by
  have hvisited : (s.visitAll s.sweepers).1.Manned c := by
    refine visitAll_keeps (fun s' w h' => ?_) h s.sweepers
    cases w with
    | peers => exact ⟨h'.enabled, h'.terms⟩
    | keys => exact ⟨h'.enabled, h'.terms⟩
    | outside visits fails => exact h'
  exact ⟨hvisited.enabled, hvisited.terms⟩

/-- **No incident turns the protection off or changes the terms of the lanes.** -/
theorem Manned.meet (h : s.Manned c) (i : Incident) : (s.meet i).Manned c :=
  (steady_manned c).meet (fun _ h => h.sweep) h i

theorem Manned.through (h : s.Manned c) (is : List Incident) : (s.through is).Manned c :=
  through_keeps (fun _ i h => h.meet i) h is

theorem Manned.lane (h : s.Manned c) {k : Nat} {speed : Speed}
    (hspeed : Speed.all[k]? = some speed) :
    ∃ l, s.gate.lanes[k]? = some l ∧ l.speed = speed ∧ l.watch.origin = speed ∧
      l.watch.banSpan = (c.tiers.get speed).ban.banSpan := by
  have hterms := congrArg (·[k]?) h.terms
  rw [Gate.terms, List.getElem?_map, List.getElem?_map, hspeed, Option.map_some] at hterms
  obtain ⟨l, hl, hlane⟩ := Option.map_eq_some_iff.mp hterms
  exact ⟨l, hl, congrArg Lane.Terms.speed hlane, congrArg Lane.Terms.origin hlane,
    congrArg Lane.Terms.banSpan hlane⟩

/-! ### A ban that is there -/

/-- **The quota path writes the bans that it issues to the blacklist, and no others.** -/
theorem meet_blacklist (enabled : s.enabled = true) (hi : i.isOnQuotaPath = true) :
    (s.meet i).gate.blacklist = s.gate.blacklist.impose (s.bans i) := by
  have hsaid : ∀ o : Operation, o.isForeground = true →
      (s.apply o).gate.blacklist = s.gate.blacklist.impose (s.sentences o) := by
    intro o ho
    obtain ⟨gate, keys, journal, observer, recorded, happly, hblacklist⟩ :=
      apply_foreground enabled ho
    rw [happly]
    exact hblacklist
  cases i with
  | moment m =>
    cases m with
    | event e =>
      cases e with
      | operation o =>
        cases hkind : o.isForeground with
        | true => exact hsaid o hkind
        | false =>
          cases o with
          | perform j =>
            cases j with
            | resetLane k => exact Gate.resetLane_blacklist s.gate k
            | resetTopics => rfl
            | print => rfl
            | sweep => cases hi
          | visit w => cases hi
          | advance span => cases hi
          | jump span => cases hi
          | cancel => cases hi
          | _ => cases hkind
      | _ => cases hi
    | lapse span => cases hi
  | report k p q a => exact Gate.reportAt_blacklist s.gate s.now k p q a
  | addExcess k p q => rfl
  | endWatch k => rfl
  | resetRegistered => rfl
  | resetUnregistered => rfl
  | note d => rfl
  | _ => cases hi

theorem new_of_mem_bans (hi : i.isOnQuotaPath = true) {x : Sentence} (hx : x ∈ s.bans i) :
    s.gate.blacklist.has x.peer = false := by
  cases i with
  | moment m =>
    cases m with
    | event e =>
      cases e with
      | operation o =>
        have hspares : (Event.operation o).Spares x.peer := by
          cases o with
          | perform j => cases j <;> first | exact Job.noConfusion | cases hi
          | _ => first | exact trivial | cases hi
        refine eq_false_of_ne_true fun hbanned => ?_
        exact peer_ne_of_mem_sentences hx hspares hbanned rfl
      | _ => cases hi
    | lapse span => cases hi
  | report k p q a => exact Gate.new_of_mem_reportSentence hx
  | _ => exact absurd hx List.not_mem_nil

/-- **A ban that is there stays as it is on the quota path.** -/
theorem lease?_meet (enabled : s.enabled = true) (hi : i.isOnQuotaPath = true)
    (hl : s.lease? peer = some l) : (s.meet i).lease? peer = some l := by
  have hbanned : s.gate.blacklist.has peer = true := by
    show (s.lease? peer).isSome = true
    rw [hl]
    rfl
  have hothers : ∀ x ∈ s.bans i, x.peer ≠ peer := by
    rintro x hx rfl
    exact Bool.noConfusion (hbanned.symm.trans (new_of_mem_bans hi hx))
  show (s.meet i).gate.blacklist.lease? peer = some l
  rw [meet_blacklist enabled hi, Blacklist.lease?_impose_of_ne hothers]
  exact hl

theorem Manned.lease?_through (h : s.Manned c) (hl : s.lease? peer = some l) {is : List Incident}
    (his : ∀ i ∈ is, i.isOnQuotaPath = true) : (s.through is).lease? peer = some l := by
  induction is generalizing s with
  | nil => exact hl
  | cons i is ih =>
    obtain ⟨hi, his⟩ := List.forall_mem_cons.mp his
    exact ih (h.meet i) (lease?_meet h.enabled hi hl) his

/-! ### The ban of a new peer -/

theorem screen_gate (enabled : s.enabled = true) (m : Message) :
    (s.screen m).1.gate = (s.gate.screen s.now m).1 := by
  rw [screen_eq enabled, notify_gate]

/-- **The quota path bans once and never rewrites a ban.** In every run of a station of enabled
settings, whatever is done to its parts by hand: a peer that is banned keeps its ban, with the
reason, the name, the time and the span, through everything that happens on the quota path. A
message of a peer that is not banned changes no other peer's ban; if it completes no streak in a
lane that it reaches, nobody is banned, and otherwise its peer is banned now, on the terms of the
first such lane: under the name of its speed and for the span that the settings have for that
speed. -/
theorem quota_path_bans_once {journal : JournalConfig} {runtime : Bool}
    (hs : build c journal runtime = .ok s) (enabled : c.enabled = true) (is : List Incident) :
    let s' := s.through is
    (∀ peer l, s'.lease? peer = some l → ∀ path : List Incident,
      (∀ i ∈ path, i.isOnQuotaPath = true) → (s'.through path).lease? peer = some l) ∧
    ∀ m, s'.gate.blacklist.has m.peer = false →
      (∀ peer, peer ≠ m.peer → (s'.screen m).1.lease? peer = s'.lease? peer) ∧
      ((∀ i, ¬s'.gate.Completes m i) → (s'.screen m).1.gate.blacklist = s'.gate.blacklist) ∧
      ∀ i speed, Speed.all[i]? = some speed → s'.gate.Completes m i →
        (∀ j < i, ¬s'.gate.Completes m j) →
          ∃ l, s'.gate.lanes[i]? = some l ∧ l.speed = speed ∧
            (s'.screen m).1.lease? m.peer =
              some ⟨s'.now, (c.tiers.get speed).ban.banSpan,
                ⟨s!"flooding for {(l.watch.streakOf m.peer).rounds + 1} consecutive rounds",
                  speed.name⟩⟩ := by
  intro s'
  have hmanned : s'.Manned c := (manned_build hs enabled).through is
  refine ⟨fun peer l hl path hpath => hmanned.lease?_through hl hpath, fun m unbanned => ?_⟩
  have hgate := screen_gate hmanned.enabled m
  refine ⟨fun peer hne => ?_, fun hnone => ?_, fun i speed hspeed hc hbefore => ?_⟩
  · show (s'.screen m).1.gate.blacklist.lease? peer = _
    rw [hgate]
    exact Gate.lease?_screen_of_ne hne
  · rw [hgate]
    exact Gate.screen_blacklist_of_none unbanned hnone
  · obtain ⟨l, hl, hlspeed, horigin, hspan⟩ := hmanned.lane hspeed
    refine ⟨l, hl, hlspeed, ?_⟩
    show (s'.screen m).1.gate.blacklist.lease? m.peer = _
    rw [hgate, Gate.lease?_screen_of_first hl hc hbefore, hspan, FloodWatch.verdict, horigin]

/-! ### Two watches that would ban -/

/-- The settings for production, but the watches of the last two tiers ban for one message. -/
def severeConfig : Config :=
  let tiers := Config.production.tiers
  { Config.production with
    tiers :=
      { tiers with
        slow :=
          { tiers.slow with ban := { messages := 1, size := 1, rounds := 1, banSeconds := 300 } }
        outOfSpecs :=
          { tiers.outOfSpecs with
            ban := { messages := 1, size := 1, rounds := 1, banSeconds := 3600 } } } }

/-- The station of these settings. -/
def severe : Station :=
  match build severeConfig {} true with
  | .ok s => s
  | .error _ => disabled

theorem build_severe : build severeConfig {} true = .ok severe := by
  have hok : (build severeConfig {} true).isOk = true := by decide +kernel
  unfold severe
  cases h : build severeConfig {} true with
  | ok s => rfl
  | error f =>
    rw [h] at hok
    cases hok

/-- The first message of a peer. -/
def greeting : Message := ⟨⟨[1]⟩, .normal, "t", 100⟩

/-- The peer goes on, the watch of the last tier is told of it, intervals end, and somebody else is
banned. -/
def aftermath : List Incident :=
  [.moment (.event (.operation (.screen greeting))), .report 2 ⟨[1]⟩ { received := 5 } .admitted,
    .moment (.event (.operation (.perform (.resetLane 1)))),
    .moment (.event (.operation (.screen ⟨⟨[2]⟩, .normal, "t", 100⟩))),
    .report 2 ⟨[1]⟩ { received := 5 } .admitted, .moment (.event (.operation (.perform .print)))]

/-- Two watches would ban the peer for its greeting. The first of them does, and the ban stays as it
is. -/
theorem severe_bans_once :
    let ban : Lease Ban :=
      ⟨0, .ofSeconds 300, ⟨"flooding for 1 consecutive rounds", Speed.slow.name⟩⟩
    build severeConfig {} true = .ok severe ∧
      severe.gate.blacklist.has greeting.peer = false ∧
      severe.gate.Completes greeting 1 ∧ severe.gate.Completes greeting 2 ∧
      (severe.screen greeting).1.lease? ⟨[1]⟩ = some ban ∧
      ((severe.through (aftermath.take 1)).through aftermath).lease? ⟨[1]⟩ = some ban := by
  intro ban
  have hnew : severe.gate.blacklist.has greeting.peer = false := by decide +kernel
  have hslow : severe.gate.Completes greeting 1 := by decide +kernel
  have hfast : ∀ j < 1, ¬severe.gate.Completes greeting j := by decide +kernel
  have honce := quota_path_bans_once build_severe rfl []
  have hstart : severe.through [] = severe := List.foldl_nil
  rw [hstart] at honce
  obtain ⟨-, -, hfirst⟩ := honce.2 greeting hnew
  obtain ⟨l, hl, -, hban⟩ := hfirst 1 .slow rfl hslow hfast
  have hnoStreak : (l.watch.streakOf greeting.peer).rounds = 0 := by
    have hall : ∀ l ∈ severe.gate.lanes[1]?, (l.watch.streakOf greeting.peer).rounds = 0 := by
      decide +kernel
    exact hall l hl
  have hnow : severe.now = 0 := by decide +kernel
  have hspan : (severeConfig.tiers.get .slow).ban.banSpan = .ofSeconds 300 := by decide +kernel
  rw [hnoStreak, hnow, hspan] at hban
  have hscreened : ∀ s : Station, s.through (aftermath.take 1) = (s.screen greeting).1 :=
    fun _ => rfl
  have hbanned : (severe.through (aftermath.take 1)).lease? ⟨[1]⟩ = some ban := by
    rw [hscreened]
    exact hban
  have hstays := (quota_path_bans_once build_severe rfl (aftermath.take 1)).1 ⟨[1]⟩ ban hbanned
    aftermath (by decide)
  exact ⟨build_severe, hnew, hslow, by decide +kernel, hban, hstays⟩

end Station

end Floodgate
