import Floodgate.Proofs.Cache.Lease
import Floodgate.Proofs.Station.Build
import Floodgate.Proofs.Station.Operation

/-! # A ban holds until it runs out

However often a peer is banned again, for a shorter or a longer span, the lease of its ban runs at
least to the end of each ban that has been issued, and carries the reason of the last one. This is
the invariant `Upheld`: a ban refreshes the lease and keeps the longer span, a sweep drops only what
has run out, and nothing else shortens a lease. A banned peer is refused before anything is counted
(`Station.ban_holds`). -/

namespace Floodgate

/-- The last of the bans of a peer. -/
def latest (peer : PeerId) (xs : List Sentence) : Option Sentence :=
  xs.reverse.find? fun x => x.peer = peer

theorem latest_append (peer : PeerId) (xs : List Sentence) (x : Sentence) :
    latest peer (xs ++ [x]) = if x.peer = peer then some x else latest peer xs := by
  simp only [latest, List.reverse_append, List.reverse_singleton, List.singleton_append,
    List.find?_cons]
  by_cases h : x.peer = peer <;> simp [h]

/-- A blacklist upholds the bans that have been issued. -/
structure Upheld (now : Instant) (b : Blacklist) (xs : List Sentence) : Prop where
  past : ∀ x ∈ xs, x.issuedAt ≤ now
  /-- A lease carries the last ban of its peer. -/
  latest : ∀ peer l, b.lease? peer = some l → (latest peer xs).map (·.ban) = some l.value
  /-- A ban that has not run out has a lease that does not run out before it. -/
  served : ∀ x ∈ xs, now < x.issuedAt + x.span →
    ∃ l, b.lease? x.peer = some l ∧ x.issuedAt ≤ l.refreshedAt ∧ x.span ≤ l.span

namespace Upheld

variable {now : Instant} {b : Blacklist} {xs : List Sentence}

theorem start (now : Instant) : Upheld now .empty [] where
  past x hx := absurd hx List.not_mem_nil
  latest peer l hl := by cases hl
  served x hx := absurd hx List.not_mem_nil

theorem later (h : Upheld now b xs) {now' : Instant} (hle : now ≤ now') : Upheld now' b xs where
  past x hx := (h.past x hx).trans hle
  latest := h.latest
  served x hx hlt := h.served x hx (hle.trans_lt hlt)

/-- A sweep drops the leases that have run out, and these have served their bans. -/
theorem sweep (h : Upheld now b xs) : Upheld now (b.sweep now) xs where
  past := h.past
  latest peer l hl := by
    rw [Blacklist.lease?_sweep] at hl
    exact h.latest peer l (Option.filter_eq_some_iff.mp hl).1
  served x hx hlt := by
    obtain ⟨l, hl, hissued, hspan⟩ := h.served x hx hlt
    have hruns : now < l.refreshedAt + l.span := hlt.trans_le (Nat.add_le_add hissued hspan)
    refine ⟨l, ?_, hissued, hspan⟩
    rw [Blacklist.lease?_sweep, hl, Option.filter_some, Lease.isExpired_eq_false hruns]
    rfl

/-- **One more ban refreshes the lease of its peer and never shortens it.** -/
theorem ban (h : Upheld now b xs) {x : Sentence} (hnow : x.issuedAt = now)
    (hid : x.peer.isEmpty = false) :
    Upheld now (b.ban x.issuedAt x.peer x.ban x.span) (xs ++ [x]) where
  past y hy := by
    rcases List.mem_append.mp hy with hy | hy
    · exact h.past y hy
    · rw [List.mem_singleton.mp hy]
      exact hnow.le
  latest peer l hl := by
    rw [Blacklist.lease?_ban _ _ _ _ _ _ hid] at hl
    rw [latest_append]
    by_cases hp : peer = x.peer
    · rw [if_pos hp, Option.some.injEq] at hl
      rw [if_pos hp.symm, ← hl]
      rfl
    · rw [if_neg hp] at hl
      rw [if_neg (Ne.symm hp)]
      exact h.latest peer l hl
  served y hy hlt := by
    rw [Blacklist.lease?_ban _ _ _ _ _ _ hid]
    rcases List.mem_append.mp hy with hy | hy
    · obtain ⟨l, hl, hissued, hspan⟩ := h.served y hy hlt
      by_cases hp : y.peer = x.peer
      · -- the lease that serves the earlier ban is refreshed with the longer span
        rw [if_pos hp, ← hp, hl]
        refine ⟨_, rfl, ?_, ?_⟩
        · rw [hnow]
          exact h.past y hy
        · exact hspan.trans (le_max_left _ _)
      · rw [if_neg hp]
        exact ⟨l, hl, hissued, hspan⟩
    · rw [List.mem_singleton.mp hy, if_pos rfl]
      refine ⟨_, rfl, le_rfl, ?_⟩
      rcases b.lease? x.peer with _ | l
      · exact le_rfl
      · exact le_max_right _ _

theorem impose (h : Upheld now b xs) {ys : List Sentence}
    (hys : ∀ y ∈ ys, y.issuedAt = now ∧ y.peer.isEmpty = false) :
    Upheld now (b.impose ys) (xs ++ ys) := by
  induction ys generalizing b xs with
  | nil =>
    rw [List.append_nil]
    exact h
  | cons y ys ih =>
    obtain ⟨hnow, hid⟩ := hys y List.mem_cons_self
    rw [List.append_cons]
    exact ih (h.ban hnow hid) fun z hz => hys z (List.mem_cons_of_mem _ hz)

/-- **A ban that has not run out keeps its peer banned, for the reason of the last ban.** -/
theorem get?_eq (h : Upheld now b xs) {x : Sentence} (hx : x ∈ xs)
    (hlt : now < x.issuedAt + x.span) :
    ∃ y, Floodgate.latest x.peer xs = some y ∧ b.get? x.peer = some y.ban := by
  obtain ⟨l, hl, -, -⟩ := h.served x hx hlt
  obtain ⟨y, hy, hban⟩ := Option.map_eq_some_iff.mp (h.latest x.peer l hl)
  refine ⟨y, hy, ?_⟩
  rw [Blacklist.get?_eq, hl, hban]
  rfl

end Upheld

/-! ### A banned peer at the gate -/

namespace Gate

theorem screen_banned {g : Gate} {m : Message} {entry : Ban}
    (h : g.blacklist.get? m.peer = some entry) (now : Instant) :
    g.screen now m = (g, .error (.peerBlacklisted m.peer.hex entry.reason)) := by
  rw [screen, banned?, h]
  rfl

theorem screenBatch_banned {g : Gate} {peer : PeerId} {entry : Ban}
    (h : g.blacklist.get? peer = some entry) (topic : String) (messages size : Nat) :
    g.screenBatch peer topic messages size =
      (g, .error (.peerBlacklisted peer.hex entry.reason)) := by
  rw [screenBatch, banned?, h]
  rfl

end Gate

/-! ### Stations -/

namespace Station

/-- A station whose protection is turned on upholds the bans that have been issued. -/
def Upholds (s : Station) (xs : List Sentence) : Prop :=
  s.enabled = true ∧ Upheld s.now s.gate.blacklist xs

variable {s : Station} {xs : List Sentence}

theorem Upholds.visit (h : s.Upholds xs) (w : Sweeper) : (s.visit w).1.Upholds xs := by
  cases w with
  | peers => exact ⟨h.1, h.2.sweep⟩
  | keys => exact h
  | outside visits fails => exact h

theorem Upholds.perform (h : s.Upholds xs) (j : Job) : (s.perform j).1.Upholds xs := by
  cases j with
  | resetLane i =>
    refine ⟨h.1, ?_⟩
    show Upheld s.now (s.gate.resetLane i).blacklist xs
    rw [Gate.resetLane_blacklist]
    exact h.2
  | resetTopics => exact h
  | sweep =>
    exact visitAll_keeps (P := fun s => s.Upholds xs) (fun s w h => Upholds.visit h w) h s.sweepers
  | print => exact h

theorem Upholds.apply (h : s.Upholds xs) (o : Operation) :
    (s.apply o).Upholds (xs ++ s.sentences o) := by
  have hjob : ∀ (s : Station) j, s.Upholds xs → (s.perform j).1.Upholds xs :=
    fun s j h => h.perform j
  have hclock : ∀ (s : Station) now schedule, s.now ≤ now → s.Upholds xs →
      Upholds { s with now, schedule } xs := fun s now schedule hle h => ⟨h.1, h.2.later hle⟩
  cases hkind : o.isForeground with
  | true =>
    obtain ⟨gate, keys, journal, observer, recorded, happly, hblacklist⟩ :=
      apply_foreground h.1 hkind
    rw [happly]
    refine ⟨h.1, ?_⟩
    show Upheld s.now gate.blacklist (xs ++ s.sentences o)
    rw [hblacklist]
    exact h.2.impose fun y hy => of_mem_sentences hy
  | false =>
    have hnil : xs ++ s.sentences o = xs := by
      cases o <;> first | exact List.append_nil xs | cases hkind
    rw [hnil]
    -- what is left are jobs, and moves of the clock: jobs and later instants
    cases o with
    | perform j => exact h.perform j
    | visit w => exact h.visit w
    | advance span => exact advance_keeps hjob hclock h span
    | jump span => exact jump_keeps hjob hclock h span
    | cancel => exact h
    | _ => cases hkind

/-- **The bans are upheld in every run.** -/
theorem upholds_docket {c : Config} {journal : JournalConfig} {runtime : Bool}
    (hs : build c journal runtime = .ok s) (enabled : c.enabled = true) (os : List Operation) :
    (s.docket os).station.Upholds (s.docket os).sentences := by
  induction os using List.reverseRecOn with
  | nil =>
    obtain ⟨lanes, topics, kept, -, -, -, hstart⟩ := of_build hs enabled
    obtain ⟨-, hon, -, hgate, -⟩ := of_start hstart
    refine ⟨hon, ?_⟩
    show Upheld s.now s.gate.blacklist []
    rw [hgate]
    exact Upheld.start s.now
  | append_singleton os o ih =>
    rw [docket_append]
    exact ih.apply o

/-- **A ban holds for its whole duration and leaves no trace.** In every run of a station of enabled
settings, whatever bans follow: until a ban that was issued runs out, every message and every batch
of its peer is refused with the reason of the peer's last ban, and apart from what the observer is
told the station stays as it is: its topics, tiers, watches, metrics and bans. -/
theorem ban_holds {c : Config} {journal : JournalConfig} {runtime : Bool}
    (hs : build c journal runtime = .ok s) (enabled : c.enabled = true) (os : List Operation) :
    let d := s.docket os
    ∀ x ∈ d.sentences, d.station.now < x.issuedAt + x.span →
      ∃ y, latest x.peer d.sentences = some y ∧
        let refusal : Verdict := .error (.peerBlacklisted x.peer.hex y.ban.reason)
        (∀ m, m.peer = x.peer →
          d.station.screen m = (d.station.notify ⟨x.peer, m.topic, 1, m.size, refusal⟩, refusal) ∧
          (d.station.screen m).1.gate = d.station.gate) ∧
        ∀ topic messages size,
          d.station.screenBatch x.peer topic messages size =
            (d.station.notify ⟨x.peer, topic, messages, size, refusal⟩, refusal) ∧
          (d.station.screenBatch x.peer topic messages size).1.gate = d.station.gate := by
  intro d x hx hlt
  obtain ⟨hon, hupheld⟩ := upholds_docket hs enabled os
  obtain ⟨y, hy, hban⟩ := hupheld.get?_eq hx hlt
  refine ⟨y, hy, ?_⟩
  intro refusal
  constructor
  · intro m hm
    have hgate := Gate.screen_banned (m := m) (hm ▸ hban) d.station.now
    have hscreen : d.station.screen m =
        (d.station.notify ⟨x.peer, m.topic, 1, m.size, refusal⟩, refusal) := by
      rw [screen_eq hon, hgate, hm]
    refine ⟨hscreen, ?_⟩
    rw [hscreen, notify_gate]
  · intro topic messages size
    have hgate := Gate.screenBatch_banned hban topic messages size
    have hscreen : d.station.screenBatch x.peer topic messages size =
        (d.station.notify ⟨x.peer, topic, messages, size, refusal⟩, refusal) := by
      rw [screenBatch_eq hon, hgate]
    refine ⟨hscreen, ?_⟩
    rw [hscreen, notify_gate]

/-- A ban of ten seconds, and a shorter one that has run out before it. -/
def repeatedBan : List Operation :=
  [.ban ⟨[1]⟩ "spam" (.ofSeconds 10), .advance (.ofSeconds 6), .ban ⟨[1]⟩ "again" (.ofSeconds 1),
    .advance (.ofSeconds 3)]

/-- After nine seconds and a sweep the first ban holds, with the reason of the second. -/
theorem repeatedBan_holds :
    let d := production.docket repeatedBan
    build .production {} true = .ok production ∧
      d.sentences.map (fun x => (x.issuedAt, x.span)) =
        [(0, .ofSeconds 10), (Span.ofSeconds 6, .ofSeconds 1)] ∧
      d.station.now = Span.ofSeconds 9 ∧
      ∀ m, m.peer = ⟨[1]⟩ →
        (d.station.screen m).2 = .error (.peerBlacklisted "01" "again") ∧
          (d.station.screen m).1.gate = d.station.gate := by
  have hsentences : (production.docket repeatedBan).sentences =
      [⟨0, ⟨[1]⟩, ⟨"spam", Ban.external⟩, .ofSeconds 10⟩,
        ⟨Span.ofSeconds 6, ⟨[1]⟩, ⟨"again", Ban.external⟩, .ofSeconds 1⟩] := by decide +kernel
  have hnow : (production.docket repeatedBan).station.now = Span.ofSeconds 9 := by decide +kernel
  have hholds := ban_holds build_production rfl repeatedBan
  generalize production.docket repeatedBan = d at hsentences hnow hholds ⊢
  obtain ⟨y, hy, hscreen, -⟩ := hholds ⟨0, ⟨[1]⟩, ⟨"spam", Ban.external⟩, .ofSeconds 10⟩
    (by rw [hsentences]; exact List.mem_cons_self) (by rw [hnow]; decide)
  have hreason : y.ban.reason = "again" := by
    rw [hsentences] at hy
    cases hy
    rfl
  refine ⟨build_production, by rw [hsentences]; rfl, hnow, fun m hm => ?_⟩
  obtain ⟨hverdict, hgate⟩ := hscreen m hm
  rw [hreason] at hverdict
  exact ⟨congrArg Prod.snd hverdict, hgate⟩

end Station

end Floodgate
