import Floodgate.Proofs.Gate.Post
import Floodgate.Proofs.Tier.Census
import Floodgate.Proofs.Tier.Window

/-! # What a lane publishes

A lane at its post publishes totals whenever the interval of its tier ends, and counts each message
that it rejects. The tier of the lane makes the calls of the messages that arrive and of the resets
(`Post.run_tier`), whatever is banned and swept in between, so the rulings of an interval are those
of a tier that makes these calls alone. What is published is what they come to, and the count of
rejected messages has grown by what has been received and not admitted
(`Post.interval_published`). -/

namespace Floodgate

namespace PostEvent

/-- The call of an event on the tier of the lane. -/
def call? : PostEvent → Option TierCall
  | .message c peer size => some (.message c peer size)
  | .reset => some .reset
  | .sweep | .wait _ | .ban .. | .lift _ => none

/-- The sender of a message and its size. -/
def sent? : PostEvent → Option (PeerId × Nat)
  | .message _ peer size => some (peer, size)
  | .reset | .sweep | .wait _ | .ban .. | .lift _ => none

end PostEvent

/-- The calls of events on the tier of the lane. -/
def tierCalls (es : List PostEvent) : List TierCall := es.filterMap PostEvent.call?

/-- The messages among events. -/
def messagesSent (es : List PostEvent) : List (PeerId × Nat) := es.filterMap PostEvent.sent?

namespace Tier

/-- A run that goes on after a reset is a run of its own. -/
theorem transcript_of_rulings_eq_nil {t : Tier} {before : List TierCall}
    (h : (t.transcript before).rulings = []) (calls : List TierCall) :
    t.transcript (before ++ calls) = (t.transcript before).tier.transcript calls := by
  have hstart : t.transcript before = ⟨(t.transcript before).tier, []⟩ := by rw [← h]
  unfold transcript at hstart ⊢
  rw [List.foldl_append]
  exact congrArg (fun s => calls.foldl Transcript.call s) hstart

end Tier

namespace Board

theorem mem_gauges {b : Board} {speed : Speed} {t : Totals}
    (h : (b.get speed).published = some t) {x : String × Nat} (hx : x ∈ t.gauges) :
    (metric speed x.1, x.2) ∈ b.gauges := by
  refine List.mem_flatMap.mpr ⟨(speed, b.get speed), ?_, ?_⟩
  · exact List.mem_map.mpr ⟨speed, by cases speed <;> decide, rfl⟩
  · dsimp only
    rw [h]
    exact List.mem_map.mpr ⟨x, hx, rfl⟩

end Board

namespace Post

variable {s : Post}

/-- What is known of the tiers of the lane's speed. -/
def panel (s : Post) : Panel := s.ledger.board.get s.lane.speed

/-! ### Events -/

theorem run_singleton (s : Post) (es : List PostEvent) (e : PostEvent) :
    s.run (es ++ [e]) = (s.run es).step e := run_append s es [e]

theorem tierCalls_append (es : List PostEvent) (e : PostEvent) :
    tierCalls (es ++ [e]) = tierCalls es ++ e.call?.toList := by
  unfold tierCalls
  rw [List.filterMap_append]
  rcases he : e.call? with _ | x <;> simp [he]

/-- **The tier of a lane makes the calls of its events**, and nothing else happens to it. -/
theorem run_tier (s : Post) (es : List PostEvent) :
    (s.run es).lane.tier = (s.lane.tier.transcript (tierCalls es)).tier := by
  induction es using List.reverseRecOn with
  | nil => rfl
  | append_singleton es e ih =>
    rw [run_singleton, tierCalls_append]
    cases e with
    | message c peer size =>
      show ((s.run es).lane.tier.consume c peer size).1 = _
      rw [PostEvent.call?, Option.toList_some, Transcript.transcript_append, ih]
      rfl
    | reset =>
      show (s.run es).lane.tier.reset = _
      rw [PostEvent.call?, Option.toList_some, Transcript.transcript_append, ih]
      rfl
    | _ =>
      rw [PostEvent.call?, Option.toList_none, List.append_nil]
      exact ih

theorem run_speed (s : Post) (es : List PostEvent) : (s.run es).lane.speed = s.lane.speed := by
  unfold Lane.speed
  rw [run_tier, Transcript.policy_transcript]

/-- No totals are left over from an interval to the next one. -/
theorem run_totals (h : s.lane.totals = {}) (es : List PostEvent) :
    (s.run es).lane.totals = {} := by
  induction es using List.reverseRecOn with
  | nil => exact h
  | append_singleton es e ih =>
    rw [run_singleton]
    cases e with
    | reset => rfl
    | _ => exact ih

theorem map_rulings {es : List PostEvent} (whole : .reset ∉ es) (t : Tier) :
    (t.transcript (tierCalls es)).rulings.map (fun r => (r.peer, r.size)) = messagesSent es := by
  induction es using List.reverseRecOn with
  | nil => rfl
  | append_singleton es e ih =>
    have hinit : .reset ∉ es := fun hmem => whole (List.mem_append_left _ hmem)
    have hlast : .reset ≠ e := fun heq => whole (by simp [heq])
    rw [tierCalls_append, messagesSent, List.filterMap_append]
    cases e with
    | message c peer size =>
      rw [PostEvent.call?, Option.toList_some, Transcript.transcript_append,
        Transcript.call_message, List.map_append, ih hinit]
      rfl
    | reset => exact absurd rfl hlast
    | _ =>
      rw [PostEvent.call?, Option.toList_none, List.append_nil, ih hinit]
      exact (List.append_nil _).symm

/-! ### The count of rejected messages -/

theorem rejected_count (b : Board) (speed : Speed) (a : Admission) :
    ((b.count speed a).get speed).rejected =
      (b.get speed).rejected + if a.isAdmitted then 0 else 1 := by
  unfold Board.count
  split_ifs
  · rfl
  · rw [PerSpeed.get_set, if_pos rfl]

theorem panel_message (s : Post) (c : PeerClass) (peer : PeerId) (size : Nat) :
    (s.step (.message c peer size)).panel.rejected =
      s.panel.rejected + if (s.ruling c peer size).2.isAdmitted then 0 else 1 :=
  rejected_count s.ledger.board s.lane.speed _

/-- **Within an interval every message that is not admitted is counted once.** -/
theorem rejected_run {es : List PostEvent} (whole : .reset ∉ es) (s : Post) :
    let rs := (s.lane.tier.transcript (tierCalls es)).rulings
    (s.run es).panel.rejected + (admittedOf rs).length = s.panel.rejected + rs.length := by
  dsimp only
  induction es using List.reverseRecOn with
  | nil => rfl
  | append_singleton es e ih =>
    have hinit : .reset ∉ es := fun hmem => whole (List.mem_append_left _ hmem)
    have hlast : .reset ≠ e := fun heq => whole (by simp [heq])
    have hbefore := ih hinit
    rw [run_singleton, tierCalls_append]
    cases e with
    | message c peer size =>
      rw [PostEvent.call?, Option.toList_some, Transcript.transcript_append, panel_message, ruling,
        run_tier]
      generalize s.lane.tier.transcript (tierCalls es) = r at hbefore ⊢
      show _ + (admittedOf (r.rulings ++ [⟨peer, size, (r.tier.consume c peer size).2.1,
        (r.tier.consume c peer size).2.2⟩])).length = _ + (r.rulings ++ [_]).length
      rw [admittedOf_append, List.length_append, List.length_singleton]
      split_ifs
      · rw [List.length_append, List.length_singleton]
        omega
      · omega
    | reset => exact absurd rfl hlast
    | _ =>
      rw [PostEvent.call?, Option.toList_none, List.append_nil]
      exact hbefore

/-! ### The end of an interval -/

theorem panel_reset (s : Post) :
    (s.step .reset).ledger.board.get s.lane.speed =
      { s.panel with
        published := some (s.lane.tier.active.foldl (fun t e => t.add e.2) s.lane.totals) } := by
  show (s.ledger.board.publish s.lane.speed _).get s.lane.speed = _
  rw [Board.publish, PerSpeed.get_set, if_pos rfl]
  rfl

/-- An interval begins with the run or with a reset. -/
def Opens (before : List PostEvent) : Prop := before = [] ∨ before.getLast? = some .reset

theorem rulings_of_opens {before : List PostEvent} (h : Opens before) (t : Tier) :
    (t.transcript (tierCalls before)).rulings = [] := by
  rcases h with rfl | hlast
  · rfl
  · obtain ⟨es, rfl⟩ : ∃ es, before = es ++ [.reset] :=
      ⟨before.dropLast, (List.dropLast_append_getLast? _ hlast).symm⟩
    rw [tierCalls_append, PostEvent.call?, Option.toList_some, Transcript.transcript_append]
    rfl

/-- The interval of a lane that is new before it is the last one of a run of its tier. -/
theorem transcript_interval (s : Post) {before : List PostEvent} (opens : Opens before)
    (es : List PostEvent) :
    (s.run before).lane.tier.transcript (tierCalls es) =
      s.lane.tier.transcript (tierCalls before ++ tierCalls es) := by
  rw [run_tier, Tier.transcript_of_rulings_eq_nil (rulings_of_opens opens _)]

/-- **What is published accounts for every message.** Let the lane of a checked tier run, and look
at one interval of it, from the start or a reset to the next reset, in which no counter is full. The
rulings of the interval are on the messages that arrive in it, one each and in order. What is
published at its end is what these rulings come to, under the names of the tier's speed, and the
count of rejected messages has grown by what has been received and not admitted. -/
theorem interval_published {speed : Speed} {cfg : TierConfig} {cache : CacheConfig} {t : Tier}
    (ht : Tier.make? speed cfg cache = .ok t) (watch : FloodWatch) (ledger : Ledger) (now : Instant)
    {before es : List PostEvent} (opens : Opens before) (whole : .reset ∉ es)
    (few : ∀ peer, (messagesSent es).countP (·.1 = peer) ≤ countLimit)
    (small : ((messagesSent es).map Prod.snd).sum ≤ sizeLimit) :
    let s := (⟨⟨t, watch, {}⟩, ledger, now⟩ : Post).run before
    let rs := (s.lane.tier.transcript (tierCalls es)).rulings
    let board := (s.run (es ++ [.reset])).ledger.board
    rs.map (fun r => (r.peer, r.size)) = messagesSent es ∧
      (board.get speed).published = some (.of rs) ∧
      (∀ x ∈ (Totals.of rs).gauges, (Board.metric speed x.1, x.2) ∈ board.gauges) ∧
      (board.get speed).rejected =
        (s.ledger.board.get speed).rejected +
          ((Totals.of rs).received - (Totals.of rs).admitted) := by
  obtain ⟨-, rfl⟩ := Tier.make?_eq_ok_iff.mp ht
  intro s rs board
  have hspeed : s.lane.speed = speed := run_speed _ before
  have hspeed' : (s.run es).lane.speed = speed := (run_speed s es).trans hspeed
  have hsent : rs.map (fun r => (r.peer, r.size)) = messagesSent es := map_rulings whole _
  -- the interval seen as the end of a run from a tier that has no records
  have hrun : s.lane.tier.transcript (tierCalls es) =
      (Tier.new (.ofConfig speed cfg cache)).transcript (tierCalls before ++ tierCalls es) :=
    transcript_interval _ opens es
  have hcount : ∀ peer, ((s.lane.tier.transcript (tierCalls es)).own peer).length ≤ countLimit :=
    fun peer => (length_rulingsOn_of_sent hsent peer).trans_le (few peer)
  have hsize : bytesOf rs ≤ sizeLimit := (bytesOf_of_sent hsent).trans_le small
  have hactive : (s.run es).lane.tier.active.foldl (fun t e => t.add e.2) {} = Totals.of rs := by
    rw [run_tier, hrun]
    rw [hrun] at hcount
    have hrs : rs = _ := congrArg Transcript.rulings hrun
    rw [hrs] at hsize ⊢
    exact Tier.totals_active _ _ hcount hsize
  have hboard : board.get speed =
      { (s.run es).panel with published := some (.of rs) } := by
    show ((s.run (es ++ [.reset])).ledger.board).get speed = _
    rw [run_singleton, ← hspeed', panel_reset, run_totals (run_totals rfl before), hactive]
  have hpublished : (board.get speed).published = some (.of rs) := by rw [hboard]
  refine ⟨hsent, hpublished, fun x hx => Board.mem_gauges hpublished hx, ?_⟩
  have hrejected := rejected_run whole s
  have hle : (admittedOf rs).length ≤ rs.length := List.length_filter_le _ _
  have hpanel : s.ledger.board.get speed = s.panel := by rw [panel, hspeed]
  rw [hboard, hpanel]
  show (s.run es).panel.rejected = s.panel.rejected + (rs.length - (admittedOf rs).length)
  change _ + (admittedOf rs).length = _ + rs.length at hrejected
  omega

/-! ### An interval with a peer whose record has been dropped -/

/-- The lane of the tier that keeps one peer when it is idle. -/
def crowded : Post :=
  ⟨⟨Tier.crowded, .new .fast Tier.narrowConfig.ban, {}⟩, ⟨.empty, .blank⟩, 0⟩

/-- Two intervals, after which the record of the first peer has been dropped. -/
def droppingEvents : List PostEvent :=
  [.message .normal ⟨[1]⟩ 90, .message .normal ⟨[2]⟩ 10, .reset, .message .normal ⟨[2]⟩ 10, .reset]

/-- The first peer comes back, and its last message exceeds the budget. -/
def returningEvents : List PostEvent :=
  [.message .normal ⟨[2]⟩ 30, .sweep, .message .reserved ⟨[1]⟩ 72, .message .reserved ⟨[1]⟩ 48]

/-- What is published accounts for the messages of a peer that is new to the tier again. -/
theorem returningEvents_accounted :
    Tier.make? .fast Tier.narrowConfig { capacity := 1 } = .ok Tier.crowded ∧
      (crowded.run droppingEvents).lane.tier.quota? ⟨[1]⟩ = none ∧
      Opens droppingEvents ∧ .reset ∉ returningEvents ∧
      (((crowded.run droppingEvents).run (returningEvents ++ [.reset])).ledger.board.get
        .fast).published = some (.of ((crowded.run droppingEvents).lane.tier.transcript
          (tierCalls returningEvents)).rulings) ∧
      Totals.of ((crowded.run droppingEvents).lane.tier.transcript
          (tierCalls returningEvents)).rulings =
        { peers := 2, received := 3, receivedSize := 150, admitted := 2, admittedSize := 102
          peakReceived := 2, peakReceivedSize := 120 } := by
  have hmake : Tier.make? .fast Tier.narrowConfig { capacity := 1 } = .ok Tier.crowded :=
    Tier.make?_eq_ok_iff.mpr ⟨by decide +kernel, rfl⟩
  have hopens : Opens droppingEvents := Or.inr rfl
  have hwhole : PostEvent.reset ∉ returningEvents := by decide
  have hfew : ∀ peer, (messagesSent returningEvents).countP (·.1 = peer) ≤ countLimit :=
    fun peer => List.countP_le_length.trans (by decide)
  have hsmall : ((messagesSent returningEvents).map Prod.snd).sum ≤ sizeLimit := by decide
  have haccounted := interval_published hmake (.new .fast Tier.narrowConfig.ban)
    ⟨.empty, .blank⟩ 0 hopens hwhole hfew hsmall
  refine ⟨hmake, by decide +kernel, hopens, hwhole, ?_, by decide +kernel⟩
  unfold crowded
  exact haccounted.2.1

end Post

end Floodgate
