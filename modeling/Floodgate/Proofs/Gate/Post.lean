import Floodgate.Proofs.Gate.Sentence
import Floodgate.Proofs.Tier.Budget
import Floodgate.Proofs.Watch.Alike
import Floodgate.Proofs.Watch.Criterion

/-! # A lane at its post

A post is one lane by itself, with the ledger it writes to and a clock. Messages arrive at it, its
interval ends, and the blacklist is swept; in between the others with whom it shares the blacklist
ban and lift as they like. The log of a run is the bans that the watch of the lane issues, event by
event (`Post.log`). Two posts whose watches cannot be told apart have the same log
(`Post.Alike.log`). -/

namespace Floodgate

theorem Lane.of_make? {speed : Speed} {cfg : TierConfig} {cache : CacheConfig} {l : Lane}
    (h : Lane.make? speed cfg cache = .ok l) :
    l = ⟨.new (.ofConfig speed cfg cache), .new speed cfg.ban, {}⟩ ∧ 1 ≤ cfg.ban.rounds.toNat := by
  unfold make? at h
  split at h
  · cases h
  · rename_i watch hwatch
    obtain ⟨rfl, hrounds⟩ := FloodWatch.of_make? hwatch
    split at h
    · cases h
    · rename_i tier htier
      obtain ⟨-, rfl⟩ := Tier.make?_eq_ok_iff.mp htier
      cases h
      exact ⟨rfl, hrounds⟩

/-- What happens at a post. -/
inductive PostEvent where
  | message (c : PeerClass) (peer : PeerId) (size : Nat)
  /-- The interval of the tier ends. -/
  | reset
  | sweep
  | wait (span : Span)
  /-- Somebody else bans a peer. -/
  | ban (peer : PeerId) (entry : Ban) (span : Span)
  | lift (peer : PeerId)
deriving DecidableEq

/-- A lane, the ledger it writes to, and the time. -/
structure Post where
  lane : Lane
  ledger : Ledger
  now : Instant

namespace Post

/-- The watch of the lane. -/
def watch (s : Post) : FloodWatch := s.lane.watch

/-- Is the peer banned? -/
def isBanned (s : Post) (peer : PeerId) : Bool := s.ledger.blacklist.has peer

/-- The post with other bans. -/
def withBlacklist (s : Post) (b : Blacklist) : Post :=
  { s with ledger := { s.ledger with blacklist := b } }

/-- The post after an event. -/
def step (s : Post) : PostEvent → Post
  | .message c peer size =>
    let (lane, ledger, _) := s.lane.consume s.ledger s.now c peer size
    { s with lane, ledger }
  | .reset =>
    let (lane, ledger) := s.lane.reset s.ledger
    { s with lane, ledger }
  | .sweep => s.withBlacklist (s.ledger.blacklist.sweep s.now)
  | .wait span => { s with now := s.now + span }
  | .ban peer entry span => s.withBlacklist (s.ledger.blacklist.ban s.now peer entry span)
  | .lift peer => s.withBlacklist (s.ledger.blacklist.remove peer)

/-- The bans that the watch issues at an event. -/
def bans (s : Post) : PostEvent → List Sentence
  | .message c peer size => s.lane.sentence s.ledger.blacklist s.now c peer size
  | _ => []

/-- The post after events. -/
def run (s : Post) (es : List PostEvent) : Post := es.foldl step s

/-- The bans that the watch issues in a run, event by event. -/
def log (s : Post) : List PostEvent → List (List Sentence)
  | [] => []
  | e :: es => s.bans e :: (s.step e).log es

/-- The post whose watch has no record of a peer. -/
def forget (s : Post) (peer : PeerId) : Post :=
  { s with lane := { s.lane with watch := s.watch.forget peer } }

theorem run_append (s : Post) (es fs : List PostEvent) : s.run (es ++ fs) = (s.run es).run fs :=
  List.foldl_append

/-! ### The watch of a post -/

variable {s t : Post}

/-- The quota and the decision that a message is reported with. -/
def ruling (s : Post) (c : PeerClass) (peer : PeerId) (size : Nat) : Quota × Admission :=
  (s.lane.tier.consume c peer size).2

theorem bans_message (s : Post) (c : PeerClass) (peer : PeerId) (size : Nat) :
    s.bans (.message c peer size) =
      ((s.watch.report (s.isBanned peer) peer (s.ruling c peer size).1
        (s.ruling c peer size).2).2.map (⟨s.now, peer, ·, s.watch.banSpan⟩)).toList := rfl

theorem watch_message (s : Post) (c : PeerClass) (peer : PeerId) (size : Nat) :
    (s.step (.message c peer size)).watch =
      (s.watch.report (s.isBanned peer) peer (s.ruling c peer size).1 (s.ruling c peer size).2).1 :=
  FloodWatch.observe_fst _ _ _ _ _ _

theorem watch_reset (s : Post) :
    (s.step .reset).watch =
      (s.lane.tier.active.foldl (fun w e => w.addExcess e.1 e.2) s.watch).endInterval := rfl

theorem sameRules_step (s : Post) (e : PostEvent) : s.watch.SameRules (s.step e).watch := by
  cases e with
  | message c peer size =>
    rw [watch_message]
    exact FloodWatch.sameRules_report _ _ _ _ _
  | reset =>
    have hadded := FloodWatch.sameRules_foldl_addExcess s.watch s.lane.tier.active
    rw [watch_reset, FloodWatch.endInterval, FloodWatch.SameRules, hadded]
  | _ => rfl

theorem sameRules_run (s : Post) (es : List PostEvent) : s.watch.SameRules (s.run es).watch := by
  induction es generalizing s with
  | nil => rfl
  | cons e es ih =>
    have hlast : (s.step e).watch.SameRules (s.run (e :: es)).watch := ih _
    rw [FloodWatch.SameRules, hlast, sameRules_step s e]

/-! ### Flooding intervals -/

/-- Does an event show that a peer floods while it is not banned? -/
def shows (s : Post) (peer : PeerId) : PostEvent → Bool
  | .message c sender size =>
    sender = peer && !peer.isEmpty && !s.isBanned peer &&
      s.watch.isFlooding (s.ruling c sender size).1 (s.ruling c sender size).2
  | _ => false

/-- In which intervals a peer has flooded, the current one first, after one more event. -/
def mark (s : Post) (peer : PeerId) (marks : List Bool) : PostEvent → List Bool
  | .reset => false :: marks
  | e => if s.shows peer e then true :: marks.tail else marks

/-- In which intervals a peer floods in a run, the last one first. -/
def marks (peer : PeerId) : Post → List Bool → List PostEvent → List Bool
  | _, ms, [] => ms
  | s, ms, e :: es => marks peer (s.step e) (s.mark peer ms e) es

/-- The number of intervals at the end of a run in which a peer has flooded without a break. -/
def unbroken (ms : List Bool) : Nat := (ms.takeWhile id).length

@[simp]
theorem unbroken_true (ms : List Bool) : unbroken (true :: ms) = unbroken ms + 1 := rfl

@[simp]
theorem unbroken_false (ms : List Bool) : unbroken (false :: ms) = 0 := rfl

theorem unbroken_mark (s : Post) (peer : PeerId) (ms : List Bool) (c : PeerClass)
    (sender : PeerId) (size : Nat) :
    unbroken ms ≤ unbroken (s.mark peer ms (.message c sender size)) ∧
      (s.mark peer ms (.message c sender size)).tail = ms.tail := by
  simp only [mark]
  split_ifs
  · exact ⟨by rcases ms with _ | ⟨_ | _, ms⟩ <;> simp, rfl⟩
  · exact ⟨Nat.le_refl _, rfl⟩

/-! ### Posts that cannot be told apart -/

/-- Two posts differ at most in the records that their watches hold. -/
structure Alike (s t : Post) : Prop where
  rest : t = { s with lane := { s.lane with watch := t.watch } }
  watch : s.watch.Alike t.watch

namespace Alike

theorem forget {peer : PeerId} (h : s.watch.streakOf peer = {}) : Alike s (s.forget peer) where
  rest := rfl
  watch := .forget h

theorem message (h : Alike s t) (c : PeerClass) (peer : PeerId) (size : Nat) :
    t.bans (.message c peer size) = s.bans (.message c peer size) ∧
      Alike (s.step (.message c peer size)) (t.step (.message c peer size)) := by
  obtain ⟨v, rfl⟩ : ∃ v, t = { s with lane := { s.lane with watch := v } } := ⟨_, h.rest⟩
  have halike : s.watch.Alike v := h.watch
  have hspan : v.banSpan = s.watch.banSpan := by rw [halike.rules]
  obtain ⟨hban, hkept⟩ := halike.report (s.isBanned peer) peer (s.ruling c peer size).1
    (s.ruling c peer size).2
  obtain ⟨hwritten, -⟩ := halike.observe s.ledger.blacklist s.now peer (s.ruling c peer size).1
    (s.ruling c peer size).2
  refine ⟨?_, ?_, ?_⟩
  · rw [bans_message, bans_message, ← hspan, ← hban]
    rfl
  · exact congrArg (fun b => (⟨_, ⟨b, _⟩, _⟩ : Post)) hwritten
  · rw [watch_message, watch_message]
    exact hkept

theorem reset (h : Alike s t) : Alike (s.step .reset) (t.step .reset) := by
  obtain ⟨v, rfl⟩ : ∃ v, t = { s with lane := { s.lane with watch := v } } := ⟨_, h.rest⟩
  have halike : s.watch.Alike v := h.watch
  exact ⟨rfl, (halike.foldl_addExcess s.lane.tier.active).endInterval⟩

/-- **Every event leads to the same bans, and keeps two posts alike.** -/
theorem step (h : Alike s t) (e : PostEvent) :
    t.bans e = s.bans e ∧ Alike (s.step e) (t.step e) := by
  cases e with
  | message c peer size => exact h.message c peer size
  | reset => exact ⟨rfl, h.reset⟩
  | _ =>
    refine ⟨rfl, ?_, h.watch⟩
    rw [h.rest]
    rfl

/-- **Posts that are alike have the same log.** -/
theorem log (h : Alike s t) (es : List PostEvent) : t.log es = s.log es := by
  induction es generalizing s t with
  | nil => rfl
  | cons e es ih =>
    obtain ⟨hbans, halike⟩ := h.step e
    rw [Post.log, Post.log, hbans, ih halike]

end Alike

end Post

end Floodgate
