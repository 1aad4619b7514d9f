import Floodgate.Proofs.Clock.Stops
import Floodgate.Proofs.Gate.Sentence
import Floodgate.Station
import Mathlib.Data.List.Induction

/-! # Runs of a station

Everything that can happen to a station is an `Operation`: messages, bans, administration of topics,
jobs done by hand, and moves of the clock, on which the maintenance runs. Messages, bans and
settings touch neither the clock nor the maintenance, and they write to the blacklist the bans that
they issue and nothing else (`Station.apply_foreground`). A move of the clock is a sequence of jobs
between which time only goes on, so that what the jobs and the clock keep, a move keeps
(`Station.advance_keeps`, `Station.jump_keeps`).

A `Docket` is a run together with the bans that were issued in it. -/

namespace Floodgate

/-- What happens to a station. -/
inductive Operation where
  | screen (m : Message)
  | screenBatch (peer : PeerId) (topic : String) (messages size : Nat)
  /-- A message that is sent to one lane alone. -/
  | consumeAt (i : Nat) (c : PeerClass) (peer : PeerId) (size : Nat)
  | ban (peer : PeerId) (reason : String) (span : Span)
  | deny (directory : Directory) (peer : PeerId) (reason : String) (span : Span)
  | resetTopic (topic : String)
  | setLimit (topic : String) (max : Nat)
  | setObserver (o : Observer)
  /-- A job that is done by hand. -/
  | perform (j : Job)
  /-- A visit to a cache by hand. -/
  | visit (w : Sweeper)
  | advance (span : Span)
  | jump (span : Span)
  | cancel

/-- Is an operation about messages, bans or settings, and not about the maintenance or its clock? -/
def Operation.isForeground : Operation → Bool
  | .screen _ | .screenBatch .. | .consumeAt .. | .ban .. | .deny .. | .resetTopic _ | .setLimit ..
  | .setObserver _ => true
  | .perform _ | .visit _ | .advance _ | .jump _ | .cancel => false

namespace Station

/-- The station after an operation. -/
def apply (s : Station) : Operation → Station
  | .screen m => (s.screen m).1
  | .screenBatch peer topic messages size => (s.screenBatch peer topic messages size).1
  | .consumeAt i c peer size =>
    match s.gate.consumeAt s.now i c peer size with
    | none => s
    | some (gate, _) => { s with gate }
  | .ban peer reason span => s.ban peer reason span
  | .deny directory peer reason span => s.deny directory peer reason span
  | .resetTopic topic => s.resetTopic topic
  | .setLimit topic max => s.setLimit topic max
  | .setObserver o => s.setObserver o
  | .perform j => (s.perform j).1
  | .visit w => (s.visit w).1
  | .advance span => (s.advance span).1
  | .jump span => (s.jump span).1
  | .cancel => s.cancel

/-- The ban of a peer for a reason outside the quotas; one needs an identifier to be banned. -/
def outside (now : Instant) (peer : PeerId) (reason : String) (span : Span) : List Sentence :=
  if peer.isEmpty then [] else [⟨now, peer, ⟨reason, Ban.external⟩, span⟩]

/-- The bans that an operation issues. -/
def sentences (s : Station) : Operation → List Sentence
  | .screen m => if s.enabled then s.gate.sentences s.now m else []
  | .consumeAt i c peer size => s.gate.sentenceAt s.now i c peer size
  | .ban peer reason span => if s.enabled then outside s.now peer reason span else []
  | .deny _ peer reason span => outside s.now peer reason span
  | .screenBatch .. | .resetTopic _ | .setLimit .. | .setObserver _ | .perform _ | .visit _
  | .advance _ | .jump _ | .cancel => []

end Station

/-- A station, and the bans that have been issued, in order. -/
structure Docket where
  station : Station
  sentences : List Sentence

/-- The docket after one more operation. -/
def Docket.step (d : Docket) (o : Operation) : Docket :=
  ⟨d.station.apply o, d.sentences ++ d.station.sentences o⟩

/-- The docket of a run. -/
def Station.docket (s : Station) (os : List Operation) : Docket := os.foldl Docket.step ⟨s, []⟩

theorem Station.docket_append (s : Station) (os : List Operation) (o : Operation) :
    s.docket (os ++ [o]) = (s.docket os).step o := by
  simp [docket, List.foldl_append]

namespace Station

/-! ### Observers -/

theorem notify_gate (s : Station) (d : Decision) : (s.notify d).gate = s.gate := by
  unfold notify
  cases s.observer <;> rfl

theorem screen_eq {s : Station} (enabled : s.enabled = true) (m : Message) :
    s.screen m =
      ({ s with gate := (s.gate.screen s.now m).1 }.notify
          ⟨m.peer, m.topic, 1, m.size, (s.gate.screen s.now m).2⟩,
        (s.gate.screen s.now m).2) := by
  rw [screen, if_pos enabled]

theorem screenBatch_eq {s : Station} (enabled : s.enabled = true) (peer : PeerId) (topic : String)
    (messages size : Nat) :
    s.screenBatch peer topic messages size =
      ({ s with gate := (s.gate.screenBatch peer topic messages size).1 }.notify
          ⟨peer, topic, messages, size, (s.gate.screenBatch peer topic messages size).2⟩,
        (s.gate.screenBatch peer topic messages size).2) := by
  rw [screenBatch, if_pos enabled]

theorem notify_eq (s : Station) (d : Decision) :
    ∃ journal recorded, s.notify d = { s with journal, recorded } := by
  unfold notify
  split
  · exact ⟨s.journal, s.recorded, rfl⟩
  · exact ⟨_, s.recorded, rfl⟩
  · exact ⟨s.journal, _, rfl⟩

/-! ### Bans -/

theorem of_mem_outside {now : Instant} {peer : PeerId} {reason : String} {span : Span}
    {x : Sentence} (hx : x ∈ outside now peer reason span) :
    x.issuedAt = now ∧ x.peer = peer ∧ peer.isEmpty = false ∧
      outside now peer reason span = [x] := by
  unfold outside at hx ⊢
  split_ifs at hx with hid
  · exact absurd hx List.not_mem_nil
  · rw [List.mem_singleton.mp hx]
    exact ⟨rfl, rfl, eq_false_of_ne_true hid, if_neg hid⟩

theorem of_mem_sentences {s : Station} {o : Operation} {x : Sentence} (hx : x ∈ s.sentences o) :
    x.issuedAt = s.now ∧ x.peer.isEmpty = false := by
  cases o with
  | screen m =>
    rw [sentences] at hx
    split_ifs at hx
    · obtain ⟨hnow, hpeer, hid⟩ := Gate.of_mem_sentences hx
      exact ⟨hnow, hpeer ▸ hid⟩
    · exact absurd hx List.not_mem_nil
  | consumeAt i c peer size =>
    obtain ⟨hnow, hpeer, hid⟩ := Gate.of_mem_sentenceAt hx
    exact ⟨hnow, hpeer ▸ hid⟩
  | ban peer reason span =>
    rw [sentences] at hx
    split_ifs at hx
    · obtain ⟨hnow, hpeer, hid, -⟩ := of_mem_outside hx
      exact ⟨hnow, hpeer ▸ hid⟩
    · exact absurd hx List.not_mem_nil
  | deny directory peer reason span =>
    obtain ⟨hnow, hpeer, hid, -⟩ := of_mem_outside hx
    exact ⟨hnow, hpeer ▸ hid⟩
  | _ => exact absurd hx List.not_mem_nil

theorem impose_outside (b : Blacklist) (now : Instant) (peer : PeerId) (reason : String)
    (span : Span) :
    b.impose (outside now peer reason span) = b.ban now peer ⟨reason, Ban.external⟩ span := by
  unfold outside Blacklist.ban
  cases hid : peer.isEmpty with
  | true => rfl
  | false => exact if_neg (Bool.eq_false_iff.mp hid)

/-- **Messages, bans and settings write the bans that they issue to the blacklist**, and leave the
schedule and its clock alone. -/
theorem apply_foreground {s : Station} (enabled : s.enabled = true) {o : Operation}
    (h : o.isForeground = true) :
    ∃ gate keys journal observer recorded,
      s.apply o = { s with gate, keys, journal, observer, recorded } ∧
        gate.blacklist = s.gate.blacklist.impose (s.sentences o) := by
  cases o with
  | screen m =>
    obtain ⟨journal, recorded, hnotify⟩ := notify_eq { s with gate := (s.gate.screen s.now m).1 }
      ⟨m.peer, m.topic, 1, m.size, (s.gate.screen s.now m).2⟩
    refine ⟨_, s.keys, journal, s.observer, recorded,
      (congrArg Prod.fst (screen_eq enabled m)).trans hnotify, ?_⟩
    rw [sentences, if_pos enabled]
    exact Gate.screen_blacklist s.gate s.now m
  | screenBatch peer topic messages size =>
    obtain ⟨journal, recorded, hnotify⟩ :=
      notify_eq { s with gate := (s.gate.screenBatch peer topic messages size).1 }
        ⟨peer, topic, messages, size, (s.gate.screenBatch peer topic messages size).2⟩
    exact ⟨_, s.keys, journal, s.observer, recorded,
      (congrArg Prod.fst (screenBatch_eq enabled peer topic messages size)).trans hnotify,
      Gate.screenBatch_blacklist s.gate peer topic messages size⟩
  | consumeAt i c peer size =>
    rcases hc : s.gate.consumeAt s.now i c peer size with _ | ⟨gate, a⟩
    · refine ⟨s.gate, s.keys, s.journal, s.observer, s.recorded, ?_, ?_⟩
      · rw [apply, hc]
      · rw [sentences, Gate.sentenceAt_eq_nil hc]
        rfl
    · refine ⟨gate, s.keys, s.journal, s.observer, s.recorded, ?_, Gate.consumeAt_blacklist hc⟩
      rw [apply, hc]
  | ban peer reason span =>
    refine ⟨_, s.keys, s.journal, s.observer, s.recorded, if_pos enabled, ?_⟩
    rw [sentences, if_pos enabled, impose_outside]
    rfl
  | deny directory peer reason span =>
    refine ⟨_, _, s.journal, s.observer, s.recorded, rfl, ?_⟩
    rw [sentences, impose_outside]
    show (s.denials.deny directory s.now peer reason span).peers = _
    rw [Denials.deny]
    split_ifs with hid
    · rw [Blacklist.ban, if_pos hid]
      rfl
    · rfl
  | resetTopic topic =>
    exact ⟨_, s.keys, s.journal, s.observer, s.recorded, if_pos enabled, rfl⟩
  | setLimit topic max =>
    exact ⟨_, s.keys, s.journal, s.observer, s.recorded, if_pos enabled, rfl⟩
  | setObserver o => exact ⟨s.gate, s.keys, s.journal, o, s.recorded, if_pos enabled, rfl⟩
  | perform j => cases h
  | visit w => cases h
  | advance span => cases h
  | jump span => cases h
  | cancel => cases h

/-! ### Jobs -/

theorem visitAll_keeps {P : Station → Prop} (visit : ∀ s w, P s → P (s.visit w).1) {s : Station}
    (h : P s) (ws : List Sweeper) : P (s.visitAll ws).1 := by
  induction ws generalizing s with
  | nil => exact h
  | cons w ws ih =>
    have hw := visit s w h
    rw [visitAll]
    rcases hv : s.visit w with ⟨s', w', _ | _⟩
    · rw [hv] at hw
      exact hw
    · rw [hv] at hw
      exact ih hw

theorem performAll_keeps {P : Station → Prop} (job : ∀ s j, P s → P (s.perform j).1) {s : Station}
    (h : P s) (js : List Job) : P (s.performAll js).1 := by
  induction js generalizing s with
  | nil => exact h
  | cons j js ih => exact ih (job s j h)

theorem perform_now (s : Station) (j : Job) : (s.perform j).1.now = s.now := by
  cases j with
  | sweep =>
    exact visitAll_keeps (P := fun s' => s'.now = s.now)
      (fun s' w h => by cases w <;> exact h) rfl s.sweepers
  | resetLane i => rfl
  | resetTopics => rfl
  | print => rfl

theorem rest_now (s : Station) (now : Instant) : (s.rest now).1.now = now :=
  performAll_keeps (P := fun s' => s'.now = now) (fun s' j h => (perform_now s' j).trans h) rfl _

theorem rest_keeps {P : Station → Prop} (job : ∀ s j, P s → P (s.perform j).1)
    (clock : ∀ (s : Station) now schedule, s.now ≤ now → P s → P { s with now, schedule })
    {s : Station} (h : P s) {now : Instant} (hnow : s.now ≤ now) :
    P (s.rest now).1 :=
  performAll_keeps job (clock s now _ hnow h) _

theorem restAll_keeps {P : Station → Prop} (job : ∀ s j, P s → P (s.perform j).1)
    (clock : ∀ (s : Station) now schedule, s.now ≤ now → P s → P { s with now, schedule })
    {s : Station} (h : P s) {ts : List Instant} (hts : (s.now :: ts).Pairwise (· ≤ ·)) :
    P (s.restAll ts).1 := by
  induction ts generalizing s with
  | nil => exact h
  | cons t ts ih =>
    obtain ⟨hle, hts⟩ := List.pairwise_cons.mp hts
    exact ih (rest_keeps job clock h (hle t List.mem_cons_self)) ((rest_now s t).symm ▸ hts)

/-- **What the jobs and the clock keep, a move of the clock keeps.** -/
theorem advance_keeps {P : Station → Prop} (job : ∀ s j, P s → P (s.perform j).1)
    (clock : ∀ (s : Station) now schedule, s.now ≤ now → P s → P { s with now, schedule })
    {s : Station} (h : P s) (span : Span) : P (s.advance span).1 :=
  restAll_keeps job clock h (Instant.pairwise_stops (Nat.le_add_right _ _))

theorem jump_keeps {P : Station → Prop} (job : ∀ s j, P s → P (s.perform j).1)
    (clock : ∀ (s : Station) now schedule, s.now ≤ now → P s → P { s with now, schedule })
    {s : Station} (h : P s) (span : Span) : P (s.jump span).1 :=
  rest_keeps job clock h (Nat.le_add_right _ _)

end Station

end Floodgate
