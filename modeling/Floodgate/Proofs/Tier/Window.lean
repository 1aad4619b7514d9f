import Floodgate.Proofs.Tier.Budget
import Floodgate.Proofs.Tier.Transcript

/-! # The window of a peer

The window of a peer is the list of its own calls since the last reset: the class that it had and
the size of the message. What a tier decides on the peer is a function of its window
(`decision_local`): other peers have records of their own, a reset keeps nothing of a record but a
class that the next message replaces, and a record that is dropped is one that a newcomer would be
given. -/

namespace Floodgate

/-- The calls of a peer since the last reset: the class it had, and the size of the message. -/
def window (peer : PeerId) (calls : List TierCall) : List (PeerClass × Nat) :=
  calls.foldl
    (fun w e =>
      match e with
      | .message c sender size => if sender = peer then w ++ [(c, size)] else w
      | .reset => [])
    []

/-- A run in which one peer makes the calls of a window, and nothing else happens. -/
def replay (peer : PeerId) (w : List (PeerClass × Nat)) : List TierCall :=
  w.map fun x => .message x.1 peer x.2

section Window

variable (peer other : PeerId) (calls : List TierCall) (c : PeerClass) (size : Nat)

theorem window_message :
    window peer (calls ++ [.message c other size]) =
      if other = peer then window peer calls ++ [(c, size)] else window peer calls := by
  simp [window, List.foldl_append]

theorem window_reset : window peer (calls ++ [.reset]) = [] := by
  simp [window, List.foldl_append]

theorem window_replay (w : List (PeerClass × Nat)) : window peer (replay peer w) = w := by
  induction w using List.reverseRecOn with
  | nil => rfl
  | append_singleton w x ih =>
    rw [replay, List.map_append, List.map_singleton, window_message, if_pos rfl]
    show window peer (replay peer w) ++ [x] = w ++ [x]
    rw [ih]

end Window

namespace Policy

/-- The quota after the calls of a window. -/
def sustain (p : Policy) (q : Quota) (w : List (PeerClass × Nat)) : Quota :=
  w.foldl (fun q x => (p.judge x.1 x.2 q).1) q

/-- The decisions on the calls of a window. -/
def decisions (p : Policy) (q : Quota) : List (PeerClass × Nat) → List Admission
  | [] => []
  | x :: w => (p.judge x.1 x.2 q).2 :: p.decisions (p.judge x.1 x.2 q).1 w

variable (p : Policy) (q : Quota)

theorem sustain_append (w : List (PeerClass × Nat)) (x : PeerClass × Nat) :
    p.sustain q (w ++ [x]) = (p.judge x.1 x.2 (p.sustain q w)).1 := by
  rw [sustain, List.foldl_append]
  rfl

theorem decisions_append (w v : List (PeerClass × Nat)) :
    p.decisions q (w ++ v) = p.decisions q w ++ p.decisions (p.sustain q w) v := by
  induction w generalizing q with
  | nil => rfl
  | cons x w ih =>
    rw [List.cons_append, decisions, decisions, ih, List.cons_append]
    rfl

theorem getElem?_decisions (w : List (PeerClass × Nat)) (i : Nat) :
    (p.decisions q w)[i]? = w[i]?.map fun x => (p.judge x.1 x.2 (p.sustain q (w.take i))).2 := by
  induction w generalizing q i with
  | nil => rfl
  | cons x w ih =>
    cases i with
    | zero => rfl
    | succ i =>
      rw [decisions, List.getElem?_cons_succ, List.getElem?_cons_succ, List.take_succ_cons, ih]
      rfl

/-- The class that a quota was left with plays no part in a decision: the class of the message
replaces it. -/
theorem judge_renewed (d c : PeerClass) (size : Nat) :
    p.judge c size { q with peerClass := d } = p.judge c size q := rfl

theorem judge_sustain (d c : PeerClass) (w : List (PeerClass × Nat)) (size : Nat) :
    p.judge c size (p.sustain { peerClass := d } w) = p.judge c size (p.sustain {} w) := by
  cases w with
  | nil => exact judge_renewed p {} d c size
  | cons x w =>
    have hfirst := judge_renewed p {} d x.1 x.2
    have hsame : p.sustain { peerClass := d } (x :: w) = p.sustain {} (x :: w) :=
      congrArg (fun r => p.sustain r.1 w) hfirst
    rw [hsame]

end Policy

namespace Tier

/-- **The quota of a peer is what its window makes of a new quota.** -/
theorem quota_transcript (p : Policy) (calls : List TierCall) (peer : PeerId) :
    ∃ d, ((new p).transcript calls).quota peer =
      p.sustain { peerClass := d } (window peer calls) := by
  -- the class is the one of an earlier interval, if the record has been kept
  induction calls using List.reverseRecOn with
  | nil => exact ⟨.normal, rfl⟩
  | append_singleton calls e ih =>
    rw [Transcript.transcript_append]
    cases e with
    | message c sender size =>
      obtain ⟨d, hd⟩ := ih
      refine ⟨d, ?_⟩
      rw [Transcript.quota_message, Transcript.policy_transcript, window_message]
      by_cases h : peer = sender
      · subst h
        rw [if_pos rfl, if_pos rfl, Policy.sustain_append, hd]
        rfl
      · rw [if_neg h, if_neg (Ne.symm h)]
        exact hd
    | reset =>
      obtain ⟨d, hd⟩ := Transcript.quota_reset ((new p).transcript calls) peer
      exact ⟨d, by rw [hd, window_reset]; rfl⟩

theorem consume_transcript (p : Policy) (calls : List TierCall) (peer : PeerId) (c : PeerClass)
    (size : Nat) :
    (((new p).transcript calls).tier.consume c peer size).2 =
      p.judge c size (p.sustain {} (window peer calls)) := by
  obtain ⟨d, hd⟩ := quota_transcript p calls peer
  have hjudge : (((new p).transcript calls).tier.consume c peer size).2 =
      ((new p).transcript calls).tier.policy.judge c size
        (((new p).transcript calls).quota peer) := rfl
  rw [hjudge, Transcript.policy_transcript, hd]
  exact Policy.judge_sustain p d c _ size

theorem own_admissions (p : Policy) (calls : List TierCall) (peer : PeerId) :
    (((new p).transcript calls).own peer).map (·.admission) =
      p.decisions {} (window peer calls) := by
  induction calls using List.reverseRecOn with
  | nil => rfl
  | append_singleton calls e ih =>
    rw [Transcript.transcript_append]
    cases e with
    | message c sender size =>
      rw [Transcript.own_message, window_message]
      by_cases h : peer = sender
      · subst h
        rw [if_pos rfl, if_pos rfl, List.map_append, ih, Policy.decisions_append]
        have hnext := consume_transcript p calls peer c size
        exact congrArg (fun a => _ ++ [a]) (congrArg Prod.snd hnext)
      · rw [if_neg h, if_neg (Ne.symm h)]
        exact ih
    | reset => rw [window_reset, Transcript.own_reset, List.map_nil, Policy.decisions]

/-- The window of a peer can be read off the rulings on its messages. -/
theorem window_eq_map_own (p : Policy) (calls : List TierCall) (peer : PeerId) :
    window peer calls =
      (((new p).transcript calls).own peer).map fun r => (r.quota.peerClass, r.size) := by
  induction calls using List.reverseRecOn with
  | nil => rfl
  | append_singleton calls e ih =>
    rw [Transcript.transcript_append]
    cases e with
    | message c sender size =>
      rw [window_message, Transcript.own_message]
      by_cases h : peer = sender
      · subst h
        rw [if_pos rfl, if_pos rfl, List.map_append, ih, List.map_singleton]
        simp [Policy.ruling]
      · rw [if_neg h, if_neg (Ne.symm h)]
        exact ih
    | reset => rw [window_reset, Transcript.own_reset, List.map_nil]

/-- **A tier decides on a peer by the peer's own window.** Whatever other peers send and whatever
earlier intervals brought, the decision on a message, its reason and its numbers included, is the
one that the tier as it was built makes after the calls of the window alone, and the one that it
makes on any peer in any run with the same window. -/
theorem decision_local {speed : Speed} {cfg : TierConfig} {cache : CacheConfig} {t : Tier}
    (ht : make? speed cfg cache = .ok t) (calls : List TierCall) (peer : PeerId) (c : PeerClass)
    (size : Nat) :
    ((t.transcript calls).tier.consume c peer size).2 =
        ((t.transcript (replay peer (window peer calls))).tier.consume c peer size).2 ∧
      ∀ other calls', window other calls' = window peer calls →
        ((t.transcript calls').tier.consume c other size).2 =
          ((t.transcript calls).tier.consume c peer size).2 := by
  obtain ⟨-, rfl⟩ := make?_eq_ok_iff.mp ht
  constructor
  · rw [consume_transcript, consume_transcript, window_replay]
  · intro other calls' hsame
    rw [consume_transcript, consume_transcript, hsame]

/-- The tier of the narrow budget that keeps one peer when it is idle. -/
def crowded : Tier := new (.ofConfig .fast narrowConfig { capacity := 1 })

/-- A peer whose record is dropped at the second reset, and who comes back. -/
def returningCalls : List TierCall :=
  [.message .normal ⟨[1]⟩ 90, .message .normal ⟨[2]⟩ 10, .reset, .message .normal ⟨[2]⟩ 10, .reset,
    .message .normal ⟨[2]⟩ 30, .message .reserved ⟨[1]⟩ 72]

/-- The peer that comes back is held against its budget as if nothing else had happened. -/
theorem returningCalls_decided_alone :
    make? .fast narrowConfig { capacity := 1 } = .ok crowded ∧
      (crowded.transcript (returningCalls.take 5)).tier.quota? ⟨[1]⟩ = none ∧
      window ⟨[1]⟩ returningCalls = [(.reserved, 72)] ∧
      ((crowded.transcript returningCalls).tier.consume .reserved ⟨[1]⟩ 48).2.2 =
        .rejected (.totalSize 120 100) ∧
      ((crowded.transcript returningCalls).tier.consume .reserved ⟨[1]⟩ 48).2 =
        ((crowded.transcript [.message .reserved ⟨[1]⟩ 72]).tier.consume .reserved ⟨[1]⟩ 48).2 := by
  have hmake : make? .fast narrowConfig { capacity := 1 } = .ok crowded :=
    make?_eq_ok_iff.mpr ⟨by decide +kernel, rfl⟩
  refine ⟨hmake, by decide +kernel, by decide, by decide +kernel, ?_⟩
  exact (decision_local hmake returningCalls ⟨[1]⟩ .reserved 48).1

end Tier

end Floodgate
