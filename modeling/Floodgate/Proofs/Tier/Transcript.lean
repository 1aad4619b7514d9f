import Floodgate.Tier
import Mathlib.Algebra.Ring.Nat
import Mathlib.Data.List.Induction

/-! # Runs of a tier

A run is a list of calls: messages of any peers, each with the class that its sender has at that
moment, and resets. The transcript of a run is the tier that results, together with the rulings of
the current interval as the tier's observers are told of them.

A peer's quota and the rulings on its own messages depend on nothing else: they start afresh with
each interval, and each message of the peer takes them one `Policy.judge` further. What these two
steps keep holds in every run (`Transcript.own_induction`). -/

namespace Floodgate

/-- A call on a tier. -/
inductive TierCall where
  /-- A peer that has a class at this moment sends a message. -/
  | message (c : PeerClass) (peer : PeerId) (size : Nat)
  /-- The interval ends. -/
  | reset

/-- A decision on a message as the observers of a tier are told of it. -/
structure Ruling where
  peer : PeerId
  size : Nat
  /-- The peer's quota after the decision. -/
  quota : Quota
  admission : Admission

/-- The ruling of a policy on a message of a peer with a quota. -/
def Policy.ruling (p : Policy) (c : PeerClass) (peer : PeerId) (size : Nat) (q : Quota) : Ruling :=
  ⟨peer, size, (p.judge c size q).1, (p.judge c size q).2⟩

/-- The budget that a ruling applied. -/
def Ruling.budget (r : Ruling) (p : Policy) : Budget :=
  p.budget r.quota.peerClass r.quota.increased

/-- A tier and its rulings in the current interval, in order. -/
structure Transcript where
  tier : Tier
  rulings : List Ruling

namespace Transcript

/-- The transcript after one more call. -/
def call (s : Transcript) : TierCall → Transcript
  | .message c peer size =>
    let (tier, q, a) := s.tier.consume c peer size
    ⟨tier, s.rulings ++ [⟨peer, size, q, a⟩]⟩
  | .reset => ⟨s.tier.reset, []⟩

/-- The quota of a peer, that of a newcomer if it has no record. -/
def quota (s : Transcript) (peer : PeerId) : Quota := (s.tier.quota? peer).getD {}

/-- The rulings on the messages of one peer. -/
def own (s : Transcript) (peer : PeerId) : List Ruling :=
  s.rulings.filter fun r => r.peer = peer

end Transcript

/-- The transcript of a run. -/
def Tier.transcript (t : Tier) (calls : List TierCall) : Transcript :=
  calls.foldl Transcript.call ⟨t, []⟩

/-- The admitted ones among rulings. -/
def admittedOf (rs : List Ruling) : List Ruling := rs.filter fun r => r.admission.isAdmitted

/-- The bytes of the messages of rulings. -/
def bytesOf (rs : List Ruling) : Nat := (rs.map Ruling.size).sum

theorem Admission.isAdmitted_iff {a : Admission} : a.isAdmitted = true ↔ a = .admitted := by
  cases a <;> simp [isAdmitted]

namespace Policy

/-! ### One decision -/

theorem excess?_eq_none_iff {b : Budget} {size : Nat} {q : Quota} :
    excess? b size q = none ↔
      size ≤ b.maxSize ∧ q.received ≤ b.maxMessages ∧ q.receivedSize ≤ b.maxSize := by
  unfold excess?
  split_ifs <;> simp <;> omega

/-- **The two ways of a decision**: the message exceeds a limit and is only counted as received, or
it is within all limits and counted as admitted too. -/
theorem judge_cases (p : Policy) (c : PeerClass) (size : Nat) (q : Quota) :
    (∃ e, excess? (p.budget c (p.arrive c size q).increased) size (p.arrive c size q) = some e ∧
        p.judge c size q = (p.arrive c size q, .rejected e)) ∨
      (excess? (p.budget c (p.arrive c size q).increased) size (p.arrive c size q) = none ∧
        p.judge c size q = (grant size (p.arrive c size q), .admitted)) := by
  rcases h : excess? (p.budget c (p.arrive c size q).increased) size (p.arrive c size q) with _ | e
  · exact Or.inr ⟨rfl, by simp only [judge, h]⟩
  · exact Or.inl ⟨e, rfl, by simp only [judge, h]⟩

variable (p : Policy) (c : PeerClass) (size : Nat) (q : Quota)

@[simp]
theorem judge_received : (p.judge c size q).1.received = addCount q.received 1 := by
  rcases judge_cases p c size q with ⟨e, -, h⟩ | ⟨-, h⟩ <;> rw [h] <;> rfl

@[simp]
theorem judge_receivedSize : (p.judge c size q).1.receivedSize = addSize q.receivedSize size := by
  rcases judge_cases p c size q with ⟨e, -, h⟩ | ⟨-, h⟩ <;> rw [h] <;> rfl

@[simp]
theorem judge_peerClass : (p.judge c size q).1.peerClass = c := by
  rcases judge_cases p c size q with ⟨e, -, h⟩ | ⟨-, h⟩ <;> rw [h] <;> rfl

@[simp]
theorem judge_increased : (p.judge c size q).1.increased = (q.increased || p.earned c q) := by
  rcases judge_cases p c size q with ⟨e, -, h⟩ | ⟨-, h⟩ <;> rw [h] <;> rfl

theorem budget_ruling (peer : PeerId) :
    (p.ruling c peer size q).budget p = p.budget c (p.arrive c size q).increased := by
  simp [Ruling.budget, ruling, arrive]

end Policy

namespace Transcript

/-! ### One call -/

theorem call_message (s : Transcript) (c : PeerClass) (peer : PeerId) (size : Nat) :
    s.call (.message c peer size) =
      ⟨{ s.tier with
          records := s.tier.records.insert peer (s.tier.policy.judge c size (s.quota peer)).1 },
        s.rulings ++ [s.tier.policy.ruling c peer size (s.quota peer)]⟩ := rfl

theorem policy_call (s : Transcript) (e : TierCall) :
    (s.call e).tier.policy = s.tier.policy := by
  cases e <;> rfl

theorem quota_message (s : Transcript) (c : PeerClass) (peer q : PeerId) (size : Nat) :
    (s.call (.message c peer size)).quota q =
      if q = peer then (s.tier.policy.judge c size (s.quota peer)).1 else s.quota q := by
  rw [call_message]
  simp only [quota, Tier.quota?, Keyed.get?_insert]
  split_ifs <;> rfl

theorem own_message (s : Transcript) (c : PeerClass) (peer q : PeerId) (size : Nat) :
    (s.call (.message c peer size)).own q =
      if q = peer then s.own q ++ [s.tier.policy.ruling c peer size (s.quota peer)]
      else s.own q := by
  rw [call_message]
  simp only [own, Policy.ruling, List.filter_append, List.filter_cons, List.filter_nil]
  by_cases h : q = peer
  · simp [h]
  · simp [h, Ne.symm h]

/-- A reset keeps nothing of a quota but, at most, the class. -/
theorem quota_reset (s : Transcript) (q : PeerId) :
    ∃ c, (s.call .reset).quota q = { peerClass := c } := by
  simp only [quota, call, Tier.reset, Tier.quota?, Keyed.get?_map, Keyed.get?_keep]
  rcases (s.tier.records.get? q).filter _ with _ | r
  · exact ⟨.normal, rfl⟩
  · exact ⟨r.peerClass, rfl⟩

theorem own_reset (s : Transcript) (q : PeerId) : (s.call .reset).own q = [] := rfl

/-! ### Runs -/

theorem transcript_append (t : Tier) (calls : List TierCall) (e : TierCall) :
    t.transcript (calls ++ [e]) = (t.transcript calls).call e := by
  simp [Tier.transcript, List.foldl_append]

theorem policy_transcript (t : Tier) (calls : List TierCall) :
    (t.transcript calls).tier.policy = t.policy := by
  induction calls using List.reverseRecOn with
  | nil => rfl
  | append_singleton calls e ih => rw [transcript_append, policy_call, ih]

/-- **What a new interval establishes and each message of a peer keeps holds of the peer's quota and
rulings in every run.** -/
theorem own_induction {p : Policy} {peer : PeerId} {P : Quota → List Ruling → Prop}
    (start : ∀ c, P { peerClass := c } [])
    (step : ∀ q rs c size, P q rs → P (p.judge c size q).1 (rs ++ [p.ruling c peer size q]))
    (calls : List TierCall) :
    P (((Tier.new p).transcript calls).quota peer) (((Tier.new p).transcript calls).own peer) := by
  induction calls using List.reverseRecOn with
  | nil => exact start .normal
  | append_singleton calls e ih =>
    rw [transcript_append]
    cases e with
    | message c sender size =>
      rw [quota_message, own_message, policy_transcript]
      by_cases h : peer = sender
      · subst h
        rw [if_pos rfl, if_pos rfl]
        exact step _ _ c size ih
      · rw [if_neg h, if_neg h]
        exact ih
    | reset =>
      obtain ⟨c, hc⟩ := quota_reset ((Tier.new p).transcript calls) peer
      rw [hc, own_reset]
      exact start c

end Transcript

end Floodgate
