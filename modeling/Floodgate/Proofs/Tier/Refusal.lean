import Floodgate.Proofs.Tier.Safety
import Floodgate.Proofs.Tier.Steady

/-! # Refusals are final

A refused message counts as received and earns nothing. So once a message of a peer that keeps its
class has been refused, what the peer has received exceeds the budget of every message that follows
in the interval, and none of these changes that budget. The invariant `Refusing` ties the refused
messages of an interval to the peer's quota; the admitted messages of the interval are those in
front of the first refusal (`Tier.refusal_final`). -/

namespace Floodgate

/-! ### Rulings after a refusal -/

/-- A refusal settles a later ruling: that one is a refusal too, and the increase is as it was. -/
def Ruling.Settles (r later : Ruling) : Prop :=
  r.admission ≠ .admitted →
    later.admission ≠ .admitted ∧ later.quota.increased = r.quota.increased

/-- If refusals settle everything behind them, the admitted messages are the first ones. -/
theorem admittedOf_isPrefix {rs : List Ruling} (h : rs.Pairwise Ruling.Settles) :
    admittedOf rs <+: rs := by
  induction rs using List.reverseRecOn with
  | nil => exact List.prefix_refl _
  | append_singleton rs r ih =>
    obtain ⟨hrs, -, hlast⟩ := List.pairwise_append.mp h
    rw [admittedOf_append]
    split_ifs with hr
    · -- everything in front of an admitted message has been admitted
      have hall : admittedOf rs = rs := by
        refine List.filter_eq_self.mpr fun x hx => Admission.isAdmitted_iff.mpr ?_
        by_contra hrefused
        exact (hlast x hx r List.mem_cons_self hrefused).1 (Admission.isAdmitted_iff.mp hr)
      exact ⟨[], by rw [List.append_nil, hall]⟩
    · exact (ih hrs).trans (List.prefix_append _ _)

namespace Policy

variable {p : Policy} {c : PeerClass} {size : Nat} {q : Quota}

/-! ### One refusal -/

/-- **A refused message earns nothing**: the next one finds the increase as this one did. -/
theorem increased_of_refused (h : (p.judge c size q).2 ≠ .admitted) :
    ((p.judge c size q).1.increased || p.earned c (p.judge c size q).1) =
      (p.judge c size q).1.increased := by
  rcases judge_cases p c size q with ⟨e, -, hj⟩ | ⟨-, hj⟩
  · rw [hj]
    have hearned : p.earned c (p.arrive c size q) = p.earned c q := rfl
    have hincreased : (p.arrive c size q).increased = (q.increased || p.earned c q) := rfl
    rw [hearned, hincreased, Bool.or_assoc, Bool.or_self]
  · rw [hj] at h
    exact absurd rfl h

end Policy

/-! ### The refusals of an interval -/

/-- What the rulings on a peer that keeps its class say of its quota: refusals settle what follows
them, and after one the budget is spent and the increase of the next message is known. -/
structure Refusing (p : Policy) (c : PeerClass) (q : Quota) (rs : List Ruling) : Prop where
  settled : rs.Pairwise Ruling.Settles
  spent : ∀ r ∈ rs, r.admission ≠ .admitted →
    p.Spent c q ∧ (q.increased || p.earned c q) = r.quota.increased

namespace Refusing

variable {p : Policy} {c : PeerClass} {q : Quota} {rs : List Ruling}

theorem start (d : PeerClass) : Refusing p c { peerClass := d } [] where
  settled := List.Pairwise.nil
  spent _ hr := absurd hr List.not_mem_nil

theorem step (h : Refusing p c q rs) (peer : PeerId) {size : Nat} (hsize : size ≤ sizeLimit) :
    Refusing p c (p.judge c size q).1 (rs ++ [p.ruling c peer size q]) where
  settled := by
    refine List.pairwise_append.mpr ⟨h.settled, List.pairwise_singleton _ _, ?_⟩
    intro r hr later hlater hrefused
    obtain ⟨hspent, hincreased⟩ := h.spent r hr hrefused
    rw [List.mem_singleton.mp hlater]
    exact ⟨(hspent.judge size).1, (Policy.judge_increased p c size q).trans hincreased⟩
  spent := by
    intro r hr hrefused
    rcases List.mem_append.mp hr with hr | hr
    · obtain ⟨hspent, hincreased⟩ := h.spent r hr hrefused
      obtain ⟨hagain, hstill⟩ := hspent.judge size
      refine ⟨hstill, ?_⟩
      rw [Policy.increased_of_refused hagain, Policy.judge_increased, hincreased]
    · rw [List.mem_singleton.mp hr] at hrefused ⊢
      exact ⟨Policy.spent_of_refused hsize hrefused, Policy.increased_of_refused hrefused⟩

end Refusing

namespace Tier

/-- **Refusals are final for a peer that keeps its class in an interval.** -/
theorem refusing_transcript (p : Policy) (c : PeerClass) (calls : List TierCall) (peer : PeerId)
    (steady : ∀ x ∈ window peer calls, x.1 = c ∧ x.2 ≤ sizeLimit) :
    Refusing p c (((new p).transcript calls).quota peer)
      (((new p).transcript calls).own peer) := by
  have hrun :
      (∀ r ∈ ((new p).transcript calls).own peer, r.quota.peerClass = c ∧ r.size ≤ sizeLimit) →
        Refusing p c (((new p).transcript calls).quota peer)
          (((new p).transcript calls).own peer) :=
    Transcript.own_induction
      (P := fun q rs => (∀ r ∈ rs, r.quota.peerClass = c ∧ r.size ≤ sizeLimit) →
        Refusing p c q rs)
      (fun d _ => Refusing.start d)
      (fun q rs d size ih hsteady => by
        obtain ⟨rfl, hsize⟩ : d = c ∧ size ≤ sizeLimit := by
          simpa [Policy.ruling] using hsteady _ (List.mem_append_right _ List.mem_cons_self)
        exact (ih fun r hr => hsteady r (List.mem_append_left _ hr)).step peer hsize)
      calls
  rw [window_eq_map_own p calls peer] at steady
  exact hrun fun r hr => steady _ (List.mem_map_of_mem hr)

/-- **A refusal is final within its interval.** In every run of a tier that was built from settings,
if a peer has had one class since the last reset, then after a message of it that was refused every
message of it is refused, whatever its size, and the increase stays as it was; so the messages
admitted in the interval are the first ones that were received. -/
theorem refusal_final {speed : Speed} {cfg : TierConfig} {cache : CacheConfig} {t : Tier}
    (ht : make? speed cfg cache = .ok t) (calls : List TierCall) (peer : PeerId) (c : PeerClass)
    (steady : ∀ x ∈ window peer calls, x.1 = c ∧ x.2 ≤ sizeLimit) :
    let own := (t.transcript calls).own peer
    own.Pairwise (fun r later => r.admission ≠ .admitted →
        later.admission ≠ .admitted ∧ later.quota.increased = r.quota.increased) ∧
      admittedOf own <+: own := by
  intro own
  obtain ⟨-, rfl⟩ := make?_eq_ok_iff.mp ht
  have hsettled := (refusing_transcript (.ofConfig speed cfg cache) c calls peer steady).settled
  exact ⟨hsettled, admittedOf_isPrefix hsettled⟩

/-- A peer that is refused for its second message, and goes on with an empty and a small one. -/
def persistentCalls : List TierCall :=
  [.message .normal ⟨[1]⟩ 50, .message .normal ⟨[1]⟩ 60, .message .reserved ⟨[2]⟩ 5,
    .message .normal ⟨[1]⟩ 0, .message .normal ⟨[1]⟩ 1]

/-- The empty message is refused for the bytes of the message before it. -/
theorem persistentCalls_refused :
    let own := (narrow.transcript persistentCalls).own ⟨[1]⟩
    make? .fast narrowConfig {} = .ok narrow ∧
      window ⟨[1]⟩ persistentCalls = [(.normal, 50), (.normal, 60), (.normal, 0), (.normal, 1)] ∧
      own[1]?.map (·.admission) = some (.rejected (.totalSize 110 80)) ∧
      (∀ r ∈ own.drop 2, r.admission ≠ .admitted ∧ r.quota.increased = false) ∧
      admittedOf own <+: own := by
  have hwindow : window ⟨[1]⟩ persistentCalls =
      [(.normal, 50), (.normal, 60), (.normal, 0), (.normal, 1)] := by decide
  have hsteady : ∀ x ∈ window ⟨[1]⟩ persistentCalls, x.1 = .normal ∧ x.2 ≤ sizeLimit := by
    rw [hwindow]
    decide
  have hsecond : ((narrow.transcript persistentCalls).own ⟨[1]⟩)[1]?.map
      (fun r => (r.admission, r.quota.increased)) =
        some (.rejected (.totalSize 110 80), false) := by decide +kernel
  obtain ⟨hfinal, hprefix⟩ := refusal_final make?_narrow persistentCalls ⟨[1]⟩ .normal hsteady
  generalize (narrow.transcript persistentCalls).own ⟨[1]⟩ = own at hsecond hfinal hprefix ⊢
  obtain ⟨second, hget, heq⟩ := Option.map_eq_some_iff.mp hsecond
  obtain ⟨hlt, hsecond⟩ := List.getElem?_eq_some_iff.mp hget
  rw [Prod.mk.injEq] at heq
  refine ⟨make?_narrow, hwindow, ?_, ?_, hprefix⟩
  · rw [hget, Option.map_some, heq.1]
  · have hdrop : own.drop 1 = second :: own.drop 2 := by
      rw [List.drop_eq_getElem_cons hlt, hsecond]
    have hlater := hfinal.drop (i := 1)
    rw [hdrop, List.pairwise_cons] at hlater
    intro r hr
    have := hlater.1 r hr (by rw [heq.1]; exact Admission.noConfusion)
    rwa [heq.2] at this

end Tier

end Floodgate
