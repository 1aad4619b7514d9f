import Floodgate.Proofs.Tier.Budget
import Floodgate.Proofs.Tier.Transcript
import Mathlib.Algebra.Order.BigOperators.Group.List

/-! # Budgets are not exceeded

The counters of a quota stop at their limits, so the bounds are about the messages themselves: the
exact number and the exact bytes of what has been admitted in an interval. The invariant
`Accounted` ties a quota to the rulings behind it; the budget of the last admitted message covers
everything admitted so far, since rejected messages count as received and a class or an increase
only changes which budget a message is held against (`admitted_within_budget`). -/

namespace Floodgate

/-- A budget covers rulings if their number and their bytes stay within it. A limit that is the
largest value of its counter binds nothing: the counter never exceeds it. -/
structure Budget.Covers (b : Budget) (rs : List Ruling) : Prop where
  messages : b.maxMessages < countLimit → rs.length ≤ b.maxMessages
  size : b.maxSize < sizeLimit → bytesOf rs ≤ b.maxSize

theorem bytesOf_append (rs : List Ruling) (r : Ruling) :
    bytesOf (rs ++ [r]) = bytesOf rs + r.size := by
  simp [bytesOf]

theorem bytesOf_admittedOf_le (rs : List Ruling) : bytesOf (admittedOf rs) ≤ bytesOf rs :=
  List.Sublist.sum_le_sum (List.filter_sublist.map _) fun _ _ => Nat.zero_le _

theorem admittedOf_append (rs : List Ruling) (r : Ruling) :
    admittedOf (rs ++ [r]) =
      if r.admission.isAdmitted = true then admittedOf rs ++ [r] else admittedOf rs := by
  simp only [admittedOf, List.filter_append, List.filter_cons, List.filter_nil]
  split_ifs <;> simp

/-- A quota accounts for the rulings on a peer's messages of an interval. -/
structure Accounted (p : Policy) (q : Quota) (rs : List Ruling) : Prop where
  received : q.received = min rs.length countLimit
  receivedSize : q.receivedSize = min (bytesOf rs) sizeLimit
  /-- An increase lasts. -/
  increased : ∀ r ∈ rs, r.quota.increased = true → q.increased = true
  /-- The budget of the last admitted message covers all admitted ones. -/
  covered : ∀ r, (admittedOf rs).getLast? = some r → (r.budget p).Covers (admittedOf rs)

namespace Accounted

variable {p : Policy} {q : Quota} {rs : List Ruling}

theorem start (p : Policy) (c : PeerClass) : Accounted p { peerClass := c } [] where
  received := rfl
  receivedSize := rfl
  increased r hr := absurd hr List.not_mem_nil
  covered r hr := by simp [admittedOf] at hr

/-- A message within a limit that binds shows that all received messages are. -/
theorem covers_of_excess?_eq_none (h : Accounted p q rs) {b : Budget} {c : PeerClass} {size : Nat}
    (peer : PeerId) (hb : Policy.excess? b size (p.arrive c size q) = none) :
    b.Covers (rs ++ [p.ruling c peer size q]) := by
  obtain ⟨-, hcount, hsize⟩ := Policy.excess?_eq_none_iff.mp hb
  have hr := h.received
  have hs := h.receivedSize
  constructor
  · intro hlt
    have : addCount q.received 1 ≤ b.maxMessages := hcount
    rw [List.length_append, List.length_singleton]
    unfold addCount at this
    omega
  · intro hlt
    have : addSize q.receivedSize size ≤ b.maxSize := hsize
    rw [bytesOf_append]
    unfold addSize at this
    show bytesOf rs + size ≤ b.maxSize
    omega

theorem step (h : Accounted p q rs) (c : PeerClass) (peer : PeerId) (size : Nat) :
    Accounted p (p.judge c size q).1 (rs ++ [p.ruling c peer size q]) where
  received := by
    rw [Policy.judge_received, h.received, List.length_append, List.length_singleton, addCount]
    omega
  receivedSize := by
    have hsize : (p.ruling c peer size q).size = size := rfl
    rw [Policy.judge_receivedSize, h.receivedSize, bytesOf_append, hsize, addSize]
    omega
  increased := by
    intro r hr hinc
    rw [Policy.judge_increased]
    rcases List.mem_append.mp hr with hr | hr
    · rw [h.increased r hr hinc, Bool.true_or]
    · rw [List.mem_singleton.mp hr] at hinc
      rwa [← Policy.judge_increased]
  covered := by
    intro r hr
    rcases Policy.judge_cases p c size q with ⟨e, -, hj⟩ | ⟨hnone, hj⟩
    · -- a rejected message leaves the admitted ones as they are
      have hrej : (p.ruling c peer size q).admission.isAdmitted = false := by
        rw [Policy.ruling, hj]
        rfl
      rw [admittedOf_append, hrej, if_neg Bool.false_ne_true] at hr ⊢
      exact h.covered r hr
    · have hadm : (p.ruling c peer size q).admission.isAdmitted = true := by
        rw [Policy.ruling, hj]
        rfl
      rw [admittedOf_append, hadm, if_pos rfl] at hr ⊢
      rw [List.getLast?_concat, Option.some.injEq] at hr
      subst hr
      rw [Policy.budget_ruling]
      -- what the budget says of everything received, it says of what was admitted
      have hall := h.covers_of_excess?_eq_none peer hnone
      constructor
      · intro hlt
        have hle : (admittedOf rs).length ≤ rs.length := List.length_filter_le _ _
        have := hall.messages hlt
        rw [List.length_append] at this ⊢
        omega
      · intro hlt
        have hle := bytesOf_admittedOf_le rs
        have := hall.size hlt
        rw [bytesOf_append] at this ⊢
        omega

end Accounted

namespace Tier

/-- **A peer's quota accounts for its messages in every run.** -/
theorem accounted_transcript (p : Policy) (calls : List TierCall) (peer : PeerId) :
    Accounted p (((new p).transcript calls).quota peer) (((new p).transcript calls).own peer) :=
  Transcript.own_induction (Accounted.start p) (fun _ _ c size h => h.step c peer size) calls

/-- **What a tier admits stays within its budgets.** At every point of every run of a tier that was
built from settings, what has been admitted of a peer since the last reset is within the budget
that was applied to the last admitted message, in number and in bytes, each counted exactly, if that
limit is below the largest value of its counter. So it is within the increased budget of a
validator and, while the peer has no increase, within the configured base. -/
theorem admitted_within_budget {speed : Speed} {c : TierConfig} {cache : CacheConfig} {t : Tier}
    (ht : make? speed c cache = .ok t) (calls : List TierCall) (peer : PeerId) :
    let s := t.transcript calls
    let admitted := admittedOf (s.own peer)
    let full := t.policy.budget .reserved true
    t.policy.budget .reserved false = ⟨c.input.messages.toNat, c.input.totalSize.toNat⟩ ∧
      ∀ r, admitted.getLast? = some r →
        ((r.budget t.policy).maxMessages < countLimit →
          admitted.length ≤ (r.budget t.policy).maxMessages ∧
            admitted.length ≤ full.maxMessages ∧
            ((s.quota peer).increased = false → admitted.length ≤ c.input.messages.toNat)) ∧
        ((r.budget t.policy).maxSize < sizeLimit →
          bytesOf admitted ≤ (r.budget t.policy).maxSize ∧
            bytesOf admitted ≤ full.maxSize ∧
            ((s.quota peer).increased = false → bytesOf admitted ≤ c.input.totalSize.toNat)) := by
  intro s admitted full
  have hvalid := valid_of_make? ht
  have hbase : t.policy.budget .reserved false =
      ⟨c.input.messages.toNat, c.input.totalSize.toNat⟩ := by
    rw [Policy.budget_base hvalid]
    obtain ⟨-, rfl⟩ := make?_eq_ok_iff.mp ht
    rfl
  have hacc : Accounted t.policy (s.quota peer) (s.own peer) := by
    obtain ⟨-, rfl⟩ := make?_eq_ok_iff.mp ht
    exact accounted_transcript _ calls peer
  refine ⟨hbase, fun r hr => ?_⟩
  have hcov := hacc.covered r hr
  have hfull : r.budget t.policy ≤ full := Policy.budget_le_increased hvalid _ _
  have hplain : (s.quota peer).increased = false →
      r.budget t.policy ≤ ⟨c.input.messages.toNat, c.input.totalSize.toNat⟩ := by
    intro hno
    have hmem : r ∈ s.own peer := (List.mem_filter.mp (List.mem_of_getLast? hr)).1
    have hrno : r.quota.increased = false := by
      by_contra hinc
      rw [Bool.not_eq_false] at hinc
      rw [hacc.increased r hmem hinc] at hno
      cases hno
    rw [← hbase, Ruling.budget, hrno]
    exact Policy.budget_plain_le hvalid _
  constructor
  · intro hlt
    have hle := hcov.messages hlt
    exact ⟨hle, hle.trans hfull.1, fun hno => hle.trans (hplain hno).1⟩
  · intro hlt
    have hle := hcov.size hlt
    exact ⟨hle, hle.trans hfull.2, fun hno => hle.trans (hplain hno).2⟩

/-- A peer that is a validator for one message and earns the increase with it. -/
def earningCalls : List TierCall :=
  [.message .normal ⟨[1]⟩ 10, .reset, .message .normal ⟨[1]⟩ 30, .message .normal ⟨[2]⟩ 99,
    .message .reserved ⟨[1]⟩ 40, .message .normal ⟨[1]⟩ 45, .message .normal ⟨[1]⟩ 5]

/-- Three messages of 115 bytes are within the increased budget that admitted the last of them. -/
theorem earningCalls_within_budget :
    make? .fast narrowConfig {} = .ok narrow ∧
      ∃ r, (admittedOf ((narrow.transcript earningCalls).own ⟨[1]⟩)).getLast? = some r ∧
        r.budget narrow.policy = ⟨3, 120⟩ ∧
        (admittedOf ((narrow.transcript earningCalls).own ⟨[1]⟩)).length = 3 ∧
        (admittedOf ((narrow.transcript earningCalls).own ⟨[1]⟩)).length ≤ 3 ∧
        bytesOf (admittedOf ((narrow.transcript earningCalls).own ⟨[1]⟩)) ≤ 120 := by
  refine ⟨make?_narrow, ?_⟩
  have hlast : (admittedOf ((narrow.transcript earningCalls).own ⟨[1]⟩)).getLast?.map
      (·.budget narrow.policy) = some ⟨3, 120⟩ := by decide +kernel
  obtain ⟨r, hr, hb⟩ := Option.map_eq_some_iff.mp hlast
  obtain ⟨hcount, hsize⟩ := (admitted_within_budget make?_narrow earningCalls ⟨[1]⟩).2 r hr
  rw [hb] at hcount hsize
  exact ⟨r, hr, hb, by decide +kernel, (hcount (by decide)).1, (hsize (by decide)).1⟩

end Tier

end Floodgate
