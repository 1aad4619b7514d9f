import Floodgate.Proofs.Tier.Safety
import Floodgate.Proofs.Tier.Steady

/-! # How the increase is earned

The increase is earned by a share of the plain budget, which admitted messages have to reach. A
positive share of a budget takes at least one admitted message, unless there is nothing to reach:
the budget of a class is rounded down, and a small base leaves everyone else no message, or no byte.
Such a budget is void, and any message of its class has the increase, the first one included
(`Policy.earned_of_idle`). Apart from void budgets an increase is preceded by an admitted message,
and a peer without one is held against its plain budget (`Tier.increase_follows_admission`). -/

namespace Floodgate

/-- A budget without messages or without bytes. -/
def Budget.isVoid (b : Budget) : Bool := b.maxMessages = 0 || b.maxSize = 0

namespace Policy

variable {p : Policy} {c : PeerClass}

/-! ### Peers without admitted traffic -/

/-- The share that earns the increase is not zero. -/
def PositiveShare (p : Policy) : Prop := ∀ x, p.threshold = some x → Double.lt .zero x = true

theorem positiveShare_ofConfig (speed : Speed) (c : TierConfig) (cache : CacheConfig) :
    (ofConfig speed c cache).PositiveShare := by
  intro x hx
  simp only [ofConfig] at hx
  split_ifs at hx with hactive
  simp only [IncreaseConfig.isActive, Bool.and_eq_true] at hactive
  rw [Option.some.injEq] at hx
  exact hx ▸ hactive.1

/-- Nothing reaches a positive share of zero, and of nothing else. -/
theorem reaches_zero {x : Double} {max : Nat} (hpos : Double.lt .zero x = true)
    (hx : x.within .zero (.ofNat 1) = true) (hmax : max ≤ sizeLimit) :
    reaches x 0 max = decide (max = 0) := by
  rcases Nat.eq_zero_or_pos max with rfl | hmax0
  · exact reaches_of_le hx (Nat.zero_le _) le_rfl
  · have hle : max ≤ 2 ^ 64 := hmax.trans (Nat.sub_le _ _)
    rw [decide_eq_false hmax0.ne']
    exact Double.mul_ofNat_pos hpos hx hmax0 hle

/-- **Without admitted traffic the increase is earned exactly against a void budget.** -/
theorem earned_of_idle (hpos : p.PositiveShare) (hs : p.SoundShare) {q : Quota}
    (hcount : q.admitted = 0) (hsize : q.admittedSize = 0) :
    p.earned c q = (p.threshold.isSome && (p.budget c false).isVoid) := by
  rcases hx : p.threshold with _ | x
  · rw [earned, hx]
    rfl
  · have hmessages : (p.budget c false).maxMessages ≤ sizeLimit :=
      (Nat.min_le_right _ _).trans (by decide)
    have hbytes : (p.budget c false).maxSize ≤ sizeLimit := scale_le _ _ _
    simp only [earned, hx, hcount, hsize, reaches_zero (hpos x hx) (hs x hx) hmessages,
      reaches_zero (hpos x hx) (hs x hx) hbytes, Budget.isVoid, Option.isSome_some, Bool.true_and]

theorem judge_admitted_iff (p : Policy) (c : PeerClass) (size : Nat) (q : Quota) :
    (p.judge c size q).2 = .admitted ↔
      size ≤ (p.budget c (p.judge c size q).1.increased).maxSize ∧
        (p.judge c size q).1.received ≤
          (p.budget c (p.judge c size q).1.increased).maxMessages ∧
        (p.judge c size q).1.receivedSize ≤
          (p.budget c (p.judge c size q).1.increased).maxSize := by
  rw [judge_increased, judge_received, judge_receivedSize]
  have hiff : excess? (p.budget c (p.arrive c size q).increased) size (p.arrive c size q) = none ↔
      _ := excess?_eq_none_iff
  refine Iff.trans ?_ hiff
  rcases judge_cases p c size q with ⟨e, hsome, hj⟩ | ⟨hnone, hj⟩
  · rw [hj, hsome]
    simp
  · rw [hj, hnone]
    simp

end Policy

/-! ### The increase in an interval -/

theorem admittedOf_eq_nil_iff {rs : List Ruling} :
    admittedOf rs = [] ↔ ∀ r ∈ rs, r.admission ≠ .admitted := by
  rw [admittedOf, List.filter_eq_nil_iff]
  exact forall₂_congr fun r _ => not_congr Admission.isAdmitted_iff

theorem admittedOf_append_eq_nil {rs : List Ruling} {r : Ruling} :
    admittedOf (rs ++ [r]) = [] ↔ admittedOf rs = [] ∧ r.admission ≠ .admitted := by
  simp only [admittedOf_eq_nil_iff, List.forall_mem_append, List.forall_mem_singleton]

/-- A quota is true to the rulings on a peer's messages of an interval: it shows nothing admitted if
nothing was, and the increase only for a reason. -/
structure Earning (p : Policy) (q : Quota) (rs : List Ruling) : Prop where
  idle : admittedOf rs = [] → q.admitted = 0 ∧ q.admittedSize = 0
  lasting : ∀ r ∈ rs, r.quota.increased = true → q.increased = true
  /-- The first ruling with the increase follows an admitted message, or a void budget gave it. -/
  earned : q.increased = true → ∃ before r after, rs = before ++ r :: after ∧
    r.quota.increased = true ∧ (∀ x ∈ before, x.quota.increased = false) ∧
    (admittedOf before ≠ [] ∨ (p.budget r.quota.peerClass false).isVoid = true)
  /-- Without an admitted message only a void budget gives the increase. -/
  unearned : admittedOf rs = [] → (q.increased = true ↔ p.threshold.isSome = true ∧
    ∃ r ∈ rs, (p.budget r.quota.peerClass false).isVoid = true)

namespace Earning

variable {p : Policy} {q : Quota} {rs : List Ruling}

theorem start (p : Policy) (c : PeerClass) : Earning p { peerClass := c } [] where
  idle _ := ⟨rfl, rfl⟩
  lasting _ hr := absurd hr List.not_mem_nil
  earned h := by cases h
  unearned _ := by simp

/-- **Each message of the peer keeps the quota true to the rulings.** -/
theorem step (h : Earning p q rs) (hpos : p.PositiveShare) (hs : p.SoundShare) (c : PeerClass)
    (peer : PeerId) (size : Nat) :
    Earning p (p.judge c size q).1 (rs ++ [p.ruling c peer size q]) := by
  have hnew : (p.ruling c peer size q).quota = (p.judge c size q).1 := rfl
  have hclass : (p.ruling c peer size q).quota.peerClass = c := Policy.judge_peerClass p c size q
  have hflag := Policy.judge_increased p c size q
  have hgrows : admittedOf rs = [] →
      p.earned c q = (p.threshold.isSome && (p.budget c false).isVoid) := fun hnone =>
    Policy.earned_of_idle hpos hs (h.idle hnone).1 (h.idle hnone).2
  constructor
  · intro hnone
    obtain ⟨hbefore, hrefused⟩ := admittedOf_append_eq_nil.mp hnone
    -- a refused message leaves the admitted traffic as it is
    rcases Policy.judge_cases p c size q with ⟨e, -, hj⟩ | ⟨-, hj⟩
    · rw [hj]
      exact h.idle hbefore
    · exact absurd (congrArg Prod.snd hj) hrefused
  · intro r hr hinc
    rcases List.mem_append.mp hr with hr | hr
    · rw [hflag, h.lasting r hr hinc, Bool.true_or]
    · rwa [List.mem_singleton.mp hr] at hinc
  · intro hinc
    cases hold : q.increased with
    | true =>
      obtain ⟨before, r, after, rfl, hr, hfirst, hreason⟩ := h.earned hold
      exact ⟨before, r, after ++ [p.ruling c peer size q], by simp, hr, hfirst, hreason⟩
    | false =>
      -- this message is the first one with the increase
      refine ⟨rs, p.ruling c peer size q, [], rfl, hinc, ?_, ?_⟩
      · intro x hx
        by_contra hx'
        rw [h.lasting x hx (eq_true_of_ne_false hx')] at hold
        cases hold
      · by_cases hnone : admittedOf rs = []
        · rw [hflag, hold, Bool.false_or, hgrows hnone, Bool.and_eq_true] at hinc
          rw [hclass]
          exact Or.inr hinc.2
        · exact Or.inl hnone
  · intro hnone
    obtain ⟨hbefore, -⟩ := admittedOf_append_eq_nil.mp hnone
    rw [hflag, Bool.or_eq_true, h.unearned hbefore, hgrows hbefore, Bool.and_eq_true,
      ← and_or_left]
    simp only [List.mem_append, List.mem_singleton, or_and_right, exists_or, exists_eq_left, hclass]

end Earning

namespace Tier

/-- **The increase follows an admitted message, unless the plain budget is void.** In every run of a
tier that was built from settings, if a peer has the increase, then the message since the last reset
with which it got it came after an admitted one, or the plain budget of its class had no message or
no byte. As long as nothing of a peer has been admitted, its next message, of whatever size, has the
increase exactly if it is active and that budget is void for this message or one before it; so
otherwise the message is held against the plain budget. -/
theorem increase_follows_admission {speed : Speed} {cfg : TierConfig} {cache : CacheConfig}
    {t : Tier} (ht : make? speed cfg cache = .ok t) (calls : List TierCall) (peer : PeerId) :
    let s := t.transcript calls
    let own := s.own peer
    let void := fun c : PeerClass => (t.policy.budget c false).isVoid = true
    ((s.quota peer).increased = true →
      ∃ before r after, own = before ++ r :: after ∧ r.quota.increased = true ∧
        (∀ x ∈ before, x.quota.increased = false) ∧
        ((∃ x ∈ before, x.admission = .admitted) ∨ void r.quota.peerClass)) ∧
    ((∀ x ∈ own, x.admission ≠ .admitted) → ∀ c size,
      let q := (s.tier.consume c peer size).2.1
      let b := t.policy.budget c q.increased
      (q.increased = true ↔
        cfg.input.increase.isActive = true ∧ (void c ∨ ∃ x ∈ own, void x.quota.peerClass)) ∧
      ((s.tier.consume c peer size).2.2 = .admitted ↔
        size ≤ b.maxSize ∧ q.received ≤ b.maxMessages ∧ q.receivedSize ≤ b.maxSize)) := by
  intro s own void
  obtain ⟨hrules, rfl⟩ := make?_eq_ok_iff.mp ht
  have hpos := Policy.positiveShare_ofConfig speed cfg cache
  have hs := Policy.soundShare_ofConfig cache fun r hr => hrules r (List.mem_append_left _ hr)
  have hearning : Earning (.ofConfig speed cfg cache) (s.quota peer) own :=
    Transcript.own_induction (Earning.start _)
      (fun _ _ c size h => h.step hpos hs c peer size) calls
  have hpolicy : s.tier.policy = .ofConfig speed cfg cache := Transcript.policy_transcript _ calls
  constructor
  · intro hinc
    obtain ⟨before, r, after, hsplit, hr, hfirst, hreason⟩ := hearning.earned hinc
    refine ⟨before, r, after, hsplit, hr, hfirst, hreason.imp_left fun hne => ?_⟩
    by_contra hnone
    exact hne (admittedOf_eq_nil_iff.mpr fun x hx hadmitted => hnone ⟨x, hx, hadmitted⟩)
  · intro hnone c size q b
    have hconsume : (s.tier.consume c peer size).2 =
        (Policy.ofConfig speed cfg cache).judge c size (s.quota peer) := by
      rw [← hpolicy]
      rfl
    have hbefore := admittedOf_eq_nil_iff.mpr hnone
    have hflag : q.increased = ((s.quota peer).increased ||
        (Policy.ofConfig speed cfg cache).earned c (s.quota peer)) := by
      rw [← Policy.judge_increased _ c size, ← hconsume]
    refine ⟨?_, ?_⟩
    · rw [hflag, Bool.or_eq_true, hearning.unearned hbefore,
        Policy.earned_of_idle hpos hs (hearning.idle hbefore).1 (hearning.idle hbefore).2,
        Bool.and_eq_true, ← and_or_left, Policy.isSome_threshold_ofConfig]
      exact and_congr_right fun _ => or_comm
    · have hadmits := Policy.judge_admitted_iff (.ofConfig speed cfg cache) c size (s.quota peer)
      rwa [← hconsume] at hadmits

/-- A peer that earns the increase with its first message and then uses it. -/
def diligentCalls : List TierCall :=
  [.message .normal ⟨[1]⟩ 72, .message .normal ⟨[2]⟩ 99, .message .normal ⟨[1]⟩ 40]

/-- One peer has the increase after an admitted message; the other one has had a message refused,
and no message unlocks the increase for it. -/
theorem diligentCalls_earned :
    let s := narrow.transcript diligentCalls
    make? .fast narrowConfig {} = .ok narrow ∧
      (s.quota ⟨[1]⟩).increased = true ∧
      (∃ before r after, s.own ⟨[1]⟩ = before ++ r :: after ∧ r.quota.increased = true ∧
        ∃ x ∈ before, x.admission = .admitted) ∧
      (s.own ⟨[2]⟩).map (·.admission) = [.rejected (.messageSize 99 80)] ∧
      ∀ size, (s.tier.consume .normal ⟨[2]⟩ size).2.1.increased = false := by
  have hvoid : ∀ c, (narrow.policy.budget c false).isVoid = false := by
    intro c
    cases c <;> decide +kernel
  have hinc : ((narrow.transcript diligentCalls).quota ⟨[1]⟩).increased = true := by
    decide +kernel
  have hrefused : ((narrow.transcript diligentCalls).own ⟨[2]⟩).map (·.admission) =
      [.rejected (.messageSize 99 80)] := by decide +kernel
  refine ⟨make?_narrow, hinc, ?_, hrefused, ?_⟩
  · obtain ⟨before, r, after, hsplit, hr, -, hreason⟩ :=
      (increase_follows_admission make?_narrow diligentCalls ⟨[1]⟩).1 hinc
    exact ⟨before, r, after, hsplit, hr, hreason.resolve_right (ne_true_of_eq_false (hvoid _))⟩
  · have hnone : ∀ x ∈ (narrow.transcript diligentCalls).own ⟨[2]⟩, x.admission ≠ .admitted := by
      intro x hx hadmitted
      have hmem := List.mem_map_of_mem (f := (·.admission)) hx
      rw [hrefused, hadmitted] at hmem
      simp at hmem
    intro size
    obtain ⟨hiff, -⟩ :=
      (increase_follows_admission make?_narrow diligentCalls ⟨[2]⟩).2 hnone .normal size
    by_contra hyes
    obtain ⟨-, hc | ⟨x, -, hx⟩⟩ := hiff.mp (eq_true_of_ne_false hyes)
    · exact ne_true_of_eq_false (hvoid _) hc
    · exact ne_true_of_eq_false (hvoid _) hx

/-- The fast tier for production with a budget of one message and a thousand bytes, of which the
reserved share leaves everyone else no message. -/
def slimConfig : TierConfig :=
  { narrowConfig with input := { narrowConfig.input with messages := 1, totalSize := 1000 } }

/-- The tier of the slim budget that has seen nobody. -/
def slim : Tier := new (.ofConfig .fast slimConfig {})

/-- **Against a void budget a single message unlocks the increase**, and even one that is too large
for the plain budget is admitted for it. -/
theorem void_budget_unlocks :
    let s := slim.transcript [.message .normal ⟨[1]⟩ 1000]
    make? .fast slimConfig {} = .ok slim ∧
      slim.policy.budget .normal false = ⟨0, 800⟩ ∧
      (s.quota ⟨[1]⟩).increased = true ∧
      (s.own ⟨[1]⟩).map (fun r => (r.size, r.admission)) = [(1000, .admitted)] :=
  ⟨make?_eq_ok_iff.mpr ⟨by decide +kernel, rfl⟩, by decide +kernel, by decide +kernel,
    by decide +kernel⟩

end Tier

end Floodgate
