import Floodgate.Proofs.Double.Share
import Floodgate.Proofs.Tier.Window

/-! # Peers that keep their class

A peer that keeps its class for an interval is admitted until it is refused for the first time, and
from then on it is refused: a refused message counts as received and earns nothing. So its messages
up to one are all admitted exactly if each of them fits behind the messages before it
(`judge_sustain_steady`), which is a statement about the sizes alone (`Policy.Fits`). -/

namespace Floodgate

/-- The quota of a peer whose messages have all been admitted. -/
def Quota.ofAdmitted (d : PeerClass) (increased : Bool) (sizes : List Nat) : Quota where
  received := min sizes.length countLimit
  receivedSize := min sizes.sum sizeLimit
  admitted := min sizes.length countLimit
  admittedSize := min sizes.sum sizeLimit
  peerClass := d
  increased := increased

namespace Policy

/-! ### Reaching a share -/

/-- The share that earns the increase lies between zero and one. -/
def SoundShare (p : Policy) : Prop :=
  ∀ x, p.threshold = some x → x.within .zero (.ofNat 1) = true

theorem soundShare_ofConfig {speed : Speed} {c : TierConfig} (cache : CacheConfig)
    (h : ∀ r ∈ c.rules speed, r.1 = true) : (ofConfig speed c cache).SoundShare := by
  intro x hx
  have hrule := h (c.input.increase.threshold.within .zero (.ofNat 1),
    .tier speed (.threshold c.input.increase.threshold)) (by simp [TierConfig.rules])
  simp only [ofConfig] at hx
  split_ifs at hx
  rw [Option.some.injEq] at hx
  rwa [← hx]

theorem isSome_threshold_ofConfig (speed : Speed) (c : TierConfig) (cache : CacheConfig) :
    (ofConfig speed c cache).threshold.isSome = c.input.increase.isActive := by
  unfold ofConfig
  cases c.input.increase.isActive <;> rfl

theorem reaches_mono {x : Double} {n n' max : Nat} (h : n ≤ n') (hr : reaches x n max = true) :
    reaches x n' max = true :=
  Double.le_ofNat_mono h hr

theorem reaches_of_le {x : Double} {n max : Nat} (hx : x.within .zero (.ofNat 1) = true)
    (hmax : max ≤ sizeLimit) (h : max ≤ n) : reaches x n max = true := by
  have hle : max ≤ 2 ^ 64 := by
    unfold sizeLimit at hmax
    omega
  exact Double.le_ofNat_mono h (Double.mul_ofNat_le hx hle)

variable {p : Policy} {c : PeerClass}

theorem earned_mono {q q' : Quota} (hcount : q.admitted ≤ q'.admitted)
    (hsize : q.admittedSize ≤ q'.admittedSize) (h : p.earned c q = true) :
    p.earned c q' = true := by
  cases hx : p.threshold with
  | none =>
    simp only [earned, hx] at h
    cases h
  | some x =>
    simp only [earned, hx, Bool.or_eq_true] at h ⊢
    exact h.imp (reaches_mono hcount) (reaches_mono hsize)

/-! ### Messages that fit -/

/-- Have the messages of a peer, all of them admitted, earned the increase? -/
def earnedBy (p : Policy) (c : PeerClass) (sizes : List Nat) : Bool :=
  p.earned c (.ofAdmitted c false sizes)

theorem isSome_of_earnedBy {before : List Nat} (h : p.earnedBy c before = true) :
    p.threshold.isSome = true := by
  unfold earnedBy earned at h
  split at h
  · cases h
  · rename_i x hx
    rw [hx, Option.isSome_some]

/-- A message fits behind others if the budget that they have earned covers them all. -/
def Fits (p : Policy) (c : PeerClass) (before : List Nat) (size : Nat) : Prop :=
  excess? (p.budget c (p.earnedBy c before)) size (.ofAdmitted c false (before ++ [size])) = none

/-- Each of the messages fits behind those before it. -/
def AllFit (p : Policy) (c : PeerClass) (sizes : List Nat) : Prop :=
  ∀ j size, sizes[j]? = some size → p.Fits c (sizes.take j) size

theorem allFit_nil : p.AllFit c [] := by
  intro j size h
  simp at h

theorem allFit_append {sizes : List Nat} {size : Nat} :
    p.AllFit c (sizes ++ [size]) ↔ p.AllFit c sizes ∧ p.Fits c sizes size := by
  constructor
  · intro h
    constructor
    · intro j n hj
      obtain ⟨hlt, -⟩ := List.getElem?_eq_some_iff.mp hj
      have hn := h j n (by rw [List.getElem?_append_left hlt, hj])
      rwa [List.take_append_of_le_length hlt.le] at hn
    · have hlast := h sizes.length size (by simp)
      rwa [List.take_left] at hlast
  · rintro ⟨hall, hlast⟩ j n hj
    obtain ⟨hlt, -⟩ := List.getElem?_eq_some_iff.mp hj
    rw [List.length_append, List.length_singleton] at hlt
    rcases Nat.lt_or_eq_of_le (Nat.le_of_lt_succ hlt) with hlt | rfl
    · rw [List.getElem?_append_left hlt] at hj
      rw [List.take_append_of_le_length hlt.le]
      exact hall j n hj
    · rw [List.getElem?_concat_length, Option.some.injEq] at hj
      rw [List.take_left, ← hj]
      exact hlast

theorem allFit_take {sizes : List Nat} {i : Nat} :
    p.AllFit c (sizes.take (i + 1)) ↔
      ∀ j ≤ i, ∀ size, sizes[j]? = some size → p.Fits c (sizes.take j) size := by
  constructor
  · intro h j hj size hsize
    have hfits := h j size (by rw [List.getElem?_take_of_lt (Nat.lt_succ_of_le hj), hsize])
    rwa [List.take_take, Nat.min_eq_left (Nat.le_succ_of_le hj)] at hfits
  · intro h j size hsize
    rw [List.getElem?_take] at hsize
    split_ifs at hsize with hlt
    rw [List.take_take, Nat.min_eq_left hlt.le]
    exact h j (Nat.le_of_lt_succ hlt) size hsize

/-! ### A peer that is refused -/

/-- The budget that the next message of a class will be held against. -/
def nextBudget (p : Policy) (c : PeerClass) (q : Quota) : Budget :=
  p.budget c (q.increased || p.earned c q)

/-- What has been received exceeds the budget of the next message already. -/
structure Spent (p : Policy) (c : PeerClass) (q : Quota) : Prop where
  received : q.received ≤ countLimit
  receivedSize : q.receivedSize ≤ sizeLimit
  exceeds : (p.nextBudget c q).maxMessages < q.received ∨
    (p.nextBudget c q).maxSize < q.receivedSize

theorem nextBudget_arrive (size : Nat) (q : Quota) :
    p.nextBudget c (p.arrive c size q) = p.nextBudget c q := by
  have hearned : p.earned c (p.arrive c size q) = p.earned c q := rfl
  have hincreased : (p.arrive c size q).increased = (q.increased || p.earned c q) := rfl
  rw [nextBudget, nextBudget, hearned, hincreased, Bool.or_assoc, Bool.or_self]

/-- **A peer that has spent its budget is refused**, and has spent its budget still. -/
theorem Spent.judge {q : Quota} (h : p.Spent c q) (size : Nat) :
    (p.judge c size q).2 ≠ .admitted ∧ p.Spent c (p.judge c size q).1 := by
  have hcount : q.received ≤ (p.arrive c size q).received := by
    show q.received ≤ min (q.received + 1) countLimit
    have := h.received
    omega
  have hsize : q.receivedSize ≤ (p.arrive c size q).receivedSize := by
    show q.receivedSize ≤ min (q.receivedSize + size) sizeLimit
    have := h.receivedSize
    omega
  have hspent : p.Spent c (p.arrive c size q) :=
    { received := Nat.min_le_right _ _
      receivedSize := Nat.min_le_right _ _
      exceeds := by
        rw [nextBudget_arrive]
        exact h.exceeds.imp (lt_of_lt_of_le · hcount) (lt_of_lt_of_le · hsize) }
  rcases judge_cases p c size q with ⟨e, -, hj⟩ | ⟨hnone, hj⟩
  · rw [hj]
    exact ⟨Admission.noConfusion, hspent⟩
  · obtain ⟨-, hmessages, hbytes⟩ := excess?_eq_none_iff.mp hnone
    have hbudget : p.budget c (p.arrive c size q).increased = p.nextBudget c q := rfl
    rw [hbudget] at hmessages hbytes
    rcases h.exceeds with hlt | hlt <;> omega

/-- **A message that is refused leaves the budget spent.** -/
theorem spent_of_refused {size : Nat} {q : Quota} (hsize : size ≤ sizeLimit)
    (h : (p.judge c size q).2 ≠ .admitted) : p.Spent c (p.judge c size q).1 := by
  rcases judge_cases p c size q with ⟨e, hsome, hj⟩ | ⟨-, hj⟩
  · rw [hj]
    refine ⟨Nat.min_le_right _ _, Nat.min_le_right _ _, ?_⟩
    rw [nextBudget_arrive]
    have hexcess : ¬excess? (p.nextBudget c q) size (p.arrive c size q) = none :=
      fun hnone => Option.some_ne_none e (hsome.symm.trans hnone)
    rw [excess?_eq_none_iff, not_and_or, not_and_or, not_le, not_le, not_le] at hexcess
    rcases hexcess with hlarge | hexceeds
    · -- a message that is too large by itself is too large together with others
      have hsum : size ≤ (p.arrive c size q).receivedSize :=
        Nat.le_min.mpr ⟨Nat.le_add_left size _, hsize⟩
      exact Or.inr (hlarge.trans_le hsum)
    · exact hexceeds
  · rw [hj] at h
    exact absurd rfl h

/-! ### Messages of one class -/

theorem addCount_length (sizes : List Nat) (size : Nat) :
    addCount (min sizes.length countLimit) 1 = min (sizes ++ [size]).length countLimit := by
  rw [List.length_append, List.length_singleton, addCount]
  omega

theorem addSize_sum (sizes : List Nat) (size : Nat) :
    addSize (min sizes.sum sizeLimit) size = min (sizes ++ [size]).sum sizeLimit := by
  rw [List.sum_append, List.sum_singleton, addSize]
  omega

section OfAdmitted

variable {d : PeerClass} {inc : Bool} {sizes : List Nat}
  (hinc : inc = true → p.earnedBy c sizes = true)
include hinc

theorem increased_ofAdmitted :
    (inc || p.earned c (.ofAdmitted d inc sizes)) = p.earnedBy c sizes := by
  have hearned : p.earned c (.ofAdmitted d inc sizes) = p.earnedBy c sizes := rfl
  rw [hearned]
  cases inc with
  | false => exact Bool.false_or _
  | true => rw [hinc rfl, Bool.true_or]

theorem arrive_ofAdmitted (size : Nat) :
    p.arrive c size (.ofAdmitted d inc sizes) =
      { Quota.ofAdmitted c (p.earnedBy c sizes) (sizes ++ [size]) with
        admitted := min sizes.length countLimit
        admittedSize := min sizes.sum sizeLimit } := by
  have hflag := increased_ofAdmitted (d := d) hinc
  simp only [Quota.ofAdmitted] at hflag
  simp only [arrive, Quota.ofAdmitted, hflag, addCount_length sizes size, addSize_sum]

theorem judge_of_fits {size : Nat} (h : p.Fits c sizes size) :
    p.judge c size (.ofAdmitted d inc sizes) =
      (.ofAdmitted c (p.earnedBy c sizes) (sizes ++ [size]), .admitted) := by
  have harrive := arrive_ofAdmitted (d := d) hinc size
  rcases judge_cases p c size (.ofAdmitted d inc sizes) with ⟨e, hsome, -⟩ | ⟨-, hj⟩
  · rw [harrive] at hsome
    exact absurd (hsome.symm.trans h) (Option.some_ne_none e)
  · rw [hj, harrive, grant]
    simp only [Quota.ofAdmitted, addCount_length sizes size, addSize_sum]

theorem judge_of_not_fits {size : Nat} (hsize : size ≤ sizeLimit) (h : ¬ p.Fits c sizes size) :
    (p.judge c size (.ofAdmitted d inc sizes)).2 ≠ .admitted ∧
      p.Spent c (p.judge c size (.ofAdmitted d inc sizes)).1 := by
  have harrive := arrive_ofAdmitted (d := d) hinc size
  have hrefused : (p.judge c size (.ofAdmitted d inc sizes)).2 ≠ .admitted := by
    rcases judge_cases p c size (.ofAdmitted d inc sizes) with ⟨e, -, hj⟩ | ⟨hnone, -⟩
    · rw [hj]
      exact Admission.noConfusion
    · rw [harrive] at hnone
      exact absurd hnone h
  exact ⟨hrefused, spent_of_refused hsize hrefused⟩

end OfAdmitted

theorem earnedBy_append {sizes : List Nat} (size : Nat) (h : p.earnedBy c sizes = true) :
    p.earnedBy c (sizes ++ [size]) = true := by
  refine earned_mono ?_ ?_ h
  · show min sizes.length countLimit ≤ min (sizes ++ [size]).length countLimit
    rw [List.length_append]
    omega
  · show min sizes.sum sizeLimit ≤ min (sizes ++ [size]).sum sizeLimit
    rw [List.sum_append]
    omega

/-- **A peer of one class either has had all its messages admitted or has spent its budget.** -/
theorem sustain_steady {sizes : List Nat} (hsizes : ∀ n ∈ sizes, n ≤ sizeLimit) :
    (p.AllFit c sizes ∧ ∃ d inc, (inc = true → p.earnedBy c sizes = true) ∧
        p.sustain {} (sizes.map (c, ·)) = .ofAdmitted d inc sizes) ∨
      (¬ p.AllFit c sizes ∧ p.Spent c (p.sustain {} (sizes.map (c, ·)))) := by
  induction sizes using List.reverseRecOn with
  | nil =>
    refine Or.inl ⟨allFit_nil, .normal, false, fun h => ?_, rfl⟩
    cases h
  | append_singleton sizes size ih =>
    have hsize : size ≤ sizeLimit := hsizes size (by simp)
    rw [List.map_append, List.map_singleton, sustain_append]
    rcases ih fun n hn => hsizes n (List.mem_append_left _ hn) with
      ⟨hall, d, inc, hinc, hq⟩ | ⟨hnot, hspent⟩
    · rw [hq]
      by_cases hfits : p.Fits c sizes size
      · refine Or.inl ⟨allFit_append.mpr ⟨hall, hfits⟩, c, p.earnedBy c sizes, ?_, ?_⟩
        · exact earnedBy_append size
        · rw [judge_of_fits hinc hfits]
      · exact Or.inr ⟨fun h => hfits (allFit_append.mp h).2, (judge_of_not_fits hinc hsize hfits).2⟩
    · exact Or.inr ⟨fun h => hnot (allFit_append.mp h).1, (hspent.judge size).2⟩

theorem judge_sustain_steady {sizes : List Nat} {size : Nat}
    (hsizes : ∀ n ∈ sizes ++ [size], n ≤ sizeLimit) :
    (p.judge c size (p.sustain {} (sizes.map (c, ·)))).2 = .admitted ↔
      p.AllFit c (sizes ++ [size]) := by
  have hsize : size ≤ sizeLimit := hsizes size (by simp)
  rw [allFit_append]
  rcases sustain_steady (p := p) (c := c) fun n hn => hsizes n (List.mem_append_left _ hn) with
    ⟨hall, d, inc, hinc, hq⟩ | ⟨hnot, hspent⟩
  · rw [hq]
    by_cases hfits : p.Fits c sizes size
    · rw [judge_of_fits hinc hfits]
      exact ⟨fun _ => ⟨hall, hfits⟩, fun _ => rfl⟩
    · exact ⟨fun h => absurd h (judge_of_not_fits hinc hsize hfits).1, fun h => absurd h.2 hfits⟩
  · exact ⟨fun h => absurd h (hspent.judge size).1, fun h => absurd h.1 hnot⟩

/-- **The messages of a peer of one class are admitted up to the first that does not fit.** -/
theorem decisions_steady {sizes : List Nat} (hsizes : ∀ n ∈ sizes, n ≤ sizeLimit) (i : Nat) :
    (p.decisions {} (sizes.map (c, ·)))[i]? = some .admitted ↔
      i < sizes.length ∧ p.AllFit c (sizes.take (i + 1)) := by
  rw [getElem?_decisions, List.getElem?_map, ← List.map_take, Option.map_map]
  rcases hi : sizes[i]? with _ | size
  · have hle := List.getElem?_eq_none_iff.mp hi
    exact ⟨nofun, fun h => absurd h.1 (not_lt.mpr hle)⟩
  · obtain ⟨hlt, hget⟩ := List.getElem?_eq_some_iff.mp hi
    have htake : sizes.take (i + 1) = sizes.take i ++ [size] := by
      rw [List.take_add_one, hi]
      rfl
    rw [htake, ← judge_sustain_steady fun n hn => hsizes n (List.mem_of_mem_take (htake ▸ hn))]
    simp [hlt]

end Policy

namespace Tier

/-- **A message of a peer that has kept its class since the last reset is admitted exactly if it and
all before it fit.** -/
theorem admitted_iff_allFit {p : Policy} {calls : List TierCall} {peer : PeerId} {c : PeerClass}
    {sizes : List UInt64} (h : window peer calls = sizes.map fun n => (c, n.toNat)) (i : Nat) :
    ((((new p).transcript calls).own peer).map (·.admission))[i]? = some .admitted ↔
      i < sizes.length ∧ p.AllFit c ((sizes.map UInt64.toNat).take (i + 1)) := by
  have hwindow : window peer calls = (sizes.map UInt64.toNat).map (c, ·) := by
    rw [h, List.map_map]
    rfl
  have hsizes : ∀ n ∈ sizes.map UInt64.toNat, n ≤ sizeLimit := by
    intro n hn
    obtain ⟨m, -, rfl⟩ := List.mem_map.mp hn
    exact Nat.le_sub_one_of_lt m.toNat_lt
  rw [own_admissions, hwindow, Policy.decisions_steady hsizes, List.length_map]

end Tier

end Floodgate
