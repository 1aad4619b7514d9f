import Floodgate.Proofs.Clock.Periods
import Floodgate.Proofs.Tier.Safety

/-! # The rate of a tier

In an interval no more messages of a peer are admitted than the largest budget allows that the peer
can get (`Tier.length_admittedOf_le`). So in a stretch of timed calls as many times more are
admitted as there are resets in it, and once more (`Tier.length_admissions_le`); and if the calls
come in the order of time, a window of time takes in such a stretch
(`Tier.length_window_admissions_le`). -/

namespace Floodgate

/-- Rulings whose budgets stay below a limit that binds admit no more messages than it allows. -/
theorem Accounted.length_le {p : Policy} {q : Quota} {rs : List Ruling} (h : Accounted p q rs)
    {max : Nat} (hmax : ∀ r ∈ rs, (r.budget p).maxMessages ≤ max) (hlt : max < countLimit) :
    (admittedOf rs).length ≤ max := by
  cases hlast : (admittedOf rs).getLast? with
  | none =>
    rw [List.getLast?_eq_none_iff.mp hlast]
    exact Nat.zero_le _
  | some r =>
    have hle := hmax r (List.mem_filter.mp (List.mem_of_getLast? hlast)).1
    exact ((h.covered r hlast).messages (hle.trans_lt hlt)).trans hle

/-- A call on a tier, and when it is made. -/
structure TimedCall where
  now : Instant
  call : TierCall

/-- The instants of the resets among calls. -/
def resets (calls : List TimedCall) : List Instant :=
  calls.filterMap fun x =>
    match x.call with
    | .message .. => none
    | .reset => some x.now

theorem resets_append (xs ys : List TimedCall) : resets (xs ++ ys) = resets xs ++ resets ys :=
  List.filterMap_append

theorem exists_of_mem_resets {calls : List TimedCall} {r : Instant} (h : r ∈ resets calls) :
    ∃ x ∈ calls, x.now = r := by
  obtain ⟨x, hx, hr⟩ := List.mem_filterMap.mp h
  refine ⟨x, hx, ?_⟩
  split at hr
  · cases hr
  · exact Option.some.inj hr

/-- The calls come in the order of time. -/
def InOrder (calls : List TimedCall) : Prop := calls.Pairwise fun x y => x.now ≤ y.now

/-- Calls that come in the order of time can be cut at an instant. -/
theorem InOrder.exists_cut {calls : List TimedCall} (h : InOrder calls) (i : Instant) :
    ∃ early late, calls = early ++ late ∧ (∀ x ∈ early, x.now < i) ∧ ∀ x ∈ late, i ≤ x.now := by
  induction calls with
  | nil => exact ⟨[], [], rfl, by simp, by simp⟩
  | cons x calls ih =>
    obtain ⟨hx, hcalls⟩ := List.pairwise_cons.mp h
    rcases Nat.lt_or_ge x.now i with hlt | hle
    · obtain ⟨early, late, rfl, hearly, hlate⟩ := ih hcalls
      exact ⟨x :: early, late, rfl, List.forall_mem_cons.mpr ⟨hlt, hearly⟩, hlate⟩
    · exact ⟨[], x :: calls, rfl, by simp,
        List.forall_mem_cons.mpr ⟨hle, fun y hy => hle.trans (hx y hy)⟩⟩

namespace Tier

variable {t : Tier} {peer : PeerId}

/-! ### The ceiling of an interval -/

section Ceiling

variable {speed : Speed} {c : TierConfig} {cache : CacheConfig}

/-- The most messages of a peer that the tier of settings admits in an interval. -/
def ceiling (t : Tier) (c : TierConfig) : Nat :=
  (t.policy.budget .reserved c.input.increase.isActive).maxMessages

theorem interval_of_make? (ht : make? speed c cache = .ok t) :
    0 < c.intervalSeconds.toNat ∧ t.policy.interval = .ofSeconds c.intervalSeconds.toNat := by
  obtain ⟨hrules, rfl⟩ := make?_eq_ok_iff.mp ht
  refine ⟨?_, rfl⟩
  have hrange : upTo c.intervalSeconds.toNat Config.maxInterval = true :=
    hrules _ (List.mem_append_left _ List.mem_cons_self)
  rw [upTo, Bool.and_eq_true, decide_eq_true_iff] at hrange
  exact hrange.1

theorem increased_eq_false {p : Policy} (h : p.threshold = none) (calls : List TierCall)
    (peer : PeerId) : (((new p).transcript calls).quota peer).increased = false :=
  Transcript.own_induction (P := fun q _ => q.increased = false) (fun _ => rfl)
    (fun q rs d size hq => by rw [Policy.judge_increased, hq, Policy.earned, h]; rfl) calls

/-- **In an interval no more messages of a peer are admitted than the largest budget allows.** -/
theorem length_admittedOf_le (ht : make? speed c cache = .ok t) (hlt : t.ceiling c < countLimit)
    (calls : List TierCall) (peer : PeerId) :
    (admittedOf ((t.transcript calls).own peer)).length ≤ t.ceiling c := by
  have hvalid := valid_of_make? ht
  obtain ⟨-, rfl⟩ := make?_eq_ok_iff.mp ht
  have hacc := accounted_transcript (.ofConfig speed c cache) calls peer
  refine hacc.length_le (fun r hr => ?_) hlt
  cases hactive : c.input.increase.isActive with
  | true =>
    rw [ceiling, hactive]
    exact (Policy.budget_le_increased hvalid _ _).1
  | false =>
    have hnone : (Policy.ofConfig speed c cache).threshold = none := by
      rw [Policy.ofConfig, hactive]
      rfl
    have hplain : r.quota.increased = false := by
      by_contra hinc
      have hq := hacc.increased r hr (eq_true_of_ne_false hinc)
      rw [increased_eq_false hnone] at hq
      cases hq
    rw [ceiling, hactive, Ruling.budget, hplain]
    exact (Policy.budget_plain_le hvalid _).1

end Ceiling

/-! ### Timed calls -/

/-- The tier after a call. -/
def call (t : Tier) : TierCall → Tier
  | .message c peer size => (t.consume c peer size).1
  | .reset => t.reset

/-- The tier after timed calls. -/
def after (t : Tier) (calls : List TimedCall) : Tier := calls.foldl (fun t x => t.call x.call) t

/-- When a call admits a message of a peer. -/
def admission (t : Tier) (peer : PeerId) (x : TimedCall) : List Instant :=
  match x.call with
  | .message c sender size =>
    if sender = peer ∧ (t.consume c sender size).2.2.isAdmitted then [x.now] else []
  | .reset => []

/-- When the messages of a peer are admitted in a run. -/
def admissions (t : Tier) (peer : PeerId) : List TimedCall → List Instant
  | [] => []
  | x :: calls => t.admission peer x ++ (t.call x.call).admissions peer calls

theorem after_append (t : Tier) (xs ys : List TimedCall) :
    t.after (xs ++ ys) = (t.after xs).after ys := List.foldl_append

theorem admissions_append (t : Tier) (peer : PeerId) (xs ys : List TimedCall) :
    t.admissions peer (xs ++ ys) = t.admissions peer xs ++ (t.after xs).admissions peer ys := by
  induction xs generalizing t with
  | nil => rfl
  | cons x xs ih =>
    rw [List.cons_append, admissions, ih, admissions, List.append_assoc]
    rfl

theorem transcript_tier (t : Tier) (calls : List TimedCall) :
    (t.transcript (calls.map (·.call))).tier = t.after calls := by
  induction calls using List.reverseRecOn with
  | nil => rfl
  | append_singleton calls x ih =>
    rw [List.map_append, List.map_singleton, Transcript.transcript_append, after_append, ← ih]
    show _ = Tier.call _ x.call
    cases x.call <;> rfl

theorem mem_admission {x : TimedCall} {i : Instant} (h : i ∈ t.admission peer x) : i = x.now := by
  unfold admission at h
  split at h
  · split_ifs at h
    · exact List.mem_singleton.mp h
    · exact absurd h List.not_mem_nil
  · exact absurd h List.not_mem_nil

theorem exists_of_mem_admissions {calls : List TimedCall} {i : Instant}
    (h : i ∈ t.admissions peer calls) : ∃ x ∈ calls, x.now = i := by
  induction calls generalizing t with
  | nil => exact absurd h List.not_mem_nil
  | cons x calls ih =>
    rcases List.mem_append.mp h with h | h
    · exact ⟨x, List.mem_cons_self, (mem_admission h).symm⟩
    · obtain ⟨y, hy, hi⟩ := ih h
      exact ⟨y, List.mem_cons_of_mem _ hy, hi⟩

/-! ### A stretch of calls -/

theorem admission_message (t : Tier) (peer : PeerId) (now : Instant) (c : PeerClass)
    (sender : PeerId) (size : Nat) :
    t.admission peer ⟨now, .message c sender size⟩ =
      if sender = peer ∧ (t.consume c sender size).2.2.isAdmitted then [now] else [] := rfl

theorem length_admittedOf_message (s : Transcript) (now : Instant) (c : PeerClass) (sender : PeerId)
    (size : Nat) :
    (admittedOf ((s.call (.message c sender size)).own peer)).length =
      (admittedOf (s.own peer)).length +
        (s.tier.admission peer ⟨now, .message c sender size⟩).length := by
  have hruling : (s.tier.policy.ruling c sender size (s.quota sender)).admission =
      (s.tier.consume c sender size).2.2 := rfl
  rw [Transcript.own_message, admission_message]
  by_cases h : sender = peer
  · subst h
    rw [if_pos rfl, admittedOf_append, hruling]
    by_cases ha : (s.tier.consume c sender size).2.2.isAdmitted = true
    · rw [if_pos ha, if_pos ⟨rfl, ha⟩, List.length_append]
      rfl
    · rw [if_neg ha, if_neg fun hadm => ha hadm.2]
      rfl
  · rw [if_neg (Ne.symm h), if_neg fun hadm => h hadm.1]
    rfl

/-- **In a stretch of calls the messages of as many intervals are admitted as there are resets, and
of one more.** -/
theorem length_admissions_le {max : Nat}
    (hmax : ∀ calls, (admittedOf ((t.transcript calls).own peer)).length ≤ max)
    (before stretch : List TimedCall) :
    ((t.after before).admissions peer stretch).length ≤ ((resets stretch).length + 1) * max := by
  have hclose : ∀ {n k : Nat} {calls : List TierCall},
      n ≤ k * max + (admittedOf ((t.transcript calls).own peer)).length → n ≤ (k + 1) * max :=
    fun h => (h.trans (Nat.add_le_add_left (hmax _) _)).trans (Nat.succ_mul _ _).ge
  -- those of the interval that has not ended are all among its rulings
  have hopen : ((t.after before).admissions peer stretch).length ≤
      (resets stretch).length * max +
        (admittedOf ((t.transcript ((before ++ stretch).map (·.call))).own peer)).length := by
    induction stretch using List.reverseRecOn with
    | nil => exact Nat.zero_le _
    | append_singleton stretch x ih =>
      have hcalls : (before ++ (stretch ++ [x])).map (·.call) =
          (before ++ stretch).map (·.call) ++ [x.call] := by
        rw [← List.append_assoc, List.map_append, List.map_singleton]
      have hlast : ((t.after before).after stretch).admissions peer [x] =
          (t.transcript ((before ++ stretch).map (·.call))).tier.admission peer x := by
        rw [transcript_tier, after_append]
        exact List.append_nil _
      rw [admissions_append, hlast, hcalls, resets_append, Transcript.transcript_append,
        List.length_append, List.length_append]
      obtain ⟨now, ⟨c, sender, size⟩ | _⟩ := x
      · rw [length_admittedOf_message _ now, ← Nat.add_assoc]
        exact Nat.add_le_add_right ih _
      · exact hclose ih
  exact hclose hopen

/-! ### A window of time -/

/-- **In a window of time the messages of as many intervals are admitted as there are resets in the
window, and of one more.** -/
theorem length_window_admissions_le {max : Nat}
    (hmax : ∀ calls, (admittedOf ((t.transcript calls).own peer)).length ≤ max)
    {calls : List TimedCall} (h : InOrder calls) (start : Instant) (width : Span) :
    (Instant.window start width (t.admissions peer calls)).length ≤
      ((Instant.window start width (resets calls)).length + 1) * max := by
  obtain ⟨early, rest, rfl, hearly, hrest⟩ := h.exists_cut start
  have horder : InOrder rest := (List.pairwise_append.mp h).2.1
  obtain ⟨inside, late, rfl, hinside, hlate⟩ := horder.exists_cut (start + width)
  -- what is admitted in the window is admitted inside
  have hadmitted :
      (Instant.window start width (t.admissions peer (early ++ (inside ++ late)))).length ≤
        ((t.after early).admissions peer inside).length := by
    have hbefore : Instant.window start width (t.admissions peer early) = [] := by
      refine Instant.window_eq_nil fun i hi => .inl ?_
      obtain ⟨x, hx, rfl⟩ := exists_of_mem_admissions hi
      exact hearly x hx
    have hbehind : Instant.window start width
        (((t.after early).after inside).admissions peer late) = [] := by
      refine Instant.window_eq_nil fun i hi => .inr ?_
      obtain ⟨x, hx, rfl⟩ := exists_of_mem_admissions hi
      exact hlate x hx
    rw [admissions_append, admissions_append, Instant.window_append, Instant.window_append, hbefore,
      hbehind, List.nil_append, List.append_nil]
    exact List.length_filter_le _ _
  -- and the resets inside are all in the window
  have hresets : (resets inside).length ≤
      (Instant.window start width (resets (early ++ (inside ++ late)))).length := by
    have hall : Instant.window start width (resets inside) = resets inside := by
      refine Instant.window_eq_self fun r hr => ?_
      obtain ⟨x, hx, rfl⟩ := exists_of_mem_resets hr
      exact ⟨hrest x (List.mem_append_left _ hx), hinside x hx⟩
    rw [resets_append, resets_append, Instant.window_append, Instant.window_append, hall,
      List.length_append, List.length_append]
    omega
  exact hadmitted.trans ((length_admissions_le hmax early inside).trans
    (Nat.mul_le_mul_right _ (Nat.succ_le_succ hresets)))

end Tier

end Floodgate
