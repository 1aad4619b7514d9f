import Floodgate.Proofs.Cache.Lease
import Mathlib.Data.Set.Card

/-! # What a run makes of a time cache

A history is a list of calls with their instants, the latest first. The life of an entry goes back
to the call that created it, or to the latest `add` of its key if that came later, and `lifeSpans`
are the spans that were asked for in it. A key stands with a last refresh and a longest span
(`Stands`) if nothing that came after its last write ended its entry: a removal, a clearing, or a
sweep at which the longest span had passed since. The leases of a cache are what stands
(`lease?_after_iff`), so every lookup says what the history says (`meaning_of_history`). -/

namespace Floodgate

/-- A call on a time cache. -/
inductive CacheCall (κ α : Type) where
  | add (k : κ) (a : α) (span : Span)
  | upsert (k : κ) (a : α) (span : Span)
  | remove (k : κ)
  | clear
  | sweep

/-- Calls with their instants, the latest first. -/
abbrev CacheHistory (κ α : Type) := List (Instant × CacheCall κ α)

variable {κ α : Type} [DecidableEq κ]

namespace CacheCall

/-- The value and the span that a call writes for a key. -/
def write? (k : κ) : CacheCall κ α → Option (α × Span)
  | add k' a span | upsert k' a span => if k' = k then some (a, span) else none
  | remove _ | clear | sweep => none

/-- Does a call at an instant end the entry of a key that was refreshed at `t` for a span? A span
whose end cannot be represented is never over. -/
def Ends (k : κ) (t : Instant) (span : Span) : Instant × CacheCall κ α → Prop
  | (_, add ..) | (_, upsert ..) => False
  | (_, remove k') => k' = k
  | (_, clear) => True
  | (now, sweep) => Span.seconds (t + span) ≤ Instant.lastSecond ∧ t + span ≤ now

end CacheCall

namespace TimeCache

/-- The cache after a call at an instant. -/
def call (c : TimeCache κ α) (now : Instant) : CacheCall κ α → TimeCache κ α
  | .add k a span => c.add now k a span
  | .upsert k a span => c.upsert now k a span
  | .remove k => c.remove k
  | .clear => ∅
  | .sweep => c.sweep now

/-- The cache after a history. -/
def after : CacheHistory κ α → TimeCache κ α
  | [] => ∅
  | (now, e) :: past => (after past).call now e

end TimeCache

open TimeCache CacheCall

/-- The spans that were asked for in the life of the entry of a key: back to the latest `add`, or to
the call that found no entry and created one. Whether it found one is a matter of the history before
it, where the same is said of a shorter history. -/
def lifeSpans (k : κ) : CacheHistory κ α → List Span
  | [] => []
  | (_, .add k' _ span) :: past => if k' = k then [span] else lifeSpans k past
  | (_, .upsert k' _ span) :: past =>
    if k' = k then
      if (after past).has k then span :: lifeSpans k past else [span]
    else lifeSpans k past
  | (_, .remove _) :: past | (_, .clear) :: past | (_, .sweep) :: past => lifeSpans k past

/-- The longest span in the life of the entry of a key. -/
def longestSpan (k : κ) (past : CacheHistory κ α) : Span := (lifeSpans k past).foldr max 0

/-- A key was written last at `t` with the value `a`, the longest span in the life of its entry is
`span`, and no later call has ended the entry. -/
def Stands (k : κ) (past : CacheHistory κ α) (t : Instant) (span : Span) (a : α) : Prop :=
  ∃ later e earlier asked, past = later ++ (t, e) :: earlier ∧ write? k e = some (a, asked) ∧
    span = longestSpan k ((t, e) :: earlier) ∧
    ∀ x ∈ later, write? k x.2 = none ∧ ¬ Ends k t span x

section Stands

variable {k : κ} {past : CacheHistory κ α} {t now : Instant} {span : Span} {a : α}
  {e : CacheCall κ α}

theorem not_stands_nil : ¬ Stands k ([] : CacheHistory κ α) t span a := by
  rintro ⟨later, e, earlier, asked, h, -⟩
  cases later <;> cases h

theorem stands_cons_write {b : α} {asked : Span} (h : write? k e = some (b, asked)) :
    Stands k ((now, e) :: past) t span a ↔
      t = now ∧ a = b ∧ span = longestSpan k ((now, e) :: past) := by
  constructor
  · rintro ⟨later, e', earlier, asked', hpast, hwrite, hspan, hlater⟩
    cases later with
    | nil =>
      obtain ⟨⟨rfl, rfl⟩, rfl⟩ := by simpa using hpast
      rw [h] at hwrite
      exact ⟨rfl, by simpa using (congrArg (Option.map Prod.fst) hwrite).symm, hspan⟩
    | cons x later =>
      rw [List.cons_append, List.cons.injEq] at hpast
      have hnone := (hlater x List.mem_cons_self).1
      rw [← hpast.1, h] at hnone
      cases hnone
  · rintro ⟨rfl, rfl, hspan⟩
    exact ⟨[], e, past, asked, rfl, h, hspan, fun x hx => absurd hx List.not_mem_nil⟩

theorem stands_cons_other (h : write? k e = none) :
    Stands k ((now, e) :: past) t span a ↔ ¬ Ends k t span (now, e) ∧ Stands k past t span a := by
  constructor
  · rintro ⟨later, e', earlier, asked, hpast, hwrite, hspan, hlater⟩
    cases later with
    | nil =>
      obtain ⟨⟨rfl, rfl⟩, rfl⟩ := by simpa using hpast
      rw [h] at hwrite
      cases hwrite
    | cons x later =>
      rw [List.cons_append, List.cons.injEq] at hpast
      obtain ⟨rfl, rfl⟩ := hpast
      refine ⟨(hlater _ List.mem_cons_self).2, later, e', earlier, asked, rfl, hwrite, hspan, ?_⟩
      exact fun x hx => hlater x (List.mem_cons_of_mem _ hx)
  · rintro ⟨hends, later, e', earlier, asked, rfl, hwrite, hspan, hlater⟩
    refine ⟨(now, e) :: later, e', earlier, asked, rfl, hwrite, hspan, fun x hx => ?_⟩
    rcases List.mem_cons.mp hx with rfl | hx
    · exact ⟨h, hends⟩
    · exact hlater x hx

theorem lifeSpans_other (h : write? k e = none) :
    lifeSpans k ((now, e) :: past) = lifeSpans k past := by
  cases e with
  | add k' b asked =>
    have hk : ¬ k' = k := fun hk => by simp [write?, hk] at h
    rw [lifeSpans, if_neg hk]
  | upsert k' b asked =>
    have hk : ¬ k' = k := fun hk => by simp [write?, hk] at h
    rw [lifeSpans, if_neg hk]
  | remove k' => rfl
  | clear => rfl
  | sweep => rfl

/-- Calls behind the last write leave the spans of the life as they were. -/
theorem Stands.span_eq (h : Stands k past t span a) : span = longestSpan k past := by
  obtain ⟨later, e, earlier, asked, rfl, hwrite, hspan, hlater⟩ := h
  have hlife : lifeSpans k (later ++ (t, e) :: earlier) = lifeSpans k ((t, e) :: earlier) := by
    induction later with
    | nil => rfl
    | cons x later ih =>
      rw [List.cons_append, lifeSpans_other (hlater x List.mem_cons_self).1]
      exact ih fun y hy => hlater y (List.mem_cons_of_mem _ hy)
  rw [longestSpan, hlife]
  exact hspan

end Stands

namespace TimeCache

theorem lease?_call_other {c : TimeCache κ α} {now : Instant} {k : κ} {e : CacheCall κ α}
    (h : write? k e = none) (l : Lease α) :
    (c.call now e).lease? k = some l ↔
      ¬ Ends k l.refreshedAt l.span (now, e) ∧ c.lease? k = some l := by
  cases e with
  | add k' b asked =>
    have hk : ¬ k = k' := fun hk => by simp [write?, hk] at h
    rw [call, lease?_add, if_neg hk]
    exact (and_iff_right id).symm
  | upsert k' b asked =>
    have hk : ¬ k = k' := fun hk => by simp [write?, hk] at h
    rw [call, lease?_upsert, if_neg hk]
    exact (and_iff_right id).symm
  | remove k' =>
    rw [call, lease?_remove]
    by_cases hk : k = k'
    · simp [hk, Ends]
    · simp [hk, Ne.symm hk, Ends]
  | clear => simp [call, lease?_empty, Ends]
  | sweep =>
    rw [call, lease?_sweep, Option.filter_eq_some_iff, Bool.not_eq_true', ← Bool.not_eq_true,
      Lease.isExpired_iff, and_comm]
    rfl

theorem lease?_call_write {past : CacheHistory κ α} {now : Instant} {k : κ} {e : CacheCall κ α}
    {b : α} {asked : Span} (h : write? k e = some (b, asked))
    (hspan : ∀ l, (after past).lease? k = some l → l.span = longestSpan k past) :
    ((after past).call now e).lease? k =
      some ⟨now, longestSpan k ((now, e) :: past), b⟩ := by
  cases e with
  | add k' b' asked' =>
    simp only [write?] at h
    split_ifs at h with hk
    obtain ⟨rfl, rfl⟩ := by simpa using h
    rw [call, lease?_add, if_pos hk.symm, longestSpan, lifeSpans, if_pos hk]
    simp
  | upsert k' b' asked' =>
    simp only [write?] at h
    split_ifs at h with hk
    obtain ⟨rfl, rfl⟩ := by simpa using h
    subst hk
    rw [call, lease?_upsert, if_pos rfl, longestSpan, lifeSpans, if_pos rfl, has_eq]
    rcases hl : (after past).lease? k' with _ | l
    · simp
    · have hlongest := hspan l hl
      simp [hlongest, longestSpan, Nat.max_comm]
  | remove k' => cases h
  | clear => cases h
  | sweep => cases h

/-- **The leases of a cache are what stands.** -/
theorem lease?_after_iff (past : CacheHistory κ α) (k : κ) (t : Instant) (span : Span) (a : α) :
    (after past).lease? k = some ⟨t, span, a⟩ ↔ Stands k past t span a := by
  induction past generalizing t span a with
  | nil => exact ⟨nofun, fun h => absurd h not_stands_nil⟩
  | cons x past ih =>
    obtain ⟨now, e⟩ := x
    rw [after]
    cases hw : write? k e with
    | some w =>
      have hspan : ∀ l, (after past).lease? k = some l → l.span = longestSpan k past :=
        fun l hl => ((ih l.refreshedAt l.span l.value).mp hl).span_eq
      rw [stands_cons_write hw, lease?_call_write hw hspan]
      simp only [Option.some.injEq, Lease.mk.injEq, eq_comm]
      tauto
    | none => rw [stands_cons_other hw, ← ih, lease?_call_other hw]

theorem size_eq_ncard (c : TimeCache κ α) : c.size = {k | c.has k = true}.ncard := by
  have hkeys : {k | c.has k = true} = (c.keys.toFinset : Set κ) := by
    refine Set.ext fun k => ?_
    rw [List.coe_toFinset]
    exact c.leases.mem_keys_iff.symm
  have hcard : c.keys.toFinset.card = c.keys.length := List.toFinset_card_of_nodup c.leases.nodup
  rw [hkeys, Set.ncard_coe_finset, hcard, keys, Keyed.keys, List.length_map]
  rfl

theorem finite_keys (c : TimeCache κ α) : {k | c.has k = true}.Finite :=
  Set.Finite.subset (List.finite_toSet c.keys) fun _ hk => c.leases.mem_keys_iff.mpr hk

theorem expired_eq_ncard (c : TimeCache κ α) (now : Instant) :
    c.expired now = {k | c.has k = true ∧ (c.sweep now).has k = false}.ncard := by
  have hsub : {k | (c.sweep now).has k = true} ⊆ {k | c.has k = true} := by
    intro k hk
    have hsome : ((c.lease? k).filter fun l => !l.isExpired now).isSome = true := by
      rw [← lease?_sweep]
      exact hk
    exact Option.isSome_of_isSome_filter _ _ hsome
  have hdiff : {k | c.has k = true ∧ (c.sweep now).has k = false} =
      {k | c.has k = true} \ {k | (c.sweep now).has k = true} := by
    ext k
    simp
  rw [hdiff, Set.ncard_sdiff hsub (c.sweep now).finite_keys, expired, size_eq_ncard, size_eq_ncard]

theorem remaining?_eq_zero_iff (c : TimeCache κ α) (now : Instant) (k : κ) :
    c.remaining? now k = some 0 ↔ c.has k = true ∧ (c.sweep now).has k = false := by
  rw [remaining?_eq, has_eq, has_eq, lease?_sweep]
  rcases c.lease? k with _ | l
  · simp
  · have hzero : l.remaining now = 0 ↔ l.isExpired now = true := by
      rw [Lease.isExpired_iff, Lease.remaining_eq]
      split_ifs with h
      · rw [and_iff_right h]
        exact Nat.sub_eq_zero_iff_le
      · have hpos : Span.longest ≠ 0 := by decide
        simp [h, hpos]
    cases hexp : l.isExpired now <;> simp [hzero, hexp, Option.filter_some]

/-- **What a run makes of a cache.** A key has an entry exactly if it stands: it was written, and
since it was written last nothing has ended its entry. Then its value is the one written last, and
its time left runs from that instant for the longest span in the life of the entry, or is the
longest of all if that end cannot be represented. The keys without time left are those that a sweep
would drop, a sweep drops as many as it says, and the size is the number of keys. -/
theorem meaning_of_history (past : CacheHistory κ α) :
    let c := after past
    (∀ k, c.has k = true ↔ ∃ t span a, Stands k past t span a) ∧
    (∀ k t span a, Stands k past t span a →
      c.get? k = some a ∧
        ∀ now, c.remaining? now k =
          some (if Span.seconds (t + span) ≤ Instant.lastSecond then t + span - now
            else Span.longest)) ∧
    (∀ k, c.has k = false → c.get? k = none ∧ ∀ now, c.remaining? now k = none) ∧
    (∀ now k, c.remaining? now k = some 0 ↔ c.has k = true ∧ (c.sweep now).has k = false) ∧
    (∀ now, c.expired now = {k | c.has k = true ∧ (c.sweep now).has k = false}.ncard) ∧
    c.size = {k | c.has k = true}.ncard := by
  intro c
  refine ⟨fun k => ?_, fun k t span a h => ?_, fun k h => ?_, c.remaining?_eq_zero_iff,
    c.expired_eq_ncard, c.size_eq_ncard⟩
  · rw [has_eq, Option.isSome_iff_exists]
    constructor
    · rintro ⟨⟨t, span, a⟩, hl⟩
      exact ⟨t, span, a, (lease?_after_iff past k t span a).mp hl⟩
    · rintro ⟨t, span, a, hstands⟩
      exact ⟨_, (lease?_after_iff past k t span a).mpr hstands⟩
  · have hl := (lease?_after_iff past k t span a).mpr h
    rw [get?_eq, hl]
    refine ⟨rfl, fun now => ?_⟩
    rw [remaining?_eq, hl, Option.map_some, Lease.remaining_eq]
  · rw [has_eq, Option.isSome_eq_false_iff, Option.isNone_iff_eq_none] at h
    refine ⟨?_, fun now => ?_⟩
    · rw [get?_eq, h, Option.map_none]
    · rw [remaining?_eq, h, Option.map_none]

/-- An entry whose span is over, and that is refreshed for a shorter span before a sweep comes. -/
def revival : CacheHistory Nat String :=
  [(Span.ofSeconds 20, .sweep), (Span.ofSeconds 12, .upsert 1 "again" (Span.ofSeconds 1)),
    (0, .add 1 "once" (Span.ofSeconds 10))]

/-- The entry has its old span again. -/
theorem revival_for_longest_span :
    Stands 1 revival (Span.ofSeconds 12) (Span.ofSeconds 10) "again" ∧
      (after revival).get? 1 = some "again" ∧
      (after revival).remaining? (Span.ofSeconds 20) 1 = some (Span.ofSeconds 2) := by
  have hstands : Stands 1 revival (Span.ofSeconds 12) (Span.ofSeconds 10) "again" := by
    refine ⟨[(Span.ofSeconds 20, .sweep)], _, _, Span.ofSeconds 1, rfl, rfl, by decide +kernel,
      fun x hx => ?_⟩
    rw [List.mem_singleton.mp hx]
    exact ⟨rfl, fun hends => absurd hends.2 (by decide +kernel)⟩
  obtain ⟨hget, hremaining⟩ := (meaning_of_history revival).2.1 1 _ _ _ hstands
  exact ⟨hstands, hget, hremaining (Span.ofSeconds 20)⟩

end TimeCache

end Floodgate
