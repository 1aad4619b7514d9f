import Floodgate.Journal
import Mathlib.Algebra.Ring.Nat
import Mathlib.Data.List.Induction
import Mathlib.Data.List.Nodup
import Mathlib.Tactic.SplitIfs

/-! # What a journal says

Between two prints a journal takes down decisions. The pairs that it keeps are the first ones that
occur, as many as it has room for, and a pair that is kept goes on being summed up when the journal
is full. `PairStats.total` says what the decisions on a pair come to, without regard to their order
but for the last refusal, and `Journal.Sums` ties a journal to the decisions behind it.

* `Sums.add`: one more decision keeps the journal tied to them.
* `precedes_trans`, `precedes_total`: the order of a print is a total order, since the text of a
  peer tells the peer (`PeerId.hex_injective`).
* `Journal.exact_summary`: what a journal knows in any run, and what it prints. -/

namespace Floodgate

/-- The pair that a decision is about. -/
def Decision.pair (d : Decision) : PeerId × String := (d.peer, d.topic)

/-- The fault of a decision that refuses. -/
def Decision.fault? (d : Decision) : Option Fault :=
  match d.verdict with
  | .ok _ => none
  | .error f => some f

/-- The decisions on one pair. -/
def decisionsOn (x : PeerId × String) (ds : List Decision) : List Decision :=
  ds.filter fun d => d.pair = x

/-- The pairs of decisions, in the order in which they first occur. -/
def firstPairs (ds : List Decision) : List (PeerId × String) := (ds.map Decision.pair).eraseDups

/-- What decisions come to. -/
def PairStats.total (ds : List Decision) : PairStats where
  admitted := ((ds.filter (·.verdict.isAdmitted)).map Decision.messages).sum
  admittedSize := ((ds.filter (·.verdict.isAdmitted)).map Decision.size).sum
  rejected := ((ds.filter (!·.verdict.isAdmitted)).map Decision.messages).sum
  rejectedSize := ((ds.filter (!·.verdict.isAdmitted)).map Decision.size).sum
  blacklisted := (ds.filterMap Decision.fault?).any Fault.isBlacklisted
  lastRejection := (ds.filterMap Decision.fault?).getLast?.map Fault.message

/-- What happens to a journal. -/
inductive JournalCall where
  | note (d : Decision)
  | print

/-- The decisions since the last print. -/
def sincePrint (calls : List JournalCall) : List Decision :=
  calls.foldl
    (fun ds e =>
      match e with
      | .note d => ds ++ [d]
      | .print => [])
    []

namespace Journal

/-- The journal after a call. -/
def call (j : Journal) : JournalCall → Journal
  | .note d => j.add d
  | .print => j.cleared

/-- The journal after calls. -/
def after (j : Journal) (calls : List JournalCall) : Journal := calls.foldl call j

end Journal

/-! ### Totals -/

theorem PairStats.total_append (ds : List Decision) (d : Decision) :
    total (ds ++ [d]) = (total ds).add d := by
  unfold total add
  rcases hd : d.verdict with f | u
  · have hfault : d.fault? = some f := by simp [Decision.fault?, hd]
    simp [hd, hfault, Verdict.isAdmitted]
  · have hfault : d.fault? = none := by simp [Decision.fault?, hd]
    simp [hd, hfault, Verdict.isAdmitted]

theorem decisionsOn_append (x : PeerId × String) (ds : List Decision) (d : Decision) :
    decisionsOn x (ds ++ [d]) =
      if d.pair = x then decisionsOn x ds ++ [d] else decisionsOn x ds := by
  unfold decisionsOn
  rw [List.filter_append]
  split_ifs with h <;> simp [h]

theorem mem_firstPairs {x : PeerId × String} {ds : List Decision} :
    x ∈ firstPairs ds ↔ ∃ d ∈ ds, d.pair = x := by
  rw [firstPairs, List.mem_eraseDups, List.mem_map]

theorem firstPairs_append (ds : List Decision) (d : Decision) :
    firstPairs (ds ++ [d]) =
      if d.pair ∈ firstPairs ds then firstPairs ds else firstPairs ds ++ [d.pair] := by
  have hmem : d.pair ∈ firstPairs ds ↔ d.pair ∈ ds.map Decision.pair := List.mem_eraseDups
  have hsplit : firstPairs (ds ++ [d]) =
      firstPairs ds ++ ([d.pair].removeAll (ds.map Decision.pair)).eraseDups := by
    unfold firstPairs
    rw [List.map_append, List.eraseDups_append]
    rfl
  rw [hsplit]
  by_cases h : d.pair ∈ firstPairs ds
  · have hin := hmem.mp h
    rw [if_pos h]
    simp [List.removeAll, hin, -List.mem_map]
  · have hout : d.pair ∉ ds.map Decision.pair := fun hin => h (hmem.mpr hin)
    rw [if_neg h]
    simp [List.removeAll, List.eraseDups_cons, hout, -List.mem_map]

theorem decisionsOn_eq_nil {x : PeerId × String} {ds : List Decision} (h : x ∉ firstPairs ds) :
    decisionsOn x ds = [] := by
  refine List.filter_eq_nil_iff.mpr fun d hd hx => ?_
  exact h (mem_firstPairs.mpr ⟨d, hd, by simpa using hx⟩)

theorem Keyed.keys_insert {κ α : Type} [DecidableEq κ] (m : Keyed κ α) (k : κ) (a : α) :
    (m.insert k a).keys = if k ∈ m.keys then m.keys else m.keys ++ [k] :=
  keys_put k a m.entries

/-! ### One decision -/

namespace Journal

/-- A journal sums up decisions: it keeps the first pairs that it has room for with all that was
decided on them, and has counted the decisions on the others. -/
structure Sums (j : Journal) (ds : List Decision) : Prop where
  keys : j.pairs.keys = (firstPairs ds).take j.capacity
  stats : ∀ x ∈ j.pairs.keys, j.pairs.get? x = some (.total (decisionsOn x ds))
  dropped : j.dropped = ds.countP fun d => d.pair ∉ j.pairs.keys

variable {j : Journal} {ds : List Decision}

theorem get?_eq_none_iff {x : PeerId × String} : j.pairs.get? x = none ↔ x ∉ j.pairs.keys := by
  rw [Keyed.mem_keys_iff, Keyed.contains_eq, Bool.not_eq_true, Option.isSome_eq_false_iff,
    Option.isNone_iff_eq_none]

theorem add_of_kept {d : Decision} {s : PairStats} (h : j.pairs.get? d.pair = some s) :
    j.add d = { j with pairs := j.pairs.insert d.pair (s.add d) } := by
  rw [Decision.pair] at h ⊢
  rw [add, h]

theorem add_of_full {d : Decision} (h : j.pairs.get? d.pair = none)
    (hfull : j.capacity ≤ j.pairs.size) : j.add d = { j with dropped := j.dropped + 1 } := by
  rw [Decision.pair] at h
  rw [add, h]
  exact if_pos hfull

theorem add_of_room {d : Decision} (h : j.pairs.get? d.pair = none)
    (hroom : j.pairs.size < j.capacity) :
    j.add d = { j with pairs := j.pairs.insert d.pair (PairStats.add {} d) } := by
  rw [Decision.pair] at h ⊢
  rw [add, h]
  exact if_neg (Nat.not_le.mpr hroom)

theorem sums_empty (j : Journal) : j.cleared.Sums [] where
  keys := by simp [firstPairs, cleared, Keyed.keys]; rfl
  stats x hx := absurd hx List.not_mem_nil
  dropped := rfl

namespace Sums

theorem add_kept (h : j.Sums ds) (d : Decision) (hd : d.pair ∈ j.pairs.keys) :
    (j.add d).Sums (ds ++ [d]) := by
  have hadd := add_of_kept (h.stats d.pair hd)
  have hkeys : (j.add d).pairs.keys = j.pairs.keys := by
    rw [hadd]
    exact (Keyed.keys_insert _ _ _).trans (if_pos hd)
  have hfirst : d.pair ∈ firstPairs ds := by
    rw [h.keys] at hd
    exact List.mem_of_mem_take hd
  refine ⟨?_, fun x hx => ?_, ?_⟩
  · rw [hkeys, h.keys, firstPairs_append, if_pos hfirst, hadd]
  · rw [hkeys] at hx
    rw [hadd, decisionsOn_append]
    show (j.pairs.insert _ _).get? x = _
    rw [Keyed.get?_insert]
    by_cases hxd : x = d.pair
    · rw [if_pos hxd, if_pos hxd.symm, PairStats.total_append, hxd]
    · rw [if_neg hxd, if_neg (Ne.symm hxd)]
      exact h.stats x hx
  · rw [hkeys, List.countP_append, ← h.dropped, hadd]
    simp [hd]

theorem add_full (h : j.Sums ds) (d : Decision) (hd : d.pair ∉ j.pairs.keys)
    (hfull : j.capacity ≤ j.pairs.size) : (j.add d).Sums (ds ++ [d]) := by
  have hadd := add_of_full (get?_eq_none_iff.mpr hd) hfull
  have hlength : j.capacity ≤ (firstPairs ds).length := by
    have hkept : j.pairs.size = j.pairs.keys.length := (List.length_map _).symm
    rw [hkept, h.keys, List.length_take] at hfull
    omega
  rw [hadd]
  refine ⟨?_, fun x hx => ?_, ?_⟩
  · show j.pairs.keys = (firstPairs (ds ++ [d])).take j.capacity
    rw [h.keys, firstPairs_append]
    split_ifs
    · rfl
    · rw [List.take_append_of_le_length hlength]
  · have hne : d.pair ≠ x := fun heq => hd (heq ▸ hx)
    rw [decisionsOn_append, if_neg hne]
    exact h.stats x hx
  · show j.dropped + 1 = (ds ++ [d]).countP fun d => d.pair ∉ j.pairs.keys
    rw [List.countP_append, ← h.dropped]
    simp [hd]

theorem add_new (h : j.Sums ds) (d : Decision) (hd : d.pair ∉ j.pairs.keys)
    (hroom : j.pairs.size < j.capacity) : (j.add d).Sums (ds ++ [d]) := by
  have hadd := add_of_room (get?_eq_none_iff.mpr hd) hroom
  have hkept : j.pairs.size = j.pairs.keys.length := (List.length_map _).symm
  -- with room left every pair that has occurred is kept
  have hall : (firstPairs ds).length < j.capacity := by
    rw [hkept, h.keys, List.length_take] at hroom
    omega
  have hkeys : j.pairs.keys = firstPairs ds := by
    rw [h.keys, List.take_of_length_le (Nat.le_of_lt hall)]
  have hnew : d.pair ∉ firstPairs ds := hkeys ▸ hd
  have hkeys' : (j.add d).pairs.keys = firstPairs ds ++ [d.pair] := by
    rw [hadd, ← hkeys]
    exact (Keyed.keys_insert _ _ _).trans (if_neg hd)
  have hlength : (firstPairs ds ++ [d.pair]).length ≤ j.capacity := by
    rw [List.length_append, List.length_singleton]
    omega
  refine ⟨?_, fun x hx => ?_, ?_⟩
  · rw [hkeys', firstPairs_append, if_neg hnew, hadd]
    exact (List.take_of_length_le hlength).symm
  · rw [hadd, decisionsOn_append]
    show (j.pairs.insert _ _).get? x = _
    rw [Keyed.get?_insert]
    by_cases hxd : x = d.pair
    · have hnil : decisionsOn x ds = [] := decisionsOn_eq_nil (hxd ▸ hnew)
      rw [if_pos hxd, if_pos hxd.symm, hnil, PairStats.total_append]
      rfl
    · have hold : x ∈ j.pairs.keys := by
        rw [hkeys'] at hx
        rw [hkeys]
        exact (List.mem_append.mp hx).resolve_right fun hx => hxd (List.mem_singleton.mp hx)
      rw [if_neg hxd, if_neg (Ne.symm hxd)]
      exact h.stats x hold
  · have hnone : (ds ++ [d]).countP (fun e => e.pair ∉ (j.add d).pairs.keys) = 0 := by
      refine List.countP_eq_zero.mpr fun e he => ?_
      have hin : e.pair ∈ firstPairs (ds ++ [d]) := mem_firstPairs.mpr ⟨e, he, rfl⟩
      rw [firstPairs_append, if_neg hnew, ← hkeys'] at hin
      simpa using hin
    have hzero : ds.countP (fun e => e.pair ∉ j.pairs.keys) = 0 := by
      refine List.countP_eq_zero.mpr fun e he => ?_
      have hin : e.pair ∈ firstPairs ds := mem_firstPairs.mpr ⟨e, he, rfl⟩
      simpa [hkeys] using hin
    rw [hnone, hadd]
    exact h.dropped.trans hzero

/-- **Each decision is added to its pair, or counted.** -/
theorem add (h : j.Sums ds) (d : Decision) : (j.add d).Sums (ds ++ [d]) := by
  by_cases hd : d.pair ∈ j.pairs.keys
  · exact h.add_kept d hd
  · rcases Nat.lt_or_ge j.pairs.size j.capacity with hroom | hfull
    · exact h.add_new d hd hroom
    · exact h.add_full d hd hfull

end Sums

/-! ### Runs -/

theorem sincePrint_note (calls : List JournalCall) (d : Decision) :
    sincePrint (calls ++ [.note d]) = sincePrint calls ++ [d] := by
  simp [sincePrint, List.foldl_append]

theorem sincePrint_print (calls : List JournalCall) : sincePrint (calls ++ [.print]) = [] := by
  simp [sincePrint, List.foldl_append]

theorem after_append (j : Journal) (calls : List JournalCall) (e : JournalCall) :
    j.after (calls ++ [e]) = (j.after calls).call e := by
  simp [after, List.foldl_append]

theorem capacity_add (j : Journal) (d : Decision) : (j.add d).capacity = j.capacity := by
  unfold add
  split
  · rfl
  · split_ifs <;> rfl

theorem capacity_after (j : Journal) (calls : List JournalCall) :
    (j.after calls).capacity = j.capacity := by
  induction calls using List.reverseRecOn with
  | nil => rfl
  | append_singleton calls e ih =>
    rw [after_append, ← ih]
    cases e with
    | note d => exact capacity_add _ d
    | print => rfl

/-- **In every run a journal sums up the decisions since the last print.** -/
theorem sums_after (c : JournalConfig) (calls : List JournalCall) :
    ((new c).after calls).Sums (sincePrint calls) := by
  induction calls using List.reverseRecOn with
  | nil => exact sums_empty (new c)
  | append_singleton calls e ih =>
    rw [after_append]
    cases e with
    | note d => rw [sincePrint_note]; exact ih.add d
    | print => rw [sincePrint_print]; exact sums_empty _

end Journal

/-! ### The order of a print -/

namespace PeerId

theorem digitChar_injOn : ∀ m < 16, ∀ n < 16, Nat.digitChar m = Nat.digitChar n → m = n := by
  decide

theorem hexByte_injective : Function.Injective hexByte := by
  intro a b h
  have ha := a.toNat_lt
  have hb := b.toNat_lt
  simp only [hexByte, List.cons.injEq, and_true] at h
  have hhigh : a.toNat / 16 = b.toNat / 16 :=
    digitChar_injOn _ (by omega) _ (by omega) h.1
  have hlow : a.toNat % 16 = b.toNat % 16 := digitChar_injOn _ (by omega) _ (by omega) h.2
  exact UInt8.toNat_inj.mp (by omega)

theorem hex_injective : Function.Injective hex := by
  rintro ⟨as⟩ ⟨bs⟩ h
  have hchars : as.flatMap hexByte = bs.flatMap hexByte := by
    simpa [hex, String.ofList_inj] using h
  clear h
  congr 1
  induction as generalizing bs with
  | nil =>
    cases bs with
    | nil => rfl
    | cons b bs => simp [hexByte] at hchars
  | cons a as ih =>
    cases bs with
    | nil => simp [hexByte] at hchars
    | cons b bs =>
      rw [List.flatMap_cons, List.flatMap_cons] at hchars
      obtain ⟨hfirst, hrest⟩ := List.append_inj hchars rfl
      rw [hexByte_injective hfirst, ih bs hrest]

end PeerId

namespace Journal

variable {a b c : (PeerId × String) × PairStats}

theorem precedes_iff :
    precedes a b = true ↔
      b.2.rejected < a.2.rejected ∨
        a.2.rejected = b.2.rejected ∧ a.1.1.hex ≤ b.1.1.hex ∧
          (a.1.1.hex = b.1.1.hex → a.1.2 ≤ b.1.2) := by
  have hhex : a.1.1.hex = b.1.1.hex ↔ a.1.1 = b.1.1 := PeerId.hex_injective.eq_iff
  unfold precedes
  rw [hhex]
  by_cases hrejected : a.2.rejected = b.2.rejected
  · by_cases hpeer : a.1.1 = b.1.1
    · simp [hrejected, hpeer]
    · simp [hrejected, hpeer]
  · simp [hrejected]

theorem precedes_trans (hab : precedes a b = true) (hbc : precedes b c = true) :
    precedes a c = true := by
  rw [precedes_iff] at hab hbc ⊢
  rcases hab with hab | ⟨hab, hpeer, htopic⟩
  · rcases hbc with hbc | ⟨hbc, -⟩ <;> exact Or.inl (by omega)
  · rcases hbc with hbc | ⟨hbc, hpeer', htopic'⟩
    · exact Or.inl (by omega)
    · refine Or.inr ⟨hab.trans hbc, String.le_trans hpeer hpeer', fun hsame => ?_⟩
      -- the peer in between has the same text
      have hmid : a.1.1.hex = b.1.1.hex := String.le_antisymm hpeer (hsame ▸ hpeer')
      exact String.le_trans (htopic hmid) (htopic' (hmid.symm.trans hsame))

theorem precedes_total (a b : (PeerId × String) × PairStats) :
    (precedes a b || precedes b a) = true := by
  rw [Bool.or_eq_true, precedes_iff, precedes_iff]
  rcases Nat.lt_trichotomy a.2.rejected b.2.rejected with h | h | h
  · exact Or.inr (Or.inl h)
  · by_cases hsame : a.1.1.hex = b.1.1.hex
    · rcases String.le_total a.1.2 b.1.2 with ht | ht
      · exact Or.inl (Or.inr ⟨h, hsame ▸ String.le_refl _, fun _ => ht⟩)
      · exact Or.inr (Or.inr ⟨h.symm, hsame ▸ String.le_refl _, fun _ => ht⟩)
    · rcases String.le_total a.1.1.hex b.1.1.hex with hp | hp
      · exact Or.inl (Or.inr ⟨h, hp, fun heq => absurd heq hsame⟩)
      · exact Or.inr (Or.inr ⟨h.symm, hp, fun heq => absurd heq.symm hsame⟩)
  · exact Or.inl (Or.inl h)

/-! ### What a journal prints -/

theorem Sums.entries_eq {j : Journal} {ds : List Decision} (h : j.Sums ds) :
    j.pairs.entries = j.pairs.keys.map fun x => (x, PairStats.total (decisionsOn x ds)) := by
  unfold Keyed.keys
  rw [List.map_map]
  refine (List.map_id _).symm.trans (List.map_congr_left fun e he => ?_)
  have hget : j.pairs.get? e.1 = some e.2 := j.pairs.mem_entries_iff.mp he
  have hkey : e.1 ∈ j.pairs.keys := List.mem_map_of_mem he
  rw [h.stats e.1 hkey, Option.some.injEq] at hget
  exact Prod.ext rfl hget.symm

/-- **The summary of a journal is exact.** In every run, let `ds` be the decisions since the last
print. The journal keeps the first pairs that occur in them, in this order and up to its capacity;
what it knows of a pair that it keeps is what the decisions on that pair come to, and it has
counted the decisions on all other pairs. A print lists each pair that is kept once, those with more
rejected messages first, then the number of decisions on other pairs, unless it is zero, and leaves
no pair and no count. -/
theorem exact_summary (c : JournalConfig) (calls : List JournalCall) :
    let j := (new c).after calls
    let ds := sincePrint calls
    let kept := (firstPairs ds).take c.capacity.toNat
    j.pairs.keys = kept ∧ kept.Nodup ∧
    (∀ x, j.stats? x.1 x.2 = if x ∈ kept then some (.total (decisionsOn x ds)) else none) ∧
    j.dropped = ds.countP (·.pair ∉ kept) ∧
    (∃ es : List ((PeerId × String) × PairStats),
        j.rows = (es.map fun e => .pair e.1.1 e.1.2 e.2) ++
          (if j.dropped = 0 then [] else [.dropped j.dropped]) ∧
        es.Perm (kept.map fun x => (x, .total (decisionsOn x ds))) ∧
        es.Pairwise fun a b => b.2.rejected ≤ a.2.rejected) ∧
    (j.call .print).pairs = ∅ ∧ (j.call .print).dropped = 0 := by
  intro j ds kept
  have hsums : j.Sums ds := sums_after c calls
  have hcapacity : j.capacity = c.capacity.toNat := capacity_after (new c) calls
  have hkeys : j.pairs.keys = kept := by rw [hsums.keys, hcapacity]
  have hdropped := hsums.dropped
  have hentries := hsums.entries_eq
  rw [hkeys] at hdropped hentries
  refine ⟨hkeys, hkeys ▸ j.pairs.nodup, fun x => ?_, hdropped, ?_, rfl, rfl⟩
  · split_ifs with hx
    · exact hsums.stats x (hkeys ▸ hx)
    · exact get?_eq_none_iff.mpr (hkeys ▸ hx)
  · refine ⟨j.pairs.entries.mergeSort precedes, rfl, ?_, ?_⟩
    · rw [← hentries]
      exact List.mergeSort_perm _ _
    · have hsorted : (j.pairs.entries.mergeSort precedes).Pairwise fun a b => precedes a b = true :=
        List.pairwise_mergeSort (fun a b c => precedes_trans (a := a) (b := b) (c := c))
          precedes_total _
      refine hsorted.imp fun {a b} hab => ?_
      rcases precedes_iff.mp hab with hlt | ⟨heq, -⟩ <;> omega

end Journal

end Floodgate
