import Floodgate.Proofs.Topics.Account

/-! # A batch and its messages one by one

A batch is counted as a whole or not at all, while messages that arrive one by one are counted as
long as the limit allows. If all of them fit, nobody can tell the two ways apart: each message finds
the counters as the ones before it have left them, and counters that stop at their largest values do
so either way (`addCount_addCount`, `addSize_addSize`). If they do not, the single messages use up
what is left below the limit, and a message that is refused leaves the count as it was, so that
everything behind it is refused, too (`Topics.increaseEach_full`). The batch is refused exactly if
one of its messages would be (`Topics.batch_agrees_with_singles`). -/

namespace Floodgate

theorem addCount_addCount (count m n : Nat) :
    addCount (addCount count m) n = addCount count (m + n) := by
  unfold addCount
  omega

theorem addSize_addSize (size m n : Nat) : addSize (addSize size m) n = addSize size (m + n) := by
  unfold addSize
  omega

theorem addCount_mono (count : Nat) {m n : Nat} (h : m ≤ n) :
    addCount count m ≤ addCount count n := by
  unfold addCount
  omega

namespace Topics

/-- Counts messages one by one, each if it fits below the limit, and says which do. -/
def increaseEach (t : Topics) (topic : String) : List Nat → Topics × List Verdict
  | [] => (t, [])
  | size :: sizes =>
    let (t, v) := t.increase topic 1 size
    let (t, vs) := increaseEach t topic sizes
    (t, v :: vs)

variable {t : Topics} {topic other : String} {sizes : List Nat} {size : Nat}

/-! ### One message or batch -/

theorem increaseEach_cons (t : Topics) (topic : String) (size : Nat) (sizes : List Nat) :
    t.increaseEach topic (size :: sizes) =
      (((t.increase topic 1 size).1.increaseEach topic sizes).1,
        (t.increase topic 1 size).2 ::
          ((t.increase topic 1 size).1.increaseEach topic sizes).2) := rfl

theorem behind_batch {n : Nat} (h : addCount (t.load topic).messages n ≤ t.limit topic)
    (size : Nat) :
    (t.increase topic n size).2 = .ok () ∧
      (t.increase topic n size).1.limit topic = t.limit topic ∧
      (t.increase topic n size).1.load topic =
        ⟨addCount (t.load topic).messages n, addSize (t.load topic).size size⟩ := by
  rw [increase_accepted _ _ _ _ h]
  exact ⟨rfl, rfl, (load_insert _ _ _ _).trans (if_pos rfl)⟩

/-! ### Messages that fit -/

/-- If the batch of some messages fits, so does the first of them, and behind it the batch of the
others. -/
theorem fits_cons {n : Nat} (h : addCount (t.load topic).messages (n + 1) ≤ t.limit topic)
    (size : Nat) :
    addCount (t.load topic).messages 1 ≤ t.limit topic ∧
      addCount ((t.increase topic 1 size).1.load topic).messages n ≤
        (t.increase topic 1 size).1.limit topic := by
  have hfirst := (addCount_mono _ (Nat.le_add_left 1 n)).trans h
  obtain ⟨-, hlimit, hload⟩ := behind_batch hfirst size
  rw [hlimit, hload, addCount_addCount, Nat.add_comm 1 n]
  exact ⟨hfirst, h⟩

theorem verdicts_of_fits (h : addCount (t.load topic).messages sizes.length ≤ t.limit topic) :
    (t.increaseEach topic sizes).2 = List.replicate sizes.length (.ok ()) := by
  induction sizes generalizing t with
  | nil => rfl
  | cons size sizes ih =>
    obtain ⟨hfirst, hrest⟩ := fits_cons h size
    rw [increaseEach_cons, (behind_batch hfirst size).1, ih hrest]
    rfl

theorem load_of_fits (h : addCount (t.load topic).messages (sizes.length + 1) ≤ t.limit topic) :
    (t.increaseEach topic (size :: sizes)).1.load topic =
      ⟨addCount (t.load topic).messages (sizes.length + 1),
        addSize (t.load topic).size (size + sizes.sum)⟩ := by
  induction sizes generalizing t size with
  | nil => exact (behind_batch h size).2.2
  | cons next sizes ih =>
    obtain ⟨hfirst, hrest⟩ := fits_cons h size
    obtain ⟨-, -, hload⟩ := behind_batch hfirst size
    rw [increaseEach_cons, ih hrest, hload, addCount_addCount, addSize_addSize, List.sum_cons,
      Nat.add_comm 1]
    rfl

theorem load_increaseEach_of_ne (hne : other ≠ topic) :
    (t.increaseEach topic sizes).1.load other = t.load other := by
  induction sizes generalizing t with
  | nil => rfl
  | cons size sizes ih => exact ih.trans (load_increase_of_ne _ _ _ _ _ hne)

/-- **Messages that fit leave every topic as their batch does.** -/
theorem load_increaseEach_of_fits (hsome : 1 ≤ sizes.length)
    (h : addCount (t.load topic).messages sizes.length ≤ t.limit topic) (other : String) :
    (t.increaseEach topic sizes).1.load other =
      (t.increase topic sizes.length sizes.sum).1.load other := by
  rcases Decidable.eq_or_ne other topic with rfl | hne
  · obtain ⟨size, sizes, rfl⟩ := List.exists_cons_of_length_pos hsome
    exact (load_of_fits h).trans (behind_batch h _).2.2.symm
  · exact (load_increaseEach_of_ne hne).trans (load_increase_of_ne _ _ _ _ _ hne).symm

/-! ### Messages that do not all fit -/

theorem increaseEach_full (h : t.limit topic < addCount (t.load topic).messages 1) :
    t.increaseEach topic sizes =
      (t, List.replicate sizes.length (.error (.topicFlood topic (t.limit topic)))) := by
  induction sizes with
  | nil => rfl
  | cons size sizes ih =>
    rw [increaseEach_cons, increase_refused _ _ _ _ h, ih]
    rfl

/-- **Of messages that do not all fit, as many are accepted as are left below the limit.** -/
theorem verdicts_of_exceeds {free : Nat} (hfree : free = t.limit topic - (t.load topic).messages)
    (h : t.limit topic < addCount (t.load topic).messages sizes.length) :
    (t.increaseEach topic sizes).2 =
      List.replicate free (.ok ()) ++
        List.replicate (sizes.length - free) (.error (.topicFlood topic (t.limit topic))) := by
  induction sizes generalizing t free with
  | nil =>
    obtain rfl : free = 0 := by
      rw [List.length_nil, addCount] at h
      omega
    rfl
  | cons size sizes ih =>
    rw [List.length_cons] at h
    rcases Nat.lt_or_ge (t.limit topic) (addCount (t.load topic).messages 1) with hfull | hfirst
    · obtain rfl : free = 0 := by
        rw [addCount] at hfull
        omega
      rw [increaseEach_full hfull]
      rfl
    · obtain ⟨hok, hlimit, hload⟩ := behind_batch hfirst size
      have hrest : (t.increase topic 1 size).1.limit topic <
          addCount ((t.increase topic 1 size).1.load topic).messages sizes.length := by
        rwa [hlimit, hload, addCount_addCount, Nat.add_comm 1]
      -- the limit is below the largest count, so the message has taken one of what was left
      obtain ⟨left, rfl, hleft⟩ : ∃ left, free = left + 1 ∧
          left = (t.increase topic 1 size).1.limit topic -
            ((t.increase topic 1 size).1.load topic).messages := by
        rw [hlimit, hload]
        refine ⟨t.limit topic - addCount (t.load topic).messages 1, ?_, rfl⟩
        rw [addCount] at h hfirst ⊢
        omega
      rw [increaseEach_cons, hok, ih hleft hrest, hlimit, List.length_cons, Nat.add_sub_add_right]
      rfl

theorem verdicts_ne_of_exceeds (hsome : 1 ≤ sizes.length)
    (h : t.limit topic < addCount (t.load topic).messages sizes.length) :
    (t.increaseEach topic sizes).2 ≠ List.replicate sizes.length (.ok ()) := by
  intro hall
  have hlast : 0 < sizes.length - (t.limit topic - (t.load topic).messages) := by
    rw [addCount] at h
    omega
  have hmem : (.error (.topicFlood topic (t.limit topic)) : Verdict) ∈
      (t.increaseEach topic sizes).2 := by
    rw [verdicts_of_exceeds rfl h]
    exact List.mem_append_right _ (List.mem_replicate.mpr ⟨hlast.ne', rfl⟩)
  rw [hall] at hmem
  cases List.eq_of_mem_replicate hmem

/-- **A batch agrees with its messages one by one.** In every state of the topics, a batch of at
least one message is accepted exactly if all its messages would be, one by one; then both ways lead
to the same count and the same bytes on every topic. If the batch is refused, the single messages
are accepted up to what is left below the limit, and refused from there on. -/
theorem batch_agrees_with_singles (t : Topics) (topic : String) (sizes : List Nat)
    (hsome : 1 ≤ sizes.length) :
    let batch := t.increase topic sizes.length sizes.sum
    let singles := t.increaseEach topic sizes
    let free := t.limit topic - (t.load topic).messages
    (batch.2 = .ok () ↔ singles.2 = List.replicate sizes.length (.ok ())) ∧
    (batch.2 = .ok () → ∀ other, singles.1.load other = batch.1.load other) ∧
    (batch.2 ≠ .ok () →
      singles.2 = List.replicate free (.ok ()) ++
        List.replicate (sizes.length - free) (.error (.topicFlood topic (t.limit topic)))) := by
  intro batch singles free
  rcases Nat.lt_or_ge (t.limit topic) (addCount (t.load topic).messages sizes.length)
    with hfull | hfits
  · have hbatch : batch.2 ≠ .ok () := by
      show (t.increase topic sizes.length sizes.sum).2 ≠ .ok ()
      rw [increase_refused _ _ _ _ hfull]
      exact nofun
    exact ⟨iff_of_false hbatch (verdicts_ne_of_exceeds hsome hfull), fun h => absurd h hbatch,
      fun _ => verdicts_of_exceeds rfl hfull⟩
  · have hbatch : batch.2 = .ok () := (behind_batch hfits _).1
    exact ⟨iff_of_true hbatch (verdicts_of_fits hfits),
      fun _ => load_increaseEach_of_fits hsome hfits, fun h => absurd hbatch h⟩

/-- Three of five messages have been counted on a topic. -/
def threeOfFive : Topics := ((new fiveEach).increase "a" 3 30).1

/-- Two more messages fit, as a batch and one by one. Of four, the batch is refused, and one by one
the first two are accepted. -/
theorem threeOfFive_one_by_one :
    (threeOfFive.increase "a" 2 30).1.load "a" = ⟨5, 60⟩ ∧
      (threeOfFive.increaseEach "a" [10, 20]).1.load "a" = ⟨5, 60⟩ ∧
      (threeOfFive.increase "a" 4 100).2 = .error (.topicFlood "a" 5) ∧
      (threeOfFive.increaseEach "a" [10, 20, 30, 40]).2 =
        [.ok (), .ok (), .error (.topicFlood "a" 5), .error (.topicFlood "a" 5)] := by
  have hload : (threeOfFive.increase "a" 2 30).1.load "a" = ⟨5, 60⟩ := by decide +kernel
  have hfits : (threeOfFive.increase "a" 2 30).2 = .ok () := by rfl
  have hrefused : (threeOfFive.increase "a" 4 100).2 = .error (.topicFlood "a" 5) := by rfl
  have hnot : (threeOfFive.increase "a" 4 100).2 ≠ .ok () := hrefused ▸ nofun
  obtain ⟨-, hsame, -⟩ := batch_agrees_with_singles threeOfFive "a" [10, 20] (by decide)
  obtain ⟨-, -, hrest⟩ := batch_agrees_with_singles threeOfFive "a" [10, 20, 30, 40] (by decide)
  exact ⟨hload, (hsame hfits "a").trans hload, hrefused, hrest hnot⟩

end Topics

end Floodgate
