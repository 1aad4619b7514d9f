import Floodgate.Proofs.Topics.Load
import Mathlib.Algebra.Ring.Nat
import Mathlib.Data.List.Induction
import Mathlib.Logic.Function.Basic
import Mathlib.Order.Lattice

/-! # The account of a topic

A book keeps, beside the topics, the batches that were accepted on each topic since the last reset
that applied to it: a reset of the topic itself, one of the registered topics while it is
registered, or one of the other topics while it is not. The counters stop at their largest values
and agree with the book up to there (`TopicBook.Balanced`), whatever is counted, limited and reset
in between. So a batch is accepted exactly if the exact sum of the messages in the book, with its
own and up to the largest count, is within the limit in force (`Topics.exact_account`). -/

namespace Floodgate

/-- A call on the topics. -/
inductive TopicCall where
  | increase (topic : String) (messages size : Nat)
  | setLimit (topic : String) (max : Nat)
  | resetTopic (topic : String)
  | resetRegistered
  | resetUnregistered

namespace TopicCall

/-- The topic that a call is about, if it is about one. -/
def topic? : TopicCall → Option String
  | increase topic .. | setLimit topic _ | resetTopic topic => some topic
  | resetRegistered | resetUnregistered => none

/-- The limit that a call gives to a topic. -/
def limit? : TopicCall → Option (String × Nat)
  | setLimit topic max => some (topic, max)
  | increase .. | resetTopic _ | resetRegistered | resetUnregistered => none

end TopicCall

/-- A batch of messages that was accepted. -/
structure Batch where
  messages : Nat
  size : Nat
  /-- The limit of the topic at the time. -/
  limit : Nat
deriving DecidableEq

/-- The messages of batches. -/
def messagesIn (bs : List Batch) : Nat := (bs.map Batch.messages).sum

/-- The bytes of batches. -/
def bytesIn (bs : List Batch) : Nat := (bs.map Batch.size).sum

/-- The topics after a call. -/
def Topics.call (t : Topics) : TopicCall → Topics
  | .increase topic messages size => (t.increase topic messages size).1
  | .setLimit topic max => t.setLimit topic max
  | .resetTopic topic => t.resetTopic topic
  | .resetRegistered => t.resetRegistered
  | .resetUnregistered => t.resetUnregistered

/-- Topics, and the batches that were accepted on each since the last reset that applied to it. -/
structure TopicBook where
  topics : Topics
  accepted : String → List Batch

namespace TopicBook

/-- The batches in the book after a call. -/
def enter (s : TopicBook) : TopicCall → String → List Batch
  | .increase topic messages size =>
    match (s.topics.increase topic messages size).2 with
    | .ok _ =>
      Function.update s.accepted topic
        (s.accepted topic ++ [⟨messages, size, s.topics.limit topic⟩])
    | .error _ => s.accepted
  | .setLimit _ _ => s.accepted
  | .resetTopic topic => Function.update s.accepted topic []
  | .resetRegistered => fun topic => if s.topics.isRegistered topic then [] else s.accepted topic
  | .resetUnregistered => fun topic => if s.topics.isRegistered topic then s.accepted topic else []

/-- The book after a call. -/
def call (s : TopicBook) (e : TopicCall) : TopicBook := ⟨s.topics.call e, s.enter e⟩

end TopicBook

/-- The book of a run. -/
def Topics.book (t : Topics) (calls : List TopicCall) : TopicBook :=
  calls.foldl TopicBook.call ⟨t, fun _ => []⟩

/-! ### Limits -/

namespace Topics

/-- The limits that settings and calls have given to topics, in order. -/
def limitsGiven (c : TopicConfig) (calls : List TopicCall) : List (String × Nat) :=
  (c.limits.map fun l => (l.topic, l.messagesPerSecond.toNat)) ++ calls.filterMap TopicCall.limit?

theorem book_append (t : Topics) (calls : List TopicCall) (e : TopicCall) :
    t.book (calls ++ [e]) = (t.book calls).call e := by
  simp [book, List.foldl_append]

theorem defaultLimit_call (t : Topics) (e : TopicCall) :
    (t.call e).defaultLimit = t.defaultLimit := by
  cases e with
  | increase topic messages size =>
    rcases Nat.lt_or_ge (t.limit topic) (addCount (t.load topic).messages messages) with h | h
    · rw [call, increase_refused _ _ _ _ h]
    · rw [call, increase_accepted _ _ _ _ h]
  | _ => rfl

/-- **The limit of a topic is the one that it was given last, in settings or by a call.** -/
theorem get?_limits_book (c : TopicConfig) (calls : List TopicCall) (topic : String) :
    ((new c).book calls).topics.limits.get? topic = latestLimit topic (limitsGiven c calls) := by
  induction calls using List.reverseRecOn with
  | nil => rw [limitsGiven, List.filterMap_nil, List.append_nil]; exact get?_limits_new topic c
  | append_singleton calls e ih =>
    rw [book_append, limitsGiven, List.filterMap_append, ← List.append_assoc]
    show (((new c).book calls).topics.call e).limits.get? topic =
      latestLimit topic (limitsGiven c calls ++ [e].filterMap TopicCall.limit?)
    cases e with
    | setLimit k max =>
      rw [call, get?_limits_setLimit, ih]
      exact (latestLimit_append _ _ _ _).symm
    | increase k messages size =>
      rw [call, limits_increase, ih]
      exact congrArg _ (List.append_nil _).symm
    | resetTopic k => exact ih.trans (congrArg _ (List.append_nil _).symm)
    | resetRegistered => exact ih.trans (congrArg _ (List.append_nil _).symm)
    | resetUnregistered => exact ih.trans (congrArg _ (List.append_nil _).symm)

theorem defaultLimit_book (c : TopicConfig) (calls : List TopicCall) :
    ((new c).book calls).topics.defaultLimit = c.defaultLimit.toNat := by
  induction calls using List.reverseRecOn with
  | nil => rfl
  | append_singleton calls e ih => rw [book_append]; exact (defaultLimit_call _ e).trans ih

theorem load_call_of_ne (t : Topics) {e : TopicCall} {topic k : String} (he : e.topic? = some k)
    (hne : topic ≠ k) : (t.call e).load topic = t.load topic := by
  cases e with
  | increase k' messages size =>
    obtain rfl := Option.some.inj he
    exact load_increase_of_ne _ _ _ _ _ hne
  | setLimit k' max => rfl
  | resetTopic k' =>
    obtain rfl := Option.some.inj he
    exact (load_resetTopic _ _ _).trans (if_neg hne)
  | resetRegistered => cases he
  | resetUnregistered => cases he

theorem limit_call_of_ne (t : Topics) {e : TopicCall} {topic k : String} (he : e.topic? = some k)
    (hne : topic ≠ k) : (t.call e).limit topic = t.limit topic := by
  have hlimits : (t.call e).limits.get? topic = t.limits.get? topic := by
    cases e with
    | increase k' messages size => rw [call, limits_increase]
    | setLimit k' max =>
      obtain rfl := Option.some.inj he
      exact (get?_limits_setLimit _ _ _ _).trans (if_neg hne)
    | resetTopic k' => rfl
    | resetRegistered => cases he
    | resetUnregistered => cases he
  rw [limit, hlimits, defaultLimit_call]
  rfl

end Topics

/-! ### Loads -/

theorem messagesIn_append (bs : List Batch) (b : Batch) :
    messagesIn (bs ++ [b]) = messagesIn bs + b.messages := by
  simp [messagesIn]

theorem bytesIn_append (bs : List Batch) (b : Batch) :
    bytesIn (bs ++ [b]) = bytesIn bs + b.size := by
  simp [bytesIn]

/-- The counters agree with the book of a topic as far as they reach, and a limit that a counter can
exceed has not been exceeded while it was in force. -/
structure Balances (l : Load) (bs : List Batch) : Prop where
  messages : l.messages = min (messagesIn bs) countLimit
  size : l.size = min (bytesIn bs) sizeLimit
  within : ∀ limit < countLimit, (∀ b ∈ bs, b.limit ≤ limit) → messagesIn bs ≤ limit

namespace Balances

theorem start : Balances {} [] where
  messages := rfl
  size := rfl
  within limit _ _ := Nat.zero_le limit

theorem addCount_eq {l : Load} {bs : List Batch} (h : Balances l bs) (messages : Nat) :
    addCount l.messages messages = min countLimit (messagesIn bs + messages) := by
  rw [h.messages, addCount]
  omega

/-- **A batch that is accepted is entered and counted.** -/
theorem accept {l : Load} {bs : List Batch} (h : Balances l bs) {messages size limit : Nat}
    (hfits : addCount l.messages messages ≤ limit) :
    Balances ⟨addCount l.messages messages, addSize l.size size⟩
      (bs ++ [⟨messages, size, limit⟩]) where
  messages := by
    rw [h.addCount_eq, messagesIn_append, min_comm]
  size := by
    rw [bytesIn_append]
    show addSize l.size size = min (bytesIn bs + size) sizeLimit
    rw [h.size, addSize]
    omega
  within max hmax hall := by
    have hlimit : limit ≤ max := hall _ (List.mem_append_right _ List.mem_cons_self)
    rw [h.addCount_eq] at hfits
    rw [messagesIn_append]
    show messagesIn bs + messages ≤ max
    omega

end Balances

namespace TopicBook

/-- Every topic balances. -/
def Balanced (s : TopicBook) : Prop := ∀ topic, Balances (s.topics.load topic) (s.accepted topic)

theorem Balanced.call {s : TopicBook} (h : s.Balanced) (e : TopicCall) : (s.call e).Balanced := by
  intro topic
  show Balances ((s.topics.call e).load topic) (s.enter e topic)
  cases e with
  | increase k messages size =>
    rw [Topics.call, enter]
    rcases Nat.lt_or_ge (s.topics.limit k) (addCount (s.topics.load k).messages messages)
      with hfull | hfits
    · rw [Topics.increase_refused _ _ _ _ hfull]
      exact h topic
    · rw [Topics.increase_accepted _ _ _ _ hfits, Topics.load_insert]
      dsimp only
      by_cases hk : topic = k
      · subst hk
        rw [if_pos rfl, Function.update_self]
        exact (h topic).accept hfits
      · rw [if_neg hk, Function.update_of_ne hk]
        exact h topic
  | setLimit k max => exact h topic
  | resetTopic k =>
    rw [Topics.call, enter, Topics.load_resetTopic]
    by_cases hk : topic = k
    · rw [if_pos hk, hk, Function.update_self]
      exact Balances.start
    · rw [if_neg hk, Function.update_of_ne hk]
      exact h topic
  | resetRegistered =>
    rw [Topics.call, enter, Topics.load_resetRegistered]
    dsimp only
    split_ifs
    · exact Balances.start
    · exact h topic
  | resetUnregistered =>
    rw [Topics.call, enter, Topics.load_resetUnregistered]
    dsimp only
    split_ifs
    · exact h topic
    · exact Balances.start

end TopicBook

namespace Topics

/-- **The book of every run balances.** -/
theorem balanced_book (c : TopicConfig) (calls : List TopicCall) :
    ((new c).book calls).Balanced := by
  induction calls using List.reverseRecOn with
  | nil => exact fun topic => Balances.start
  | append_singleton calls e ih =>
    rw [book_append]
    exact ih.call e

/-- **The account of a topic is exact.** In every run, with the exact sum of the messages that were
accepted on a topic since the last reset that applied to it, and the limit that it was given last: a
batch is accepted exactly if the sum with its own messages, up to the largest count, is within the
limit; then the topic's load is that sum, its bytes grow by the batch's up to their largest value,
and other topics stay. A batch that is refused names the topic and the limit and changes nothing. A
call that is about another topic alters neither the load nor a decision, and a new limit alters no
load. While batches are accepted under limits up to some bound below the largest count, the exact
sum stays within that bound. -/
theorem exact_account (c : TopicConfig) (calls : List TopicCall) (topic : String) :
    let s := (new c).book calls
    let t := s.topics
    let sum := messagesIn (s.accepted topic)
    let given := latestLimit topic (limitsGiven c calls)
    let limit := given.getD c.defaultLimit.toNat
    (t.limit topic = limit ∧ t.isRegistered topic = given.isSome) ∧
    t.load topic = ⟨min countLimit sum, min sizeLimit (bytesIn (s.accepted topic))⟩ ∧
    (∀ messages size,
      let r := t.increase topic messages size
      (r.2 = .ok () ↔ min countLimit (sum + messages) ≤ limit) ∧
      (r.2 = .ok () →
        r.1.load topic =
            ⟨min countLimit (sum + messages), min sizeLimit ((t.load topic).size + size)⟩ ∧
          ∀ other, other ≠ topic → r.1.load other = t.load other) ∧
      (r.2 ≠ .ok () → r.2 = .error (.topicFlood topic limit) ∧ r.1 = t)) ∧
    (∀ e other, e.topic? = some other → topic ≠ other →
      (t.call e).load topic = t.load topic ∧
        ∀ messages size,
          ((t.call e).increase topic messages size).2 = (t.increase topic messages size).2) ∧
    (∀ max, (t.setLimit topic max).load topic = t.load topic) ∧
    ∀ max < countLimit, (∀ b ∈ s.accepted topic, b.limit ≤ max) → sum ≤ max := by
  intro s t sum given limit
  have hbook : Balances (t.load topic) (s.accepted topic) := balanced_book c calls topic
  have hgiven : t.limits.get? topic = given := get?_limits_book c calls topic
  have hlimit : t.limit topic = limit := by
    rw [Topics.limit, hgiven, defaultLimit_book]
  have hcount : ∀ messages,
      addCount (t.load topic).messages messages = min countLimit (sum + messages) :=
    hbook.addCount_eq
  refine ⟨⟨hlimit, congrArg Option.isSome hgiven⟩, ?_, fun messages size => ?_, ?_, fun max => rfl,
    hbook.within⟩
  · rw [min_comm, min_comm sizeLimit, ← hbook.messages, ← hbook.size]
  · intro r
    rcases Nat.lt_or_ge limit (min countLimit (sum + messages)) with hfull | hfits
    · have hr : r = (t, .error (.topicFlood topic limit)) := by
        rw [← hlimit]
        exact increase_refused _ _ _ _ (by rw [hlimit, hcount]; exact hfull)
      have hno : r.2 ≠ .ok () := by
        rw [hr]
        exact nofun
      refine ⟨iff_of_false hno (Nat.not_le.mpr hfull), fun h => absurd h hno, fun _ => ?_⟩
      rw [hr]
      exact ⟨rfl, rfl⟩
    · have hr := increase_accepted t topic messages size (by rw [hlimit, hcount]; exact hfits)
      have hok : r.2 = .ok () := congrArg Prod.snd hr
      refine ⟨iff_of_true hok hfits, fun _ => ⟨?_, fun other hne => ?_⟩, fun h => absurd hok h⟩
      · rw [← hcount, min_comm]
        exact (congrArg (·.1.load topic) hr).trans ((load_insert _ _ _ _).trans (if_pos rfl))
      · exact load_increase_of_ne _ _ _ _ _ hne
  · intro e other he hne
    have hload := load_call_of_ne t he hne
    exact ⟨hload, fun messages size => verdict_congr _ _ hload (limit_call_of_ne t he hne)⟩

/-- Five messages a second on every topic. -/
def fiveEach : TopicConfig := { defaultLimit := 5, limits := [] }

/-- A topic gets a limit below its load. From then on the reset of the other topics passes it over,
and the one of the registered topics does not. -/
def lateLimit : List TopicCall :=
  [.increase "a" 3 30, .setLimit "a" 2, .resetUnregistered, .increase "a" 1 10, .resetRegistered,
    .increase "a" 2 20]

/-- What has been accepted since then is within the new limit, and no more is accepted. -/
theorem lateLimit_within :
    let s := (new fiveEach).book lateLimit
    messagesIn (((new fiveEach).book (lateLimit.take 4)).accepted "a") = 3 ∧
      s.accepted "a" = [⟨2, 20, 2⟩] ∧ (∀ b ∈ s.accepted "a", b.limit ≤ 2) ∧
      messagesIn (s.accepted "a") ≤ 2 ∧
      (s.topics.increase "a" 1 10).2 = .error (.topicFlood "a" 2) := by
  intro s
  have hentered : s.accepted "a" = [⟨2, 20, 2⟩] := by decide +kernel
  have hlimits : ∀ b ∈ s.accepted "a", b.limit ≤ 2 := by
    rw [hentered]
    decide
  have hgiven : latestLimit "a" (limitsGiven fiveEach lateLimit) = some 2 := by decide +kernel
  obtain ⟨-, -, hbatch, -, -, hwithin⟩ := exact_account fiveEach lateLimit "a"
  obtain ⟨haccepted, -, hrefused⟩ := hbatch 1 10
  rw [hgiven, hentered] at haccepted
  rw [hgiven] at hrefused
  refine ⟨by decide +kernel, hentered, hlimits, hwithin 2 (by decide) hlimits, ?_⟩
  exact (hrefused fun hok => absurd (haccepted.mp hok) (by decide)).1

end Topics

end Floodgate
