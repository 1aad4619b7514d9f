import Floodgate.Station

/-! # Building a station

A station is built step by step, and the first step that fails decides. What a station of enabled
settings is made of can be read off its steps (`Station.of_build`). -/

namespace Floodgate

theorem of_bind_eq_ok {ε α β : Type} {x : Except ε α} {f : α → Except ε β} {b : β}
    (h : x >>= f = .ok b) : ∃ a, x = .ok a ∧ f a = .ok b := by
  cases x with
  | error e => cases h
  | ok a => exact ⟨a, rfl, h⟩

theorem Gate.of_make? {topics : Topics} {lanes : List Lane} {g : Gate}
    (h : make? topics lanes = .ok g) : lanes ≠ [] ∧ g = new topics lanes := by
  unfold make? at h
  cases lanes with
  | nil => cases h
  | cons l ls => exact ⟨List.cons_ne_nil l ls, (Except.ok.inj h).symm⟩

namespace Station

theorem of_start {gate : Gate} {resetsTopics : Bool} {sweepers : List Sweeper}
    {journal : Option Journal} {runtime : Bool} {s : Station}
    (h : start gate resetsTopics sweepers journal runtime = .ok s) :
    runtime = true ∧ s.enabled = true ∧ s.now = 0 ∧ s.gate = gate ∧ s.keys = ∅ ∧
      s.sweepers = sweepers ∧
      s.schedule = .start 0 (jobs gate.lanes resetsTopics sweepers journal) := by
  unfold start at h
  cases runtime with
  | false => cases h
  | true =>
    cases h
    exact ⟨rfl, rfl, rfl, rfl, rfl, rfl, rfl⟩

/-- **What the station of enabled settings is made of.** -/
theorem of_build {c : Config} {journal : JournalConfig} {runtime : Bool} {s : Station}
    (h : build c journal runtime = .ok s) (enabled : c.enabled = true) :
    ∃ lanes topics kept, lanes ≠ [] ∧ lanes? c = .ok lanes ∧ Topics.make? c.topics = .ok topics ∧
      start (.new topics lanes) true [.peers, .keys] kept runtime = .ok s := by
  rw [build, if_pos enabled] at h
  obtain ⟨-, -, h⟩ := of_bind_eq_ok h
  obtain ⟨-, -, h⟩ := of_bind_eq_ok h
  obtain ⟨lanes, hlanes, h⟩ := of_bind_eq_ok h
  obtain ⟨topics, htopics, h⟩ := of_bind_eq_ok h
  obtain ⟨gate, hgate, h⟩ := of_bind_eq_ok h
  obtain ⟨hne, rfl⟩ := Gate.of_make? hgate
  dsimp only at h
  split at h
  · obtain ⟨kept, -, h⟩ := of_bind_eq_ok h
    exact ⟨lanes, topics, kept, hne, hlanes, htopics, h⟩
  · exact ⟨lanes, topics, none, hne, hlanes, htopics, h⟩

/-- The station for production. -/
def production : Station :=
  match build .production {} true with
  | .ok s => s
  | .error _ => disabled

theorem build_production : build .production {} true = .ok production := by
  have hok : (build .production {} true).isOk = true := by decide +kernel
  unfold production
  cases h : build .production {} true with
  | ok s => rfl
  | error f =>
    rw [h] at hok
    cases hok

end Station

end Floodgate
