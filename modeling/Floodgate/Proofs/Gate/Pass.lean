import Floodgate.Gate
import Mathlib.Data.List.Basic

/-! # A message on its way through the lanes

What the tier of a lane decides on a message is a function of the tier alone (`Lane.alone`): the
ledger, to which watches write bans while the message is on its way, is not asked again. So a pass
serves the lanes up to the first one whose tier, asked alone, refuses the message, and leaves the
lanes behind it as they are (`Lane.pass_refused`, `Lane.pass_admitted`). -/

namespace Floodgate

namespace Lane

variable (now : Instant) (m : Message)

/-- What the tier of a lane makes of a message that is sent to it alone. -/
def alone (l : Lane) (m : Message) : Tier × Quota × Admission :=
  l.tier.consume m.peerClass m.peer m.size

/-- Would the tier of the lane admit the message? -/
def Admits (l : Lane) (m : Message) : Prop := (l.alone m).2.2 = .admitted

/-- Lanes that all take in a message one after the other, with the ledger that they write to. -/
def serve : List Lane → Ledger → List Lane × Ledger
  | [], ledger => ([], ledger)
  | l :: ls, ledger =>
    let (l, ledger, _) := l.consume ledger now m.peerClass m.peer m.size
    let (ls, ledger) := serve ls ledger
    (l :: ls, ledger)

/-! ### One lane -/

theorem consume_tier (l : Lane) (ledger : Ledger) :
    (l.consume ledger now m.peerClass m.peer m.size).1.tier = (l.alone m).1 := rfl

theorem consume_admission (l : Lane) (ledger : Ledger) :
    (l.consume ledger now m.peerClass m.peer m.size).2.2 = (l.alone m).2.2 := rfl

theorem consume_speed (l : Lane) (ledger : Ledger) :
    (l.consume ledger now m.peerClass m.peer m.size).1.speed = l.speed := rfl

/-! ### Lanes that are served -/

theorem serve_cons (l : Lane) (ls : List Lane) (ledger : Ledger) :
    serve now m (l :: ls) ledger =
      ((l.consume ledger now m.peerClass m.peer m.size).1 ::
          (serve now m ls (l.consume ledger now m.peerClass m.peer m.size).2.1).1,
        (serve now m ls (l.consume ledger now m.peerClass m.peer m.size).2.1).2) := rfl

/-- **The tiers of the lanes that are served end as if each had been asked alone.** -/
theorem serve_tiers (ls : List Lane) (ledger : Ledger) :
    (serve now m ls ledger).1.map (·.tier) = ls.map fun l => (l.alone m).1 := by
  induction ls generalizing ledger with
  | nil => rfl
  | cons l ls ih => rw [serve_cons, List.map_cons, List.map_cons, ih, consume_tier]

/-! ### A pass -/

theorem pass_cons_admitted {l : Lane} (h : l.Admits m) (ls : List Lane) (ledger : Ledger) :
    pass now m (l :: ls) ledger =
      ((l.consume ledger now m.peerClass m.peer m.size).1 ::
          (pass now m ls (l.consume ledger now m.peerClass m.peer m.size).2.1).1,
        (pass now m ls (l.consume ledger now m.peerClass m.peer m.size).2.1).2) := by
  have h' := consume_admission now m l ledger
  rw [h] at h'
  rw [pass]
  rcases hc : l.consume ledger now m.peerClass m.peer m.size with ⟨l', ledger', a⟩
  rw [hc] at h'
  dsimp only at h'
  rw [h']

theorem pass_cons_refused {l : Lane} {e : Excess} (h : (l.alone m).2.2 = .rejected e)
    (ls : List Lane) (ledger : Ledger) :
    pass now m (l :: ls) ledger =
      ((l.consume ledger now m.peerClass m.peer m.size).1 :: ls,
        (l.consume ledger now m.peerClass m.peer m.size).2.1,
        .error (.peerFlood l.speed.name e)) := by
  have h' := consume_admission now m l ledger
  have hs := consume_speed now m l ledger
  rw [h] at h'
  rw [pass]
  rcases hc : l.consume ledger now m.peerClass m.peer m.size with ⟨l', ledger', a⟩
  rw [hc] at h' hs
  dsimp only at h' hs
  rw [h', ← hs]

theorem pass_admitted {ls : List Lane} (h : ∀ l ∈ ls, l.Admits m) (ledger : Ledger) :
    pass now m ls ledger = ((serve now m ls ledger).1, (serve now m ls ledger).2, .ok ()) := by
  induction ls generalizing ledger with
  | nil => rfl
  | cons l ls ih =>
    rw [pass_cons_admitted now m (h l (by simp)), ih fun x hx => h x (by simp [hx]), serve_cons]

/-- Lanes that admit the message hand it on to the lanes behind them. -/
theorem pass_append {before : List Lane} (h : ∀ l ∈ before, l.Admits m) (after : List Lane)
    (ledger : Ledger) :
    pass now m (before ++ after) ledger =
      ((serve now m before ledger).1 ++ (pass now m after (serve now m before ledger).2).1,
        (pass now m after (serve now m before ledger).2).2) := by
  induction before generalizing ledger with
  | nil => rfl
  | cons l before ih =>
    rw [List.cons_append, pass_cons_admitted now m (h l (by simp)),
      ih fun x hx => h x (by simp [hx]), serve_cons]
    rfl

theorem serve_append (before after : List Lane) (ledger : Ledger) :
    serve now m (before ++ after) ledger =
      ((serve now m before ledger).1 ++ (serve now m after (serve now m before ledger).2).1,
        (serve now m after (serve now m before ledger).2).2) := by
  induction before generalizing ledger with
  | nil => rfl
  | cons l before ih =>
    rw [List.cons_append, serve_cons, ih, serve_cons]
    rfl

/-- **The first tier that refuses a message decides**: the lanes up to it have been served, and the
lanes behind it are as they were. -/
theorem pass_refused {before : List Lane} {l : Lane} {e : Excess} (h : ∀ x ∈ before, x.Admits m)
    (hl : (l.alone m).2.2 = .rejected e) (after : List Lane) (ledger : Ledger) :
    pass now m (before ++ l :: after) ledger =
      ((serve now m (before ++ [l]) ledger).1 ++ after, (serve now m (before ++ [l]) ledger).2,
        .error (.peerFlood l.speed.name e)) := by
  rw [pass_append now m h, pass_cons_refused now m hl, serve_append, serve_cons]
  simp [serve]

theorem first_refusal (ls : List Lane) :
    (∀ l ∈ ls, l.Admits m) ∨
      ∃ before l after e, ls = before ++ l :: after ∧ (∀ x ∈ before, x.Admits m) ∧
        (l.alone m).2.2 = .rejected e := by
  induction ls with
  | nil => exact Or.inl fun l hl => absurd hl List.not_mem_nil
  | cons l ls ih =>
    rcases ha : (l.alone m).2.2 with _ | e
    · rcases ih with hall | ⟨before, x, after, e, rfl, hbefore, hx⟩
      · refine Or.inl fun x hx => ?_
        rcases List.mem_cons.mp hx with rfl | hx
        · exact ha
        · exact hall x hx
      · refine Or.inr ⟨l :: before, x, after, e, rfl, fun y hy => ?_, hx⟩
        rcases List.mem_cons.mp hy with rfl | hy
        · exact ha
        · exact hbefore y hy
    · exact Or.inr ⟨[], l, ls, e, rfl, fun x hx => absurd hx List.not_mem_nil, ha⟩

/-- **Neither the verdict nor the counters of a pass depend on the ledger**, whatever bans it
holds. -/
theorem pass_ledger (ls : List Lane) (ledger ledger' : Ledger) (now' : Instant) :
    (pass now m ls ledger).2.2 = (pass now' m ls ledger').2.2 ∧
      (pass now m ls ledger).1.map (·.tier) = (pass now' m ls ledger').1.map (·.tier) := by
  rcases first_refusal m ls with hall | ⟨before, l, after, e, rfl, hbefore, hl⟩
  · rw [pass_admitted now m hall, pass_admitted now' m hall]
    exact ⟨rfl, by rw [serve_tiers, serve_tiers]⟩
  · rw [pass_refused now m hbefore hl, pass_refused now' m hbefore hl]
    refine ⟨rfl, ?_⟩
    rw [List.map_append, List.map_append, serve_tiers, serve_tiers]

end Lane

end Floodgate
