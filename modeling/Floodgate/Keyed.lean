/-! # Keyed stores

A keyed store is a finite map from keys to values: a list of entries in which no key occurs twice,
in the order in which the keys arrived. The view of a store is `get?`; every operation is described
by what it does to that view (`get?_insert`, `get?_erase`, `get?_keep`, `get?_map`). -/

namespace Floodgate

/-- A finite map: entries whose keys are distinct, in order of arrival. -/
structure Keyed (κ α : Type) where
  entries : List (κ × α)
  nodup : (entries.map Prod.fst).Nodup

namespace Keyed

variable {κ α β : Type}

/-- The store without entries. -/
def empty : Keyed κ α := ⟨[], List.nodup_nil⟩

instance : EmptyCollection (Keyed κ α) := ⟨empty⟩

instance : Inhabited (Keyed κ α) := ⟨empty⟩

/-- The keys, in order of arrival. -/
def keys (m : Keyed κ α) : List κ := m.entries.map Prod.fst

/-- The number of entries. -/
def size (m : Keyed κ α) : Nat := m.entries.length

/-- The value of `k` in a list of entries. -/
def find [DecidableEq κ] (k : κ) : List (κ × α) → Option α
  | [] => none
  | e :: es => if e.1 = k then some e.2 else find k es

/-- The value of `k`, if it has one. -/
def get? [DecidableEq κ] (m : Keyed κ α) (k : κ) : Option α := find k m.entries

/-- Does `k` have a value? -/
def contains [DecidableEq κ] (m : Keyed κ α) (k : κ) : Bool := (m.get? k).isSome

/-- The entries with the value of `k` set to `a`; a new key comes last. -/
def put [DecidableEq κ] (k : κ) (a : α) : List (κ × α) → List (κ × α)
  | [] => [(k, a)]
  | e :: es => if e.1 = k then (k, a) :: es else e :: put k a es

theorem keys_put [DecidableEq κ] (k : κ) (a : α) : ∀ es : List (κ × α),
    (put k a es).map Prod.fst =
      if k ∈ es.map Prod.fst then es.map Prod.fst else es.map Prod.fst ++ [k]
  | [] => by simp [put]
  | e :: es => by
    have ih := keys_put k a es
    by_cases h : e.1 = k
    · simp [put, h]
    · have h' : ¬ k = e.1 := fun e => h e.symm
      by_cases hk : k ∈ es.map Prod.fst
      · rw [if_pos hk] at ih
        rw [if_pos (by simp only [List.map_cons, List.mem_cons]; exact Or.inr hk)]
        simp only [put, h, if_false, List.map_cons, ih]
      · rw [if_neg hk] at ih
        rw [if_neg (by simp only [List.map_cons, List.mem_cons, not_or]; exact ⟨h', hk⟩)]
        simp only [put, h, if_false, List.map_cons, ih, List.cons_append]

/-- The store with the value of `k` set to `a`. -/
def insert [DecidableEq κ] (m : Keyed κ α) (k : κ) (a : α) : Keyed κ α where
  entries := put k a m.entries
  nodup := by
    rw [keys_put]
    split
    · exact m.nodup
    · rename_i h
      refine List.nodup_append.mpr ⟨m.nodup, by simp, ?_⟩
      intro x hx y hy e
      simp only [List.mem_singleton] at hy
      exact h (hy ▸ e ▸ hx)

/-- The entries that pass a test. -/
def keep (m : Keyed κ α) (p : κ → α → Bool) : Keyed κ α where
  entries := m.entries.filter fun e => p e.1 e.2
  nodup := (List.filter_sublist.map Prod.fst).nodup m.nodup

/-- The store without `k`. -/
def erase [DecidableEq κ] (m : Keyed κ α) (k : κ) : Keyed κ α := m.keep fun k' _ => k' ≠ k

/-- Every value replaced by its image. -/
def map (m : Keyed κ α) (f : κ → α → β) : Keyed κ β where
  entries := m.entries.map fun e => (e.1, f e.1 e.2)
  nodup := by
    rw [List.map_map]
    exact m.nodup

/-- The store of a list of entries, of which the last for a key wins. -/
def ofList [DecidableEq κ] (es : List (κ × α)) : Keyed κ α :=
  es.foldl (fun m e => m.insert e.1 e.2) ∅

/-! ### The view -/

section View

variable [DecidableEq κ]

@[simp]
theorem get?_empty (k : κ) : (∅ : Keyed κ α).get? k = none := rfl

theorem contains_eq (m : Keyed κ α) (k : κ) : m.contains k = (m.get? k).isSome := rfl

theorem find_put (k : κ) (a : α) (q : κ) : ∀ es : List (κ × α),
    find q (put k a es) = if q = k then some a else find q es
  | [] => by
    by_cases h : q = k
    · simp [put, find, h]
    · simp [put, find, h, Ne.symm h]
  | e :: es => by
    have ih := find_put k a q es
    by_cases h : e.1 = k
    · by_cases hq : q = k
      · simp [put, find, h, hq]
      · have hq' : ¬ k = q := fun e => hq e.symm
        simp [put, find, h, hq, hq']
    · by_cases hq : q = k
      · subst hq
        simp only [put, h, if_false, find, ih, if_true]
      · simp only [put, h, if_false, find, ih, hq]

@[simp]
theorem get?_insert (m : Keyed κ α) (k : κ) (a : α) (q : κ) :
    (m.insert k a).get? q = if q = k then some a else m.get? q :=
  find_put k a q m.entries

theorem find_eq_none (q : κ) : ∀ es : List (κ × α), q ∉ es.map Prod.fst → find q es = none
  | [], _ => rfl
  | e :: es, h => by
    simp only [List.map_cons, List.mem_cons, not_or] at h
    simp only [find, if_neg (Ne.symm h.1)]
    exact find_eq_none q es h.2

theorem find_filter (p : κ → α → Bool) (q : κ) : ∀ es : List (κ × α), (es.map Prod.fst).Nodup →
    find q (es.filter fun e => p e.1 e.2) = (find q es).filter (p q)
  | [], _ => rfl
  | e :: es, h => by
    simp only [List.map_cons, List.nodup_cons] at h
    have ih := find_filter p q es h.2
    by_cases hq : e.1 = q
    · subst hq
      by_cases hp : p e.1 e.2 = true
      · simp [find, hp, Option.filter]
      · have hnone : find e.1 es = none := find_eq_none _ _ h.1
        simp [find, hp, ih, hnone, Option.filter]
    · by_cases hp : p e.1 e.2 = true
      · simp [find, hp, hq, ih]
      · simp [find, hp, hq, ih]

@[simp]
theorem get?_keep (m : Keyed κ α) (p : κ → α → Bool) (q : κ) :
    (m.keep p).get? q = (m.get? q).filter (p q) :=
  find_filter p q m.entries m.nodup

@[simp]
theorem get?_erase (m : Keyed κ α) (k q : κ) :
    (m.erase k).get? q = if q = k then none else m.get? q := by
  rw [erase, get?_keep]
  by_cases h : q = k
  · cases m.get? q <;> simp [h, Option.filter]
  · cases m.get? q <;> simp [h, Option.filter]

theorem find_map (f : κ → α → β) (q : κ) : ∀ es : List (κ × α),
    find q (es.map fun e => (e.1, f e.1 e.2)) = (find q es).map (f q)
  | [] => rfl
  | e :: es => by
    by_cases h : e.1 = q
    · subst h; simp [find]
    · simp [find, h, find_map f q es]

@[simp]
theorem get?_map (m : Keyed κ α) (f : κ → α → β) (q : κ) :
    (m.map f).get? q = (m.get? q).map (f q) :=
  find_map f q m.entries

theorem find_eq_some_of_mem {q : κ} {a : α} : ∀ {es : List (κ × α)}, (es.map Prod.fst).Nodup →
    (q, a) ∈ es → find q es = some a
  | [], _, h => absurd h List.not_mem_nil
  | e :: es, hn, h => by
    simp only [List.map_cons, List.nodup_cons] at hn
    rcases List.mem_cons.mp h with h | h
    · simp [find, ← h]
    · have hne : ¬ e.1 = q := fun he => hn.1 (List.mem_map.mpr ⟨_, h, he.symm⟩)
      simp only [find, hne, if_false]
      exact find_eq_some_of_mem hn.2 h

theorem mem_of_find {q : κ} {a : α} : ∀ {es : List (κ × α)}, find q es = some a → (q, a) ∈ es
  | [], h => by simp [find] at h
  | e :: es, h => by
    by_cases he : e.1 = q
    · simp only [find, he, if_true, Option.some.injEq] at h
      exact List.mem_cons.mpr (Or.inl (by rw [← he, ← h]))
    · simp only [find, he, if_false] at h
      exact List.mem_cons_of_mem _ (mem_of_find h)

theorem mem_entries_iff (m : Keyed κ α) {k : κ} {a : α} : (k, a) ∈ m.entries ↔ m.get? k = some a :=
  ⟨find_eq_some_of_mem m.nodup, mem_of_find⟩

theorem mem_keys_iff (m : Keyed κ α) {k : κ} : k ∈ m.keys ↔ m.contains k = true := by
  rw [contains_eq, Option.isSome_iff_exists]
  simp only [keys, List.mem_map]
  constructor
  · rintro ⟨⟨k', a⟩, h, rfl⟩; exact ⟨a, m.mem_entries_iff.mp h⟩
  · rintro ⟨a, h⟩; exact ⟨(k, a), m.mem_entries_iff.mpr h, rfl⟩

end View

end Keyed

end Floodgate
