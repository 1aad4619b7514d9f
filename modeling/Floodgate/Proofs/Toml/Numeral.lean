import Floodgate.Proofs.Decimal
import Floodgate.Toml.Reader
import Floodgate.Toml.Writer
import Mathlib.Tactic.ByContra
import Mathlib.Tactic.SplitIfs

/-! # Numerals are read back

A decimal numeral is read digit by digit up to the first character that is none
(`moreDigits_append`), and the digits that are read stand for the number (`Decimal.read_numeral`). A
number is no moment, for the digits of a date or a time are followed by a dash or a colon
(`moment_digits`). So an integer that fits is read back (`value_integer`). -/

namespace Floodgate

namespace Toml

/-! ### Digits -/

/-- No digit can follow: the text neither begins with one nor with an underline. -/
def Stops (s : List Char) : Prop := ∀ c, s.head? = some c → Decimal.isDigit c = false ∧ c ≠ '_'

theorem moreDigits_append {ds rest : List Char} (hds : ∀ c ∈ ds, Decimal.isDigit c = true)
    (hrest : Stops rest) : moreDigits Decimal.isDigit (ds ++ rest) = some (ds, rest) := by
  induction ds with
  | nil =>
    cases rest with
    | nil => rfl
    | cons c r =>
      obtain ⟨hdigit, hline⟩ := hrest c rfl
      rw [List.nil_append, moreDigits.eq_3 _ c r (fun _ _ h => absurd h hline), hdigit,
        if_neg Bool.false_ne_true, if_neg hline]
  | cons c cs ih =>
    obtain ⟨hc, hcs⟩ := List.forall_mem_cons.mp hds
    have hline : c ≠ '_' := by
      rintro rfl
      cases hc
    rw [List.cons_append, moreDigits.eq_3 _ c _ (fun _ _ h => absurd h hline), hc, if_pos rfl,
      ih hcs]
    rfl

theorem digits_append {ds rest : List Char} (hne : ds ≠ [])
    (hds : ∀ c ∈ ds, Decimal.isDigit c = true) (hrest : Stops rest) :
    digits Decimal.isDigit (ds ++ rest) = some (ds, rest) := by
  cases ds with
  | nil => exact absurd rfl hne
  | cons c cs =>
    obtain ⟨hc, hcs⟩ := List.forall_mem_cons.mp hds
    rw [List.cons_append, digits, if_pos hc, moreDigits_append hcs hrest]
    rfl

/-- A decimal numeral: digits without a leading zero. -/
structure IsNumeral (ds : List Char) : Prop where
  digit : ∀ c ∈ ds, Decimal.isDigit c = true
  nonempty : ds ≠ []
  leading : ds = ['0'] ∨ ds.head? ≠ some '0'

theorem isNumeral_numeral (n : Nat) : IsNumeral (Decimal.numeral n) := by
  refine ⟨Decimal.isDigit_numeral n, Decimal.numeral_ne_nil n, ?_⟩
  rcases Nat.eq_zero_or_pos n with rfl | hpos
  · exact Or.inl Decimal.numeral_zero
  · exact Or.inr (Decimal.head?_numeral hpos)

theorem IsNumeral.exists_cons {ds : List Char} (h : IsNumeral ds) :
    ∃ c cs, ds = c :: cs ∧ Decimal.isDigit c = true := by
  cases ds with
  | nil => exact absurd rfl h.nonempty
  | cons c cs => exact ⟨c, cs, rfl, h.digit c List.mem_cons_self⟩

theorem numeral_append {ds rest : List Char} (h : IsNumeral ds) (hrest : Stops rest) :
    numeral (ds ++ rest) = some (ds, rest) := by
  rcases h.leading with rfl | hhead
  · rfl
  · obtain ⟨c, cs, rfl, -⟩ := h.exists_cons
    have hc : c ≠ '0' := by simpa using hhead
    have hdigits := digits_append h.nonempty h.digit hrest
    rw [List.cons_append] at hdigits ⊢
    rw [numeral.eq_2 _ (fun _ h => hc (List.cons.inj h).1), hdigits]

/-! ### No moments -/

theorem of_field_eq_some {n low high v : Nat} {ds rest t : List Char}
    (hrest : ∀ c, rest.head? = some c → Decimal.isDigit c = false)
    (h : field n low high (ds ++ rest) = some (v, t)) : n ≤ ds.length ∧ t = ds.drop n ++ rest := by
  simp only [field] at h
  split_ifs at h with hfield
  simp only [Bool.and_eq_true, decide_eq_true_eq, List.all_eq_true] at hfield
  obtain ⟨⟨⟨hlength, hall⟩, -⟩, -⟩ := hfield
  have hle : n ≤ ds.length := by
    by_contra hlt
    have htake : (ds ++ rest).take n = ds ++ rest.take (n - ds.length) := by
      rw [List.take_append, List.take_of_length_le (by omega)]
    cases rest with
    | nil =>
      rw [htake] at hlength
      simp at hlength
      omega
    | cons c r =>
      have hmem : c ∈ (ds ++ c :: r).take n := by
        rw [htake]
        refine List.mem_append_right _ ?_
        obtain ⟨k, hk⟩ : ∃ k, n - ds.length = k + 1 := ⟨n - ds.length - 1, by omega⟩
        rw [hk, List.take_succ_cons]
        exact List.mem_cons_self
      have hdigit := hall c hmem
      rw [hrest c rfl] at hdigit
      cases hdigit
  cases h
  exact ⟨hle, List.drop_append_of_le_length hle⟩

theorem after?_digits {d : Char} (hd : Decimal.isDigit d = false) {ds rest : List Char}
    (hds : ∀ c ∈ ds, Decimal.isDigit c = true) (hrest : rest.head? ≠ some d) :
    after? d (ds ++ rest) = none := by
  have hne : ∀ c s, c ≠ d → after? d (c :: s) = none := fun c s hc => by rw [after?, if_neg hc]
  cases ds with
  | nil =>
    cases rest with
    | nil => rfl
    | cons c r => exact hne c r (by simpa using hrest)
  | cons c cs =>
    refine hne c _ ?_
    rintro rfl
    rw [hds c List.mem_cons_self] at hd
    cases hd

/-- **Digits that neither a dash nor a colon follows are no moment.** -/
theorem moment_digits {ds rest : List Char} (hds : ∀ c ∈ ds, Decimal.isDigit c = true)
    (hrest : ∀ c, rest.head? = some c → Decimal.isDigit c = false) (hdash : rest.head? ≠ some '-')
    (hcolon : rest.head? ≠ some ':') : moment (ds ++ rest) = none := by
  have hdrop : ∀ n, ∀ c ∈ ds.drop n, Decimal.isDigit c = true :=
    fun n c hc => hds c (List.mem_of_mem_drop hc)
  have hdate : date? (ds ++ rest) = none := by
    rcases hyear : field 4 0 9999 (ds ++ rest) with _ | ⟨y, t⟩
    · simp [date?, hyear]
    · obtain ⟨-, rfl⟩ := of_field_eq_some hrest hyear
      have hafter := after?_digits (d := '-') (by decide) (hdrop 4) hdash
      simp [date?, hyear, hafter]
  have htime : time? (ds ++ rest) = none := by
    rcases hhour : field 2 0 23 (ds ++ rest) with _ | ⟨v, t⟩
    · simp [time?, minutes?, hhour]
    · obtain ⟨-, rfl⟩ := of_field_eq_some hrest hhour
      have hafter := after?_digits (d := ':') (by decide) (hdrop 2) hcolon
      simp [time?, minutes?, hhour, hafter]
  rw [moment, hdate, htime]
  rfl

theorem moment_other {c : Char} (hc : Decimal.isDigit c = false) (s : List Char) :
    moment (c :: s) = none := by
  have hfield : ∀ n low high, 0 < n → field n low high (c :: s) = none := by
    intro n low high hn
    rcases hf : field n low high (c :: s) with _ | ⟨v, t⟩
    · rfl
    · have hhead : ∀ d, (c :: s).head? = some d → Decimal.isDigit d = false := by
        intro d hd
        cases hd
        exact hc
      have hle : n ≤ ([] : List Char).length := (of_field_eq_some hhead hf).1
      exact absurd hle (Nat.not_le_of_lt hn)
  have hdate : date? (c :: s) = none := by simp [date?, hfield 4]
  have htime : time? (c :: s) = none := by simp [time?, minutes?, hfield 2]
  rw [moment, hdate, htime]
  rfl

/-! ### Integers -/

theorem sign_digit {c : Char} (hc : Decimal.isDigit c = true) (s : List Char) :
    sign (c :: s) = (false, c :: s) := by
  unfold sign
  split
  · rename_i heq
    cases heq
    cases hc
  · rename_i heq
    cases heq
    cases hc
  · rfl

theorem special_digit {c : Char} (hc : Decimal.isDigit c = true) (negative : Bool)
    (s : List Char) : special negative (c :: s) = none := by
  unfold special
  split
  · rename_i heq
    cases heq
    cases hc
  · rename_i heq
    cases heq
    cases hc
  · rfl

theorem value_other {c : Char} (hc : c ∉ ['t', 'f', '"', '\'', '[', '\x7b']) (depth : Nat)
    (s : List Char) :
    value depth (c :: s) = (moment (c :: s)).orElse fun _ => number (c :: s) := by
  have hne : ∀ d ∈ ['t', 'f', '"', '\'', '[', '\x7b'], c ≠ d := fun d hd h => hc (h ▸ hd)
  have hscalar : scalar (c :: s) = (moment (c :: s)).orElse fun _ => number (c :: s) := by
    refine scalar.eq_5 (c :: s) ?_ ?_ ?_ ?_
    all_goals
      intro t ht
      refine absurd (List.cons.inj ht).1 (hne _ ?_)
      simp
  cases depth with
  | zero => exact hscalar
  | succ depth =>
    have hvalue : value (depth + 1) (c :: s) = scalar (c :: s) := by
      refine value.eq_4 (c :: s) depth ?_ ?_
      all_goals
        intro t ht
        refine absurd (List.cons.inj ht).1 (hne _ ?_)
        simp
    exact hvalue.trans hscalar

theorem number_integer {ds rest : List Char} (hds : IsNumeral ds) (hrest : Stops rest)
    (hpart : ∀ c, rest.head? = some c → c ≠ '.' ∧ c ≠ 'e' ∧ c ≠ 'E') :
    number (ds ++ rest) = integer (ds ++ rest) := by
  obtain ⟨c, cs, hcons, hc⟩ := hds.exists_cons
  have hnumeral := numeral_append hds hrest
  have hfraction : fraction? rest = some (none, rest) := by
    unfold fraction?
    split
    · exact absurd rfl (hpart '.' rfl).1
    · rfl
  have hexponent : exponent? rest = some (none, rest) := by
    unfold exponent?
    split
    · exact absurd rfl (hpart 'e' rfl).2.1
    · exact absurd rfl (hpart 'E' rfl).2.2
    · rfl
  rw [hcons, List.cons_append] at hnumeral ⊢
  simp [number, sign_digit hc, special_digit hc, hnumeral, hfraction, hexponent]

theorem integer_numeral (n : Nat) {rest : List Char} (hrest : Stops rest)
    (hbase : ∀ c, rest.head? = some c → c ≠ 'x' ∧ c ≠ 'o' ∧ c ≠ 'b') :
    integer (Decimal.numeral n ++ rest) = (fitting n).map fun d => (d, rest) := by
  have hds := isNumeral_numeral n
  have hnumeral := numeral_append hds hrest
  obtain ⟨c, cs, hcons, hc⟩ := hds.exists_cons
  -- a zero at the front is the whole numeral, so that no letter of a base follows it
  have hplain : ∀ d ∈ ['x', 'o', 'b'], ∀ t, Decimal.numeral n ++ rest = '0' :: d :: t → False := by
    intro d hd t ht
    rcases hds.leading with hzero | hhead
    · rw [hzero] at ht
      have hhead : rest.head? = some d := congrArg List.head? (List.cons.inj ht).2
      obtain ⟨hx, ho, hb⟩ := hbase d hhead
      simp_all
    · rw [hcons] at ht hhead
      exact hhead (by rw [(List.cons.inj ht).1]; rfl)
  rw [integer.eq_4 _ (hplain 'x' (by simp)) (hplain 'o' (by simp)) (hplain 'b' (by simp))]
  have hsign : sign (Decimal.numeral n ++ rest) = (false, Decimal.numeral n ++ rest) := by
    rw [hcons]
    exact sign_digit hc _
  rw [hsign]
  dsimp only
  rw [hnumeral, Option.bind_some, Decimal.read_numeral]
  rfl

theorem head?_numeral_append (n : Nat) (rest : List Char) :
    ∃ c cs, Decimal.numeral n ++ rest = c :: cs ∧ Decimal.isDigit c = true := by
  obtain ⟨c, cs, hcons, hc⟩ := (isNumeral_numeral n).exists_cons
  exact ⟨c, cs ++ rest, by rw [hcons]; rfl, hc⟩

theorem isDigit_not_mem {c : Char} (hc : Decimal.isDigit c = true) {cs : List Char}
    (hcs : (cs.all fun d => !Decimal.isDigit d) = true) : c ∉ cs := by
  intro h
  have hnot := List.all_eq_true.mp hcs c h
  rw [hc] at hnot
  cases hnot

/-- **An integer is read back that is on a line of its own.** -/
theorem value_integer {n : Nat} (h : isWritable (.integer n) = true) (depth : Nat) (r : List Char) :
    value depth (Decimal.numeral n ++ '\n' :: r) = some (.integer n, '\n' :: r) := by
  have hnewline : ∀ c, ('\n' :: r).head? = some c → c = '\n' := fun c hc =>
    (Option.some.inj hc).symm
  have hstops : Stops ('\n' :: r) := by
    rintro c hc
    rw [hnewline c hc]
    decide
  have hmoment : moment (Decimal.numeral n ++ '\n' :: r) = none :=
    moment_digits (Decimal.isDigit_numeral n) (fun c hc => (hstops c hc).1) (by simp) (by simp)
  have hnumber : number (Decimal.numeral n ++ '\n' :: r) =
      (fitting n).map fun d => (d, '\n' :: r) := by
    rw [number_integer (isNumeral_numeral n) hstops, integer_numeral n hstops]
    · rintro c hc
      rw [hnewline c hc]
      decide
    · rintro c hc
      rw [hnewline c hc]
      decide
  have hfitting : fitting n = some (.integer n) := by
    rw [isWritable, fitting] at h
    rw [fitting]
    split_ifs at h ⊢
    · rfl
    · cases h
  obtain ⟨c, cs, hcons, hc⟩ := head?_numeral_append n ('\n' :: r)
  have hvalue := value_other (isDigit_not_mem hc rfl) depth cs
  rw [← hcons, hmoment, hnumber, hfitting] at hvalue
  exact hvalue

end Toml

end Floodgate
