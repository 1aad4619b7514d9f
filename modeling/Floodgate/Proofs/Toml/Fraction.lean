import Floodgate.Proofs.Double.Shortest
import Floodgate.Proofs.Toml.Numeral

/-! # Floating-point numbers are read back

The text of a finite number is a numeral, a point and one or more digits (`exists_point`), and the
decimal that they stand for is the one that has been tried when the text was made, or the same one
with a zero behind it. So every number is read back, with its sign, and also what is infinite or no
number (`value_double`). -/

namespace Floodgate

namespace Toml

/-- The text of a magnitude with a fraction, be it one of zero. -/
def pointed (m : Magnitude) : List Char :=
  Double.magnitudeText m ++ if (Double.magnitudeText m).contains '.' then [] else ['.', '0']

/-- A numeral and the digits of a fraction stand for a magnitude. -/
structure Stands (whole fraction : List Char) (m : Magnitude) : Prop where
  numeral : IsNumeral whole
  nonempty : fraction ≠ []
  digit : ∀ c ∈ fraction, Decimal.isDigit c = true
  value : ∀ negative, Double.ofDecimal negative (Decimal.read (whole ++ fraction))
    (-(fraction.length : Int)) = .finite negative m

theorem isDigit_replicate_zero (k : Nat) :
    ∀ c ∈ List.replicate k '0', Decimal.isDigit c = true := by
  intro c hc
  rw [List.eq_of_mem_replicate hc]
  decide

theorem point_not_mem {ds : List Char} (h : ∀ c ∈ ds, Decimal.isDigit c = true) : '.' ∉ ds := by
  intro hpoint
  exact absurd (h '.' hpoint) (by decide)

theorem stands_zero : Stands ['0'] ['0'] .zero := by
  refine ⟨Decimal.numeral_zero ▸ isNumeral_numeral 0, by simp, isDigit_replicate_zero 1,
    fun negative => ?_⟩
  have hread : Decimal.read (['0'] ++ ['0']) = 0 := by decide
  rw [hread, Double.ofDecimal, if_pos (Or.inl rfl)]

section Positional

variable {c : Nat} {m : Magnitude}

theorem positional_natCast (c k : Nat) :
    Double.positional c k = Decimal.numeral c ++ List.replicate k '0' := by
  have hlength := List.length_pos_iff.mpr (Decimal.numeral_ne_nil c)
  have hplaces : (-(k : Int)).toNat = 0 := by omega
  have hnone : 0 + 1 - (Decimal.numeral c).length = 0 := by omega
  simp only [Double.positional, hplaces, hnone, Int.toNat_natCast, if_true]
  rfl

theorem stands_natCast (hc : 0 < c) {k : Nat} (h : Double.ofDecimal false c k = .finite false m) :
    Stands (Double.positional c k) ['0'] m := by
  rw [positional_natCast]
  refine ⟨⟨?_, ?_, Or.inr ?_⟩, by simp, isDigit_replicate_zero 1, fun negative => ?_⟩
  · exact List.forall_mem_append.mpr ⟨Decimal.isDigit_numeral c, isDigit_replicate_zero k⟩
  · exact List.append_ne_nil_of_left_ne_nil (Decimal.numeral_ne_nil c) _
  · have hhead := Decimal.head?_numeral hc
    obtain ⟨d, ds, hcons, -⟩ := (isNumeral_numeral c).exists_cons
    rw [hcons] at hhead ⊢
    exact hhead
  · have hread : Decimal.read (Decimal.numeral c ++ List.replicate k '0' ++ ['0']) =
        c * 10 ^ k * 10 := by
      rw [List.append_assoc, ← List.replicate_succ', Decimal.read_append_zeros,
        Decimal.read_numeral, Nat.pow_succ, Nat.mul_assoc]
    rw [hread]
    exact (Double.ofDecimal_point_zero hc k negative).trans (Double.ofDecimal_negative h negative)

/-- The digits of a number with zeros in front, one more than there are places at least. -/
def padded (c places : Nat) : List Char :=
  List.replicate (places + 1 - (Decimal.numeral c).length) '0' ++ Decimal.numeral c

theorem isDigit_padded (c places : Nat) : ∀ d ∈ padded c places, Decimal.isDigit d = true :=
  List.forall_mem_append.mpr ⟨isDigit_replicate_zero _, Decimal.isDigit_numeral c⟩

theorem places_lt_length_padded (c places : Nat) : places < (padded c places).length := by
  simp only [padded, List.length_append, List.length_replicate]
  omega

theorem positional_neg (c places : Nat) :
    Double.positional c (-(places + 1 : Nat)) =
      (padded c (places + 1)).take ((padded c (places + 1)).length - (places + 1)) ++
        '.' :: (padded c (places + 1)).drop ((padded c (places + 1)).length - (places + 1)) := by
  have hplaces : (- -((places + 1 : Nat) : Int)).toNat = places + 1 := by omega
  have hnone : (-((places + 1 : Nat) : Int)).toNat = 0 := by omega
  simp only [Double.positional, hplaces, hnone, List.replicate_zero, List.append_nil]
  rfl

theorem isNumeral_take_padded (hc : 0 < c) (places : Nat) :
    IsNumeral ((padded c places).take ((padded c places).length - places)) := by
  have hlength := places_lt_length_padded c places
  have hne : (padded c places).take ((padded c places).length - places) ≠ [] := by
    intro hnil
    have hzero := congrArg List.length hnil
    rw [List.length_take, List.length_nil] at hzero
    omega
  refine ⟨fun d hd => isDigit_padded c places d (List.mem_of_mem_take hd), hne, ?_⟩
  rcases Nat.lt_or_ge places (Decimal.numeral c).length with hlong | hshort
  · -- enough digits: the first one is none of the zeros in front
    have hpadded : padded c places = Decimal.numeral c := by
      rw [padded, Nat.sub_eq_zero_of_le hlong]
      rfl
    rw [hpadded] at hne ⊢
    refine Or.inr ?_
    rw [List.head?_take, if_neg (by omega)]
    exact Decimal.head?_numeral hc
  · -- too few: one zero stands in front of the point
    obtain ⟨n, hn⟩ : ∃ n, places + 1 - (Decimal.numeral c).length = n + 1 :=
      ⟨places - (Decimal.numeral c).length, by omega⟩
    have hone : (padded c places).length - places = 1 := by
      simp only [padded, List.length_append, List.length_replicate]
      omega
    refine Or.inl ?_
    rw [hone, padded, hn, List.replicate_succ]
    rfl

theorem stands_neg (hc : 0 < c) {places : Nat}
    (h : Double.ofDecimal false c (-(places + 1 : Nat)) = .finite false m) :
    Stands ((padded c (places + 1)).take ((padded c (places + 1)).length - (places + 1)))
      ((padded c (places + 1)).drop ((padded c (places + 1)).length - (places + 1))) m := by
  have hlength := places_lt_length_padded c (places + 1)
  have hfraction : ((padded c (places + 1)).drop
      ((padded c (places + 1)).length - (places + 1))).length = places + 1 := by
    rw [List.length_drop]
    omega
  refine ⟨isNumeral_take_padded hc _, ?_, ?_, fun negative => ?_⟩
  · exact List.ne_nil_of_length_pos (by omega)
  · exact fun d hd => isDigit_padded c _ d (List.mem_of_mem_drop hd)
  · have hread : Decimal.read (padded c (places + 1)) = c := by
      rw [padded, Decimal.read_zeros_append, Decimal.read_numeral]
    rw [List.take_append_drop, hread, hfraction]
    exact Double.ofDecimal_negative h negative

end Positional

/-- **The text of a magnitude is a numeral, a point and digits that stand for it.** -/
theorem exists_point (m : Magnitude) :
    ∃ whole fraction, pointed m = whole ++ '.' :: fraction ∧ Stands whole fraction m := by
  by_cases hm : m = .zero
  · subst hm
    exact ⟨['0'], ['0'], rfl, stands_zero⟩
  · have htext : Double.magnitudeText m = Double.positional m.shortest.1 m.shortest.2 := if_neg hm
    have hback : Double.ofDecimal false m.shortest.1 m.shortest.2 = .finite false m :=
      of_decide_eq_true m.readBack_shortest
    generalize m.shortest.1 = c, m.shortest.2 = k at htext hback
    have hc : 0 < c := by
      rcases Nat.eq_zero_or_pos c with rfl | hpos
      · rw [Double.ofDecimal, if_pos (Or.inl rfl)] at hback
        cases hback
        exact absurd rfl hm
      · exact hpos
    rw [pointed, htext]
    rcases k with k | places
    · have hstands : Stands (Double.positional c k) ['0'] m := stands_natCast hc hback
      have hpoint : '.' ∉ Double.positional c k := point_not_mem hstands.numeral.digit
      exact ⟨Double.positional c k, ['0'], by simp [hpoint], hstands⟩
    · have hneg : Int.negSucc places = -((places + 1 : Nat) : Int) := rfl
      rw [hneg] at hback ⊢
      refine ⟨_, _, ?_, stands_neg hc hback⟩
      rw [positional_neg]
      simp

/-! ### Reading -/

theorem fraction?_append {ds rest : List Char} (hne : ds ≠ [])
    (hds : ∀ c ∈ ds, Decimal.isDigit c = true) (hrest : Stops rest) :
    fraction? ('.' :: (ds ++ rest)) = some (some ds, rest) := by
  rw [fraction?, digits_append hne hds hrest]
  rfl

theorem sign_append (negative : Bool) {c : Char} (hc : Decimal.isDigit c = true) (s : List Char) :
    sign (Double.sign negative ++ c :: s) = (negative, c :: s) := by
  cases negative with
  | true => rfl
  | false => exact sign_digit hc s

theorem number_point {whole fraction : List Char} {m : Magnitude} (h : Stands whole fraction m)
    (negative : Bool) (r : List Char) :
    number (Double.sign negative ++ (whole ++ '.' :: (fraction ++ '\n' :: r))) =
      some (.number (.finite negative m), '\n' :: r) := by
  have hpoint : Stops ('.' :: (fraction ++ '\n' :: r)) := by
    rintro c ⟨⟩
    decide
  have hline : Stops ('\n' :: r) := by
    rintro c ⟨⟩
    decide
  have hnumeral := numeral_append h.numeral hpoint
  have hfraction := fraction?_append h.nonempty h.digit hline
  have hmagnitude : magnitude negative whole fraction 0 = some (.finite negative m) := by
    rw [magnitude, Int.zero_sub, h.value negative]
    rfl
  obtain ⟨c, cs, rfl, hc⟩ := h.numeral.exists_cons
  rw [List.cons_append] at hnumeral ⊢
  rw [number, sign_append negative hc]
  simp only [special_digit hc, hnumeral, hfraction, exponent?]
  simp [hmagnitude]

theorem moment_point {whole : List Char} (h : IsNumeral whole) (negative : Bool)
    (rest : List Char) : moment (Double.sign negative ++ (whole ++ '.' :: rest)) = none := by
  cases negative with
  | true => exact moment_other (by decide) _
  | false =>
    have hpoint : ∀ c, ('.' :: rest).head? = some c → Decimal.isDigit c = false := by
      rintro c ⟨⟩
      decide
    have hdigits := moment_digits h.digit hpoint (by simp) (by simp)
    exact hdigits

/-- **A floating-point number is read back that is on a line of its own.** -/
theorem value_double (x : Double) (depth : Nat) (r : List Char) :
    value depth (doubleText x ++ '\n' :: r) = some (.number x, '\n' :: r) := by
  cases x with
  | nan =>
    exact (value_other (by decide) depth _).trans (by rw [moment_other (by decide)]; rfl)
  | infinite negative =>
    cases negative <;>
      exact (value_other (by decide) depth _).trans (by rw [moment_other (by decide)]; rfl)
  | finite negative m =>
    obtain ⟨whole, fraction, htext, hstands⟩ := exists_point m
    have hwritten : doubleText (.finite negative m) ++ '\n' :: r =
        Double.sign negative ++ (whole ++ '.' :: (fraction ++ '\n' :: r)) := by
      have hpointed : doubleText (.finite negative m) = Double.sign negative ++ pointed m := by
        rw [doubleText, pointed, List.append_assoc]
      rw [hpointed, htext]
      simp
    have hfirst : ∃ c cs, Double.sign negative ++ (whole ++ '.' :: (fraction ++ '\n' :: r)) =
        c :: cs ∧ c ∉ ['t', 'f', '"', '\'', '[', '\x7b'] := by
      cases negative with
      | true => exact ⟨'-', _, rfl, by decide⟩
      | false =>
        obtain ⟨c, cs, rfl, hc⟩ := hstands.numeral.exists_cons
        exact ⟨c, _, rfl, isDigit_not_mem hc rfl⟩
    obtain ⟨c, cs, hcons, hc⟩ := hfirst
    have hvalue := value_other hc depth cs
    rw [← hcons, moment_point hstands.numeral, number_point hstands] at hvalue
    rw [hwritten]
    exact hvalue

end Toml

end Floodgate
