import Floodgate.Toml.Quoted
import Mathlib.Tactic.SplitIfs

/-! # Quoted texts are read back

Whatever way a text is quoted, reading it gives the text again (`quoted?_quote`), if no quote stands
behind it. A text on one line is followed character by character. In a text over several lines the
quotes that stand in a row are read together, so the induction carries the quotes that have been
seen and not yet read (`basicLines_chars`, `literalLines_text`); in front of everything else such a
run stands for itself (`read_run`). -/

namespace Floodgate.Toml

/-! ### Characters -/

theorem isPlain_iff (c : Char) : isPlain c = true ↔ c = '\t' ∨ ' ' ≤ c ∧ c ≠ '\x7f' := by
  simp [isPlain]

theorem isPlain_of_isCode {c : Char} (hcode : isCode c = false) (hline : c ≠ '\n') :
    isPlain c = true := by
  rw [isPlain_iff]
  by_cases htab : c = '\t'
  · exact Or.inl htab
  · simp [isCode, htab, hline] at hcode
    exact Or.inr hcode

theorem hexValue?_code : ∀ n < 128,
    hexValue? ['0', '0', hexChar (n / 16), hexChar (n % 16)] = some n := by
  decide +kernel

theorem toNat_lt_of_isCode {c : Char} (h : isCode c = true) : c.toNat < 128 := by
  simp only [isCode, Bool.or_eq_true, Bool.and_eq_true, decide_eq_true_eq] at h
  rcases h with ⟨⟨hlow, -⟩, -⟩ | rfl
  · have hlt : c.toNat < ' '.toNat := hlow
    exact Nat.lt_trans hlt (by decide)
  · decide

theorem escape?_code {c : Char} (h : isCode c = true) (r : List Char) :
    escape? (['u', '0', '0', hexChar (c.toNat / 16), hexChar (c.toNat % 16)] ++ r) =
      some (c, r) := by
  have hlt : c.toNat < 128 := toNat_lt_of_isCode h
  have hvalue := hexValue?_code c.toNat hlt
  have hvalid : c.toNat.isValidChar := c.valid
  simp [escape?, scalar?, hvalue, hvalid]

/-! ### Texts on one line -/

theorem basicChar_cases (lines : Bool) (before quotes : Nat) (c : Char) :
    (basicChar lines before quotes c = [c] ∧ c ≠ '\\' ∧
        (c = '"' ∧ before < quotes ∨ c = '\n' ∧ lines = true ∨
          c ≠ '"' ∧ c ≠ '\n' ∧ c ≠ '\r' ∧ isPlain c = true)) ∨
      ∃ x e, basicChar lines before quotes c = '\\' :: x :: e ∧
        x ∈ ['b', 't', 'n', 'f', 'r', '\\', '"', 'u'] ∧ ¬ (c = '"' ∧ before < quotes) ∧
        ∀ r, escape? (x :: e ++ r) = some (c, r) := by
  have hescape : ∀ x, c ≠ '"' → x ∈ ['b', 't', 'n', 'f', 'r', '\\', '"', 'u'] →
      (∀ r, escape? (x :: r) = some (c, r)) →
      ∃ y e, ['\\', x] = '\\' :: y :: e ∧
        y ∈ ['b', 't', 'n', 'f', 'r', '\\', '"', 'u'] ∧ ¬ (c = '"' ∧ before < quotes) ∧
        ∀ r, escape? (y :: e ++ r) = some (c, r) :=
    fun x hc hx hr => ⟨x, [], rfl, hx, fun h => hc h.1, hr⟩
  generalize htext : basicChar lines before quotes c = text
  unfold basicChar at htext
  split_ifs at htext with hb ht hn hlines hf hr hs hq hbefore hcode <;> subst htext
  · exact Or.inr (hescape 'b' (by simp [hb]) (by simp) (fun _ => by rw [hb]; rfl))
  · exact Or.inr (hescape 't' (by simp [ht]) (by simp) (fun _ => by rw [ht]; rfl))
  · exact Or.inl ⟨by rw [hn], by simp [hn], by simp [hn, hlines]⟩
  · exact Or.inr (hescape 'n' (by simp [hn]) (by simp) (fun _ => by rw [hn]; rfl))
  · exact Or.inr (hescape 'f' (by simp [hf]) (by simp) (fun _ => by rw [hf]; rfl))
  · exact Or.inr (hescape 'r' (by simp [hr]) (by simp) (fun _ => by rw [hr]; rfl))
  · exact Or.inr (hescape '\\' (by simp [hs]) (by simp) (fun _ => by rw [hs]; rfl))
  · exact Or.inl ⟨by rw [hq], hs, Or.inl ⟨hq, hbefore⟩⟩
  · exact Or.inr ⟨'"', [], rfl, by simp, fun h => hbefore h.2, fun _ => by rw [hq]; rfl⟩
  · exact Or.inr ⟨'u', _, rfl, by simp, fun h => hq h.1, escape?_code hcode⟩
  · have hplain := isPlain_of_isCode (Bool.eq_false_iff.mpr hcode) hn
    exact Or.inl ⟨rfl, hs, Or.inr (Or.inr ⟨hq, hn, hr, hplain⟩)⟩

theorem basic_plain {c : Char} (hq : c ≠ '"') (hs : c ≠ '\\') (hc : isPlain c = true)
    (r : List Char) : basic (c :: r) = (basic r).map fun t => (c :: t.1, t.2) := by
  rw [basic.eq_4 c r hq hs, if_pos hc]

theorem basic_escape {r r' : List Char} {c : Char} (h : escape? r = some (c, r')) :
    basic ('\\' :: r) = (basic r').map fun t => (c :: t.1, t.2) := by
  rw [basic.eq_3]
  split
  · rename_i hnone
    rw [hnone] at h
    cases h
  · rename_i hsome
    rw [hsome] at h
    cases h
    rfl

/-- **A basic text on one line reads back.** -/
theorem basic_chars (s rest : List Char) :
    basic (basicChars false 0 0 s ++ '"' :: rest) = some (s, rest) := by
  induction s with
  | nil => simp [basicChars, basic]
  | cons c cs ih =>
    have hnext : (if c = '"' ∧ 0 < 0 then 0 + 1 else 0) = 0 := by simp
    rw [basicChars, hnext, List.append_assoc]
    rcases basicChar_cases false 0 0 c with ⟨hself, hs, hc⟩ | ⟨x, e, hesc, -, -, hr⟩
    · have hplain : c ≠ '"' ∧ isPlain c = true := by
        rcases hc with ⟨-, hlt⟩ | ⟨-, hlines⟩ | ⟨hq, -, -, hplain⟩
        · exact absurd hlt (by simp)
        · cases hlines
        · exact ⟨hq, hplain⟩
      rw [hself, List.singleton_append, basic_plain hplain.1 hs hplain.2, ih]
      rfl
    · rw [hesc, List.cons_append, basic_escape (hr _), ih]
      rfl

/-- **A literal text on one line reads back**, if all its characters are plain. -/
theorem literal_text {s : List Char} (h : ∀ c ∈ s, c ≠ '\'' ∧ isPlain c = true)
    (rest : List Char) : literal (s ++ '\'' :: rest) = some (s, rest) := by
  induction s with
  | nil => rfl
  | cons c cs ih =>
    obtain ⟨⟨hq, hplain⟩, hcs⟩ := List.forall_mem_cons.mp h
    rw [List.cons_append, literal.eq_3 c _ hq, if_pos hplain, ih hcs]
    rfl

/-! ### Runs of quotes -/

theorem run_replicate (q : Char) (n : Nat) {t : List Char} (h : t.head? ≠ some q) :
    run q (List.replicate n q ++ t) = n := by
  unfold run
  induction n with
  | zero =>
    cases t with
    | nil => rfl
    | cons c cs =>
      have hc : c ≠ q := fun hc => h (by rw [hc]; rfl)
      simp [hc]
  | succ n ih =>
    rw [List.replicate_succ, List.cons_append, List.takeWhile_cons_of_pos (by simp),
      List.length_cons, ih]

theorem drop_replicate (q : Char) (n : Nat) (t : List Char) :
    (List.replicate n q ++ t).drop n = t := by
  rw [List.drop_append_of_le_length (by simp), List.drop_of_length_le (by simp), List.nil_append]

theorem replicate_append_cons (q : Char) (n : Nat) (t : List Char) :
    List.replicate n q ++ q :: t = List.replicate (n + 1) q ++ t := by
  rw [List.replicate_succ', List.append_assoc, List.singleton_append]

/-- What a reader of texts over several lines does at a quote. -/
def atQuote (q : Char) (read : Reader (List Char)) (r : List Char) :
    Option (List Char × List Char) :=
  let n := run q r + 1
  if n < 3 then (read (r.drop (n - 1))).map fun t => (List.replicate n q ++ t.1, t.2)
  else (closing? q n).map fun t => (t, r.drop (n - 1))

variable {q : Char} {read : Reader (List Char)} {n : Nat} {t u rest : List Char}

/-- Fewer than three quotes in a text over several lines stand for themselves. -/
theorem read_run (hread : ∀ r, read (q :: r) = atQuote q read r) (hn : n ≤ 2)
    (ht : t.head? ≠ some q) (h : read t = some (u, rest)) :
    read (List.replicate n q ++ t) = some (List.replicate n q ++ u, rest) := by
  cases n with
  | zero => exact h
  | succ n =>
    have hrun : run q (List.replicate n q ++ t) + 1 = n + 1 := by rw [run_replicate q n ht]
    rw [List.replicate_succ, List.cons_append, hread, atQuote]
    simp only [hrun]
    rw [if_pos (by omega), Nat.add_sub_cancel, drop_replicate, h]
    rfl

/-- Three quotes close a text over several lines, and up to two before them stand for
themselves. -/
theorem read_close (hread : ∀ r, read (q :: r) = atQuote q read r) (hn : n ≤ 2)
    (hrest : rest.head? ≠ some q) :
    read (List.replicate n q ++ (triple q ++ rest)) = some (List.replicate n q, rest) := by
  have hquotes : List.replicate n q ++ (triple q ++ rest) =
      q :: (List.replicate (n + 2) q ++ rest) := by
    rw [triple, ← List.append_assoc, List.replicate_append_replicate]
    rfl
  have hrun : run q (List.replicate (n + 2) q ++ rest) + 1 = n + 3 := by
    rw [run_replicate q (n + 2) hrest]
  have hclosing : closing? q (n + 3) = some (List.replicate n q) := by
    rw [closing?, if_pos (by omega), Nat.add_sub_cancel]
  have hlast : n + 3 - 1 = n + 2 := by omega
  rw [hquotes, hread, atQuote]
  simp only [hrun]
  rw [if_neg (by omega), hclosing, hlast, drop_replicate]
  rfl

/-! ### Texts over several lines -/

theorem basicLines_plain {c : Char} (hq : c ≠ '"') (hs : c ≠ '\\') (hn : c ≠ '\n')
    (hr : c ≠ '\r') (hc : isPlain c = true) (r : List Char) :
    basicLines (c :: r) = (basicLines r).map fun t => (c :: t.1, t.2) := by
  rw [basicLines.eq_6 c r hq hs hn (fun _ h => absurd h hr), if_pos hc]

theorem continued?_escape {x : Char} (hx : x ∈ ['b', 't', 'n', 'f', 'r', '\\', '"', 'u'])
    (r : List Char) : continued? (x :: r) = none := by
  simp only [List.mem_cons, List.not_mem_nil, or_false] at hx
  rcases hx with rfl | rfl | rfl | rfl | rfl | rfl | rfl | rfl <;> rfl

theorem basicLines_escape {x c : Char} {r r' : List Char}
    (hx : x ∈ ['b', 't', 'n', 'f', 'r', '\\', '"', 'u']) (h : escape? (x :: r) = some (c, r')) :
    basicLines ('\\' :: x :: r) = (basicLines r').map fun t => (c :: t.1, t.2) := by
  have hcontinued := continued?_escape hx r
  rw [basicLines.eq_3]
  split
  · rename_i hsome
    rw [hcontinued] at hsome
    cases hsome
  · split
    · rename_i hnone
      rw [h] at hnone
      cases hnone
    · rename_i hsome
      rw [h] at hsome
      cases hsome
      rfl

/-- **A basic text over several lines reads back**, with the quotes that have been seen before it
and not been read yet. -/
theorem basicLines_chars {b : Nat} (hb : b ≤ 2) (s : List Char) {rest : List Char}
    (hrest : rest.head? ≠ some '"') :
    basicLines (List.replicate b '"' ++ (basicChars true 2 b s ++ (triple '"' ++ rest))) =
      some (List.replicate b '"' ++ s, rest) := by
  induction s generalizing b with
  | nil =>
    rw [basicChars, List.nil_append, List.append_nil]
    exact read_close basicLines.eq_2 hb hrest
  | cons c cs ih =>
    by_cases hquote : c = '"' ∧ b < 2
    · -- one more quote that waits to be read
      obtain ⟨rfl, hlt⟩ := hquote
      have hself : basicChar true b 2 '"' = ['"'] := by simp [basicChar, hlt]
      rw [basicChars, hself, if_pos ⟨rfl, hlt⟩, List.append_assoc, List.singleton_append,
        replicate_append_cons, replicate_append_cons]
      exact ih (by omega)
    · have hnone := ih (Nat.zero_le 2)
      rw [List.replicate_zero, List.nil_append, List.nil_append] at hnone
      rw [basicChars, if_neg hquote, List.append_assoc]
      rcases basicChar_cases true b 2 c with ⟨hself, hs, hc⟩ | ⟨x, e, hesc, hx, -, hr⟩
      · rw [hself, List.singleton_append]
        have hread : basicLines (c :: (basicChars true 2 0 cs ++ (triple '"' ++ rest))) =
            some (c :: cs, rest) := by
          rcases hc with hc | ⟨rfl, -⟩ | ⟨hq, hn, hr, hplain⟩
          · exact absurd hc hquote
          · rw [basicLines.eq_4, hnone]
            rfl
          · rw [basicLines_plain hq hs hn hr hplain, hnone]
            rfl
        refine read_run basicLines.eq_2 hb ?_ hread
        rcases hc with hc | ⟨rfl, -⟩ | ⟨hq, -⟩
        · exact absurd hc hquote
        · simp
        · simpa using hq
      · have hread := basicLines_escape hx (hr (basicChars true 2 0 cs ++ (triple '"' ++ rest)))
        rw [hnone] at hread
        rw [hesc]
        exact read_run basicLines.eq_2 hb (by simp) hread

/-! ### Literal texts over several lines -/

theorem run_cons_self (q : Char) (s : List Char) : run q (q :: s) = run q s + 1 := by
  simp [run]

theorem run_le_longestRun (q : Char) (s : List Char) : run q s ≤ longestRun q s := by
  cases s with
  | nil => exact Nat.zero_le 0
  | cons c cs => exact Nat.le_max_left _ _

/-- **A literal text over several lines reads back**, if it has no control characters and no more
than two quotes in a row, those before it that have not been read yet included. -/
theorem literalLines_text {b : Nat} {s : List Char} (hb : b + run '\'' s ≤ 2)
    (hlong : longestRun '\'' s ≤ 2) (hcode : ∀ c ∈ s, isCode c = false) {rest : List Char}
    (hrest : rest.head? ≠ some '\'') :
    literalLines (List.replicate b '\'' ++ (s ++ (triple '\'' ++ rest))) =
      some (List.replicate b '\'' ++ s, rest) := by
  induction s generalizing b with
  | nil =>
    rw [List.nil_append, List.append_nil]
    exact read_close literalLines.eq_2 (by omega) hrest
  | cons c cs ih =>
    obtain ⟨hc, hcs⟩ := List.forall_mem_cons.mp hcode
    have hlong' : longestRun '\'' cs ≤ 2 := by
      rw [longestRun] at hlong
      omega
    by_cases hq : c = '\''
    · subst hq
      rw [run_cons_self] at hb
      rw [List.cons_append, replicate_append_cons, replicate_append_cons]
      exact ih (by omega) hlong' hcs
    · have hrun := run_le_longestRun '\'' cs
      have hnone := ih (b := 0) (by omega) hlong' hcs
      rw [List.replicate_zero, List.nil_append, List.nil_append] at hnone
      refine read_run literalLines.eq_2 (by omega) (by simpa using hq) ?_
      rw [List.cons_append]
      by_cases hn : c = '\n'
      · subst hn
        rw [literalLines.eq_3, hnone]
        rfl
      · have hr : c ≠ '\r' := by
          rintro rfl
          cases hc
        have hplain := isPlain_of_isCode hc hn
        rw [literalLines.eq_5 c _ hq hn (fun _ h => absurd h hr), if_pos hplain, hnone]
        rfl

/-! ### The way of quoting -/

theorem of_eq_literal {s : List Char} (h : Quoting.of s = .literal) :
    ∀ c ∈ s, c ≠ '\'' ∧ isPlain c = true := by
  simp only [Quoting.of] at h
  split_ifs at h with h1 h2
  simp only [Bool.and_eq_true, Bool.not_eq_true', List.any_eq_false, List.contains_eq_mem,
    decide_eq_false_iff_not] at h2
  obtain ⟨⟨hcode, hline⟩, hquote⟩ := h2
  intro c hc
  have hn : c ≠ '\n' := fun hn => hline (hn ▸ hc)
  have hplain := isPlain_of_isCode (Bool.eq_false_iff.mpr (hcode c hc)) hn
  exact ⟨fun hq => hquote (hq ▸ hc), hplain⟩

theorem of_eq_literalLines {s : List Char} (h : Quoting.of s = .literalLines) :
    longestRun '\'' s ≤ 2 ∧ ∀ c ∈ s, isCode c = false := by
  simp only [Quoting.of] at h
  split_ifs at h with h1 h2 h3 h4
  simp only [Bool.and_eq_true, Bool.not_eq_true', List.any_eq_false, decide_eq_true_eq] at h4
  obtain ⟨hcode, hlong⟩ := h4
  exact ⟨hlong, fun c hc => Bool.eq_false_iff.mpr (hcode c hc)⟩

theorem trimFirst_eq {t : List Char} (hn : t.head? ≠ some '\n') (hr : t.head? ≠ some '\r') :
    trimFirst t = t := by
  have hnone : newline? t = none := by
    unfold newline?
    split
    · exact absurd rfl hn
    · exact absurd rfl hr
    · rfl
  rw [trimFirst, hnone]
  rfl

theorem trimFirst_opening {s t : List Char} (hr : t.head? ≠ some '\r')
    (hn : '\n' ∉ s → t.head? ≠ some '\n') : trimFirst (opening s ++ t) = t := by
  unfold opening
  split_ifs with hline
  · rfl
  · have hline' : '\n' ∉ s := by simpa using hline
    exact trimFirst_eq (hn hline') hr

theorem head?_basicChars (lines : Bool) (quotes : Nat) (c : Char) (cs rest : List Char) :
    (basicChars lines quotes 0 (c :: cs) ++ rest).head? = some '\\' ∨
      (basicChars lines quotes 0 (c :: cs) ++ rest).head? = some c ∧
        (c = '"' ∧ 0 < quotes ∨ c = '\n' ∧ lines = true ∨ c ≠ '"' ∧ c ≠ '\n' ∧ c ≠ '\r') := by
  rw [basicChars, List.append_assoc]
  rcases basicChar_cases lines 0 quotes c with ⟨hself, -, hc⟩ | ⟨x, e, hesc, -⟩
  · refine Or.inr ⟨by rw [hself]; rfl, ?_⟩
    rcases hc with hc | hc | ⟨hq, hn, hr, -⟩
    · exact Or.inl hc
    · exact Or.inr (Or.inl hc)
    · exact Or.inr (Or.inr ⟨hq, hn, hr⟩)
  · exact Or.inl (by rw [hesc]; rfl)

theorem trimFirst_basicChars (s rest : List Char) :
    trimFirst (opening s ++ (basicChars true quotesInLines 0 s ++ '"' :: rest)) =
      basicChars true quotesInLines 0 s ++ '"' :: rest := by
  cases s with
  | nil => rfl
  | cons c cs =>
    rcases head?_basicChars true quotesInLines c cs ('"' :: rest) with hhead | ⟨hhead, hc⟩
    · exact trimFirst_opening (by simp [hhead]) (by simp [hhead])
    · refine trimFirst_opening ?_ fun hline => ?_
      · rw [hhead]
        rcases hc with ⟨rfl, -⟩ | ⟨rfl, -⟩ | ⟨-, -, hr⟩ <;> simp_all
      · have hn : c ≠ '\n' := fun hn => hline (hn ▸ List.mem_cons_self)
        rw [hhead]
        simpa using hn

/-- One quote opens a text on one line, unless two more follow. -/
theorem quoted?_basic {t : List Char} (h : t.head? ≠ some '"' ∨ t.tail.head? ≠ some '"') :
    quoted? ('"' :: t) = basic t := by
  unfold quoted?
  split
  · rename_i heq
    cases heq
    exact absurd h (by simp)
  · rename_i heq
    cases heq
  · rfl

theorem quoted?_literal {t : List Char} (h : t.head? ≠ some '\'' ∨ t.tail.head? ≠ some '\'') :
    quoted? ('\'' :: t) = literal t := by
  unfold quoted?
  split
  · rename_i heq
    cases heq
  · rename_i heq
    cases heq
    exact absurd h (by simp)
  · rfl

/-- **A quoted text reads back**, in whatever way it is quoted. -/
theorem quoted?_quote (s : List Char) {rest : List Char} (hdouble : rest.head? ≠ some '"')
    (hsingle : rest.head? ≠ some '\'') : quoted? (quote s ++ rest) = some (s, rest) := by
  unfold quote
  rcases hway : Quoting.of s with _ | _ | _ | _
  · have htext : quoted? ('"' :: (basicChars false 0 0 s ++ '"' :: rest)) = some (s, rest) := by
      rw [quoted?_basic, basic_chars]
      cases s with
      | nil => exact Or.inr hdouble
      | cons c cs =>
        refine Or.inl ?_
        rcases head?_basicChars false 0 c cs ('"' :: rest) with hhead | ⟨hhead, hc⟩
        · simp [hhead]
        · have hq : c ≠ '"' := by simp_all
          rw [hhead]
          simpa using hq
    simpa using htext
  · have hplain := of_eq_literal hway
    have htext : quoted? ('\'' :: (s ++ '\'' :: rest)) = some (s, rest) := by
      rw [quoted?_literal, literal_text hplain]
      cases s with
      | nil => exact Or.inr hsingle
      | cons c cs => exact Or.inl (by simpa using (hplain c List.mem_cons_self).1)
    simpa using htext
  · have hchars := basicLines_chars (Nat.zero_le 2) s hdouble
    rw [List.replicate_zero, List.nil_append, List.nil_append] at hchars
    have htrim := trimFirst_basicChars s ('"' :: '"' :: rest)
    have htext : basicLines (trimFirst (opening s ++ (basicChars true quotesInLines 0 s ++
        (triple '"' ++ rest)))) = some (s, rest) := (congrArg basicLines htrim).trans hchars
    simpa [triple, quoted?] using htext
  · obtain ⟨hlong, hcode⟩ := of_eq_literalLines hway
    have hrun := run_le_longestRun '\'' s
    have hread := literalLines_text (b := 0) (by omega) hlong hcode hsingle
    rw [List.replicate_zero, List.nil_append, List.nil_append] at hread
    have htrim : trimFirst (opening s ++ (s ++ (triple '\'' ++ rest))) =
        s ++ (triple '\'' ++ rest) := by
      cases s with
      | nil => rfl
      | cons c cs =>
        have hc : c ≠ '\r' := by
          rintro rfl
          cases hcode '\r' List.mem_cons_self
        refine trimFirst_opening (by simpa using hc) fun hline => ?_
        have hn : c ≠ '\n' := fun hn => hline (hn ▸ List.mem_cons_self)
        simpa using hn
    have htext : literalLines (trimFirst (opening s ++ (s ++ (triple '\'' ++ rest)))) =
        some (s, rest) := (congrArg literalLines htrim).trans hread
    simpa [triple, quoted?] using htext

end Floodgate.Toml
