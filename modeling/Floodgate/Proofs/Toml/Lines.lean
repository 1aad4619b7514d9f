import Floodgate.Proofs.Toml.Fraction
import Floodgate.Proofs.Toml.Quoted

/-! # Statements are read back

What is written is a line for each statement, after an empty one for a header. A line is read back
up to its end, whatever follows (`statement_line`): first the names of its path, which no quotes
need (`key_append`), then the value, of one of the kinds that are written (`Written`). So the lines
are read back one after the other (`statements_write`). -/

namespace Floodgate.Toml

/-! ### Values -/

/-- The values that are written. -/
inductive Written : Document → Prop
  | boolean (b : Bool) : Written (.boolean b)
  | integer {n : Nat} (h : isWritable (.integer n) = true) : Written (.integer n)
  | number (x : Double) : Written (.number x)
  | string (s : String) : Written (.string s)
  | none : Written (.sequence [])

theorem value_boolean (b : Bool) (depth : Nat) (r : List Char) :
    value depth (booleanText b ++ r) = some (.boolean b, r) := by
  cases depth <;> cases b <;> rfl

theorem exists_quote (s : List Char) :
    ∃ q cs, quote s = q :: cs ∧ (q = '"' ∨ q = '\'') := by
  unfold quote
  split
  · exact ⟨'"', _, rfl, Or.inl rfl⟩
  · exact ⟨'\'', _, rfl, Or.inr rfl⟩
  · exact ⟨'"', _, rfl, Or.inl rfl⟩
  · exact ⟨'\'', _, rfl, Or.inr rfl⟩

theorem value_quote {q : Char} (hq : q = '"' ∨ q = '\'') (depth : Nat) (s : List Char) :
    value depth (q :: s) =
      (quoted? (q :: s)).map fun t => (.string (String.ofList t.1), t.2) := by
  rcases hq with rfl | rfl <;> cases depth <;> rfl

theorem value_string (s : String) (depth : Nat) (r : List Char) :
    value depth (quote s.toList ++ '\n' :: r) = some (.string s, '\n' :: r) := by
  obtain ⟨q, cs, hcons, hq⟩ := exists_quote s.toList
  have hread : quoted? (quote s.toList ++ '\n' :: r) = some (s.toList, '\n' :: r) :=
    quoted?_quote _ (by simp) (by simp)
  rw [hcons, List.cons_append] at hread ⊢
  rw [value_quote hq, hread, Option.map_some, String.ofList_toList]

theorem skipLines_cons {c : Char} (hc : c ∉ [' ', '\t', '#', '\n', '\r']) (s : List Char) :
    skipLines (c :: s) = c :: s := by
  have hne : ∀ d ∈ [' ', '\t', '#', '\n', '\r'], c ≠ d := fun d hd h => hc (h ▸ hd)
  have hblanks : skipBlanks (c :: s) = c :: s := by
    simp [skipBlanks, isBlank, hne ' ', hne '\t']
  have hcomment : skipComment (c :: s) = c :: s := skipComment.eq_2 _ fun t ht =>
    hne '#' (by simp) (List.cons.inj ht).1
  have hline : newline? (c :: s) = none := newline?.eq_3 _
    (fun t ht => hne '\n' (by simp) (List.cons.inj ht).1)
    (fun t ht => hne '\r' (by simp) (List.cons.inj ht).1)
  rw [skipLines, hblanks, hcomment]
  split
  · rfl
  · rename_i hsome
    rw [hline] at hsome
    cases hsome

theorem value_none (depth : Nat) (r : List Char) :
    value (depth + 1) ('[' :: ']' :: r) = some (.sequence [], r) := by
  rw [value, array, skipLines_cons (by decide)]
  rfl

/-- **A value is read back that is on a line of its own.** -/
theorem value_written {d : Document} (h : Written d) (depth : Nat) (r : List Char) :
    value (depth + 1) (valueText d ++ '\n' :: r) = some (d, '\n' :: r) := by
  cases h with
  | boolean b => exact value_boolean b _ _
  | integer h => exact value_integer h _ r
  | number x => exact value_double x _ r
  | string s => exact value_string s _ r
  | none => exact value_none depth _

/-! ### Paths -/

/-- A name that needs no quotes. -/
def IsName (n : String) : Prop := n.toList ≠ [] ∧ n.toList.all isBare = true

instance (n : String) : Decidable (IsName n) := inferInstanceAs (Decidable (_ ∧ _))

/-- A path of names that need no quotes, with fewer of them than the bound. -/
structure IsPath (ns : List String) : Prop where
  nonempty : ns ≠ []
  bare : ∀ n ∈ ns, IsName n
  short : ns.length < nestingBound

instance (ns : List String) : Decidable (IsPath ns) :=
  decidable_of_iff (ns ≠ [] ∧ (∀ n ∈ ns, IsName n) ∧ ns.length < nestingBound)
    ⟨fun h => ⟨h.1, h.2.1, h.2.2⟩, fun h => ⟨h.nonempty, h.bare, h.short⟩⟩

theorem skipBlanks_cons {c : Char} (hc : isBlank c = false) (s : List Char) :
    skipBlanks (c :: s) = c :: s := by
  rw [skipBlanks, List.dropWhile_cons_of_neg (by simp [hc])]

theorem isBare_ne {c : Char} (hc : isBare c = true) {d : Char} (hd : isBare d = false) : c ≠ d := by
  rintro rfl
  rw [hd] at hc
  cases hc

theorem isBlank_of_isBare {c : Char} (hc : isBare c = true) : isBlank c = false := by
  have hspace : c ≠ ' ' := isBare_ne hc (by decide)
  have htab : c ≠ '\t' := isBare_ne hc (by decide)
  simp [isBlank, hspace, htab]

theorem IsName.exists_cons {n : String} (h : IsName n) :
    ∃ c cs, n.toList = c :: cs ∧ isBare c = true := by
  obtain ⟨hne, hbare⟩ := h
  cases hcons : n.toList with
  | nil => exact absurd hcons hne
  | cons c cs =>
    have hmem : c ∈ n.toList := by
      rw [hcons]
      exact List.mem_cons_self
    exact ⟨c, cs, rfl, List.all_eq_true.mp hbare c hmem⟩

theorem name_append {n : String} (h : IsName n) {rest : List Char}
    (hrest : ∀ c, rest.head? = some c → isBare c = false) :
    name (n.toList ++ rest) = some (n.toList, rest) := by
  have hspan : (n.toList ++ rest).takeWhile isBare = n.toList ∧
      (n.toList ++ rest).dropWhile isBare = rest := by
    have hnone : rest.takeWhile isBare = [] ∧ rest.dropWhile isBare = rest := by
      cases rest with
      | nil => exact ⟨rfl, rfl⟩
      | cons c r => simp [hrest c rfl]
    have hbare : ∀ c ∈ n.toList, isBare c = true := List.all_eq_true.mp h.2
    rw [List.takeWhile_append_of_pos hbare, List.dropWhile_append_of_pos hbare, hnone.1, hnone.2]
    exact ⟨List.append_nil _, rfl⟩
  obtain ⟨c, cs, hcons, hc⟩ := h.exists_cons
  have hother : name (n.toList ++ rest) =
      if ((n.toList ++ rest).takeWhile isBare).isEmpty then none
      else some ((n.toList ++ rest).takeWhile isBare, (n.toList ++ rest).dropWhile isBare) := by
    rw [hcons]
    refine name.eq_3 _ (fun t ht => ?_) fun t ht => ?_
    · exact isBare_ne hc (d := '"') (by decide) (List.cons.inj ht).1
    · exact isBare_ne hc (d := '\'') (by decide) (List.cons.inj ht).1
  rw [hother, hspan.1, hspan.2, if_neg (by simpa using h.1)]

theorem pathText_singleton (n : String) : pathText [n] = n.toList := by simp [pathText]

theorem pathText_cons (n m : String) (ns : List String) :
    pathText (n :: m :: ns) = n.toList ++ '.' :: pathText (m :: ns) := by simp [pathText]

/-- Nothing that could belong to a path stands at the front of a text. -/
structure EndsPath (rest : List Char) : Prop where
  bare : ∀ c, rest.head? = some c → isBare c = false
  point : (skipBlanks rest).head? ≠ some '.'

theorem path_append {ns : List String} (hne : ns ≠ []) (hns : ∀ n ∈ ns, IsName n)
    {rest : List Char} (hrest : EndsPath rest) :
    path (pathText ns ++ rest) = some (ns, skipBlanks rest) := by
  induction ns with
  | nil => exact absurd rfl hne
  | cons n ns ih =>
    obtain ⟨hn, hns⟩ := List.forall_mem_cons.mp hns
    obtain ⟨c, cs, hcons, hc⟩ := hn.exists_cons
    have hfront : ∀ t, skipBlanks (n.toList ++ t) = n.toList ++ t := by
      intro t
      rw [hcons, List.cons_append, skipBlanks_cons (isBlank_of_isBare hc)]
    cases ns with
    | nil =>
      -- the last name: no point follows, and the blanks behind it are skipped
      rw [pathText_singleton, path, hfront, name_append hn hrest.bare]
      dsimp only
      split
      · rename_i hpoint
        exact absurd (by rw [hpoint]; rfl) hrest.point
      · rw [String.ofList_toList]
    | cons m ns =>
      have hpoint : ∀ c, ('.' :: (pathText (m :: ns) ++ rest)).head? = some c →
          isBare c = false := by
        rintro c ⟨⟩
        decide
      have hshorter : (pathText (m :: ns) ++ rest).length <
          (n.toList ++ '.' :: (pathText (m :: ns) ++ rest)).length := by
        simp only [List.length_append, List.length_cons]
        omega
      rw [pathText_cons, List.append_assoc, List.cons_append, path, hfront, name_append hn hpoint]
      dsimp only
      rw [skipBlanks_cons (by decide)]
      refine (if_pos hshorter).trans ?_
      rw [ih (List.cons_ne_nil _ _) hns, Option.map_some, String.ofList_toList]

theorem key_append {ns : List String} (h : IsPath ns) {rest : List Char} (hrest : EndsPath rest) :
    key (pathText ns ++ rest) = some (ns, skipBlanks rest) := by
  rw [key, path_append h.nonempty h.bare hrest, Option.bind_some, if_pos h.short]

theorem headerKey_append {ns : List String} (h : IsPath ns) (r : List Char) :
    headerKey (pathText ns ++ ']' :: r) = some (ns, r) := by
  have hbracket : EndsPath (']' :: r) := by
    refine ⟨?_, by rw [skipBlanks_cons (by decide)]; simp⟩
    rintro c ⟨⟩
    decide
  rw [headerKey, key_append h hbracket, skipBlanks_cons (by decide)]
  rfl

theorem IsPath.exists_cons {ns : List String} (h : IsPath ns) (t : List Char) :
    ∃ c cs, pathText ns ++ t = c :: cs ∧ isBare c = true := by
  cases hns : ns with
  | nil => exact absurd hns h.nonempty
  | cons n ns =>
    have hn : IsName n := h.bare n (by rw [hns]; exact List.mem_cons_self)
    obtain ⟨c, cs, hcons, hc⟩ := hn.exists_cons
    cases ns with
    | nil => exact ⟨c, cs ++ t, by rw [pathText_singleton, hcons]; rfl, hc⟩
    | cons m ns => exact ⟨c, _, by rw [pathText_cons, hcons]; rfl, hc⟩

/-! ### Statements -/

/-- The statements that are written. -/
inductive Statement.Written : Statement → Prop
  | assign {path : List String} {d : Document} (hpath : IsPath path) (hd : Toml.Written d) :
      Written (.assign path d)
  | header {path : List String} (hpath : IsPath path) : Written (.header path)
  | arrayHeader {path : List String} (hpath : IsPath path) : Written (.arrayHeader path)

/-- The text of a statement without the empty line in front and without the end of its line. -/
def Statement.line : Statement → List Char
  | .assign path d => pathText path ++ ([' ', '=', ' '] ++ valueText d)
  | .header path => '[' :: (pathText path ++ [']'])
  | .arrayHeader path => '[' :: '[' :: (pathText path ++ [']', ']'])

theorem exists_valueText {d : Document} (h : Written d) :
    ∃ c cs, valueText d = c :: cs ∧ isBlank c = false := by
  cases h with
  | boolean b => cases b <;> exact ⟨_, _, rfl, by decide⟩
  | @integer n h =>
    obtain ⟨c, cs, hcons, hc⟩ := (isNumeral_numeral n).exists_cons
    refine ⟨c, cs, hcons, ?_⟩
    have hbare : isBare c = true := by simp [isBare, hc]
    exact isBlank_of_isBare hbare
  | number x =>
    cases x with
    | nan => exact ⟨_, _, rfl, by decide⟩
    | infinite negative => cases negative <;> exact ⟨_, _, rfl, by decide⟩
    | finite negative m =>
      obtain ⟨whole, fraction, htext, hstands⟩ := exists_point m
      obtain ⟨c, cs, rfl, hc⟩ := hstands.numeral.exists_cons
      have hbare : isBare c = true := by simp [isBare, hc]
      cases negative with
      | true => exact ⟨'-', _, rfl, by decide⟩
      | false => exact ⟨c, _, htext, isBlank_of_isBare hbare⟩
  | string s =>
    obtain ⟨q, cs, hcons, rfl | rfl⟩ := exists_quote s.toList
    · exact ⟨_, cs, hcons, by decide⟩
    · exact ⟨_, cs, hcons, by decide⟩
  | none => exact ⟨_, _, rfl, by decide⟩

/-- **A statement is read back up to the end of its line.** -/
theorem statement_line {st : Statement} (h : st.Written) (r : List Char) :
    statement (st.line ++ '\n' :: r) = some (st, '\n' :: r) := by
  cases h with
  | @assign path d hpath hd =>
    have hequals : EndsPath (' ' :: '=' :: ' ' :: (valueText d ++ '\n' :: r)) := by
      refine ⟨?_, by simp [skipBlanks, isBlank]⟩
      rintro c ⟨⟩
      decide
    have hkey := key_append hpath hequals
    have hskip : skipBlanks (' ' :: '=' :: ' ' :: (valueText d ++ '\n' :: r)) =
        '=' :: ' ' :: (valueText d ++ '\n' :: r) := by simp [skipBlanks, isBlank]
    have hvalueSkip : skipBlanks (' ' :: (valueText d ++ '\n' :: r)) =
        valueText d ++ '\n' :: r := by
      obtain ⟨c, cs, hcons, hc⟩ := exists_valueText hd
      rw [hcons, List.cons_append, skipBlanks, List.dropWhile_cons_of_pos (by decide)]
      exact skipBlanks_cons hc _
    have hbinding : binding (value (nestingBound - 1))
        (pathText path ++ ' ' :: '=' :: ' ' :: (valueText d ++ '\n' :: r)) =
          some ((path, d), '\n' :: r) := by
      rw [binding, hkey, hskip]
      show (value (nestingBound - 1) (skipBlanks _)).map _ = _
      rw [hvalueSkip, nestingBound, value_written hd, Option.map_some, skipBlanks_cons (by decide)]
    -- a bare name comes first, so the line is taken for no header
    obtain ⟨c, cs, hcons, hc⟩ := hpath.exists_cons (' ' :: '=' :: ' ' :: (valueText d ++ '\n' :: r))
    have hbracket : c ≠ '[' := isBare_ne hc (by decide)
    have hline : Statement.line (.assign path d) ++ '\n' :: r = c :: cs := by
      rw [← hcons, Statement.line]
      simp
    rw [hline, statement.eq_3 _ (fun t ht => hbracket (List.cons.inj ht).1)
      (fun t ht => hbracket (List.cons.inj ht).1), ← hcons, hbinding]
    rfl
  | @header path hpath =>
    obtain ⟨c, cs, hcons, hc⟩ := hpath.exists_cons (']' :: '\n' :: r)
    have hbracket : c ≠ '[' := isBare_ne hc (by decide)
    have hline : Statement.line (.header path) ++ '\n' :: r = '[' :: c :: cs := by
      rw [← hcons, Statement.line]
      simp
    rw [hline, statement.eq_2 _ (fun t ht => hbracket (List.cons.inj ht).1), ← hcons,
      headerKey_append hpath]
    rfl
  | @arrayHeader path hpath =>
    have hline : Statement.line (.arrayHeader path) ++ '\n' :: r =
        '[' :: '[' :: (pathText path ++ ']' :: ']' :: '\n' :: r) := by
      rw [Statement.line]
      simp
    rw [hline, statement, headerKey_append hpath]
    rfl

theorem exists_line {st : Statement} (h : st.Written) :
    ∃ c cs, st.line = c :: cs ∧ (isBare c = true ∨ c = '[') := by
  cases h with
  | assign hpath hd =>
    obtain ⟨c, cs, hcons, hc⟩ := hpath.exists_cons ([' ', '=', ' '] ++ valueText _)
    exact ⟨c, cs, hcons, Or.inl hc⟩
  | header hpath => exact ⟨_, _, rfl, Or.inr rfl⟩
  | arrayHeader hpath => exact ⟨_, _, rfl, Or.inr rfl⟩

theorem skipLines_text {st : Statement} (h : st.Written) (r : List Char) :
    skipLines (st.text ++ r) = st.line ++ '\n' :: r := by
  obtain ⟨c, cs, hcons, hc⟩ := exists_line h
  have hfirst : c ∉ [' ', '\t', '#', '\n', '\r'] := by
    rcases hc with hc | rfl
    · intro hmem
      have hnone : ([' ', '\t', '#', '\n', '\r'].all fun d => !isBare d) = true := rfl
      have hnot := List.all_eq_true.mp hnone c hmem
      rw [hc] at hnot
      cases hnot
    · decide
  have hskip : skipLines (st.line ++ '\n' :: r) = st.line ++ '\n' :: r := by
    rw [hcons, List.cons_append, skipLines_cons hfirst]
  have hempty : ∀ s, skipLines ('\n' :: s) = skipLines s := fun s => by
    rw [skipLines]
    rfl
  cases h with
  | assign hpath hd => simpa [Statement.text, Statement.line] using hskip
  | header hpath => simpa [Statement.text, Statement.line, hempty] using hskip
  | arrayHeader hpath => simpa [Statement.text, Statement.line, hempty] using hskip

theorem statements_text {st : Statement} (h : st.Written) (r : List Char) :
    statements (st.text ++ r) = (statements r).map (st :: ·) := by
  obtain ⟨c, cs, hcons, hc⟩ := exists_line h
  have hcomment : c ≠ '#' := by
    rcases hc with hc | rfl
    · exact isBare_ne hc (by decide)
    · decide
  have hshorter : r.length < (st.text ++ r).length := by
    have htext : 0 < st.text.length := by
      cases st <;> simp only [Statement.text, List.length_append, List.length_cons] <;> omega
    rw [List.length_append]
    omega
  have hread := statement_line h r
  rw [statements, skipLines_text h]
  rw [hcons, List.cons_append] at hread ⊢
  split
  · rename_i hnil
    cases hnil
  · rename_i hhash
    exact absurd (List.cons.inj hhash).1 hcomment
  · rw [hread]
    have hend : endLine? ('\n' :: r) = some r := rfl
    dsimp only
    rw [hend]
    dsimp only
    rw [if_pos hshorter]

/-- **What is written is read back**, statement by statement. -/
theorem statements_write {ss : List Statement} (h : ∀ st ∈ ss, st.Written) :
    statements (write ss) = some ss := by
  induction ss with
  | nil =>
    have hskip : skipLines [] = [] := by
      rw [skipLines]
      rfl
    rw [write, List.flatMap_nil, statements, hskip]
  | cons st ss ih =>
    obtain ⟨hst, hss⟩ := List.forall_mem_cons.mp h
    rw [write, List.flatMap_cons, statements_text hst]
    rw [← write, ih hss]
    rfl

end Floodgate.Toml
