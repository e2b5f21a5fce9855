import EagerLoad.Proofs.Sql.Tidy

/-! # Texts that may stand anywhere

Two scans read a text, one to number its question marks and one to count its placeholders. A text stands anywhere
if both of them leave it outside of quotes, agree on its question marks and find no digit after a sign. Then it
changes nothing about what is read before it and after it. No other text has all its placeholders numbered in
order wherever it stands. -/
namespace EagerLoad.Sql

/-- The region in which the numbering is after a text. -/
def Region.past (r : Region) (text : List Char) : Region := text.foldl (Region.next isDoubleQuote) r

theorem Region.past_append (r : Region) (a b : List Char) : r.past (a ++ b) = (r.past a).past b := by
  simp [Region.past]

theorem Region.past_cons (r : Region) (c : Char) (rest : List Char) :
    r.past (c :: rest) = (r.next isDoubleQuote c).past rest := rfl

/-- A text that is read alike wherever it stands. -/
structure StandsAnywhere (text : List Char) : Prop where
  past : Region.plain.past text = .plain
  after : Region.plain.after text = .plain
  alike : asksAlike .plain .plain text = true
  separated : isSeparated .plain text = true

instance (text : List Char) : Decidable (StandsAnywhere text) :=
  decidable_of_iff (Region.plain.past text = .plain ∧ Region.plain.after text = .plain ∧
      asksAlike .plain .plain text = true ∧ isSeparated .plain text = true)
    ⟨fun ⟨past, after, alike, separated⟩ => ⟨past, after, alike, separated⟩,
      fun h => ⟨h.past, h.after, h.alike, h.separated⟩⟩

example : StandsAnywhere "`votes` > ? AND \x22a'b\x22 <> '$1'".toList ∧ ¬ StandsAnywhere "note = 'x".toList ∧
    ¬ StandsAnywhere "votes > $1".toList ∧ ¬ StandsAnywhere "`a?\x22 = b".toList := by
  decide +kernel

section Joining

variable {a b : List Char}

theorem asksAlike_append (r s : Region) (a b : List Char) :
    asksAlike r s (a ++ b) = (asksAlike r s a && asksAlike (r.past a) (s.after a) b) := by
  induction a generalizing r s with
  | nil => simp [asksAlike, Region.past, Region.after]
  | cons c rest ih =>
    rw [List.cons_append, asksAlike, asksAlike, ih, Region.past_cons, Region.after_cons, Bool.and_assoc]

theorem StandsAnywhere.append (ha : StandsAnywhere a) (hb : StandsAnywhere b) (detached : Detached a b) :
    StandsAnywhere (a ++ b) where
  past := by rw [Region.past_append, ha.past, hb.past]
  after := by rw [Region.after_append, ha.after, hb.after]
  alike := by rw [asksAlike_append, ha.alike, ha.past, ha.after, hb.alike]; rfl
  separated := by rw [isSeparated_joined detached, ha.separated, ha.after, hb.separated]; rfl

theorem StandsAnywhere.count (ha : StandsAnywhere a) (detached : Detached a b) :
    countFrom .plain (a ++ b) = countFrom .plain a + countFrom .plain b := by
  rw [countFrom_joined detached, ha.after]

/-- The placeholders of such a text are numbered in order. -/
theorem StandsAnywhere.numbers (ha : StandsAnywhere a) (i : Nat) :
    placeholdersFrom .plain (numberFrom .plain i a) = numberedFrom (i + 1) (countFrom .plain a) :=
  placeholdersFrom_numberFrom_of_asksAlike ha.alike ha.separated i

end Joining

/-- No character of a name leads either scan out of its region or is a question mark. -/
private theorem scans_allowed {name : List Char} (allowed : ∀ c ∈ name, Identifier.isAllowed c = true)
    (r s : Region) (rest : List Char) :
    r.past name = r ∧ asksAlike r s (name ++ rest) = asksAlike r s rest := by
  induction name with
  | nil => exact ⟨rfl, rfl⟩
  | cons c name ih =>
    obtain ⟨past, alike⟩ := ih fun d found => allowed d (List.mem_cons_of_mem c found)
    have other (d : Char) (refused : Identifier.isAllowed d = false) : c ≠ d := by
      rintro rfl
      exact Bool.false_ne_true (refused.symm.trans (allowed c List.mem_cons_self))
    have literal := other '\x27' rfl
    have double := other '\x22' rfl
    have back := other '\x60' rfl
    have question := other '?' rfl
    have numbering : r.next isDoubleQuote c = r := r.next_of_plain literal (by simp [isDoubleQuote, double])
    have counting : s.next isNameQuote c = s := s.next_of_plain literal (by simp [isNameQuote, double, back])
    refine ⟨?_, ?_⟩
    · rw [Region.past_cons, numbering, past]
    · rw [List.cons_append, asksAlike, numbering, counting, alike]
      simp [question]

/-- A quoted name stands anywhere, whichever quotes the dialect has. -/
theorem standsAnywhere_quote (d : Dialect) (name : String) (valid : Identifier.fault? name = none) :
    StandsAnywhere (d.quote name).toList := by
  have tidy := tidy_quote d name valid
  have allowed := isAllowed_of_fault?_eq_none name valid
  have mark : (d.quoteMark != '?') = true := by cases d <;> rfl
  refine ⟨?_, tidy.closed, ?_, tidy.separated⟩
  · rw [quote_of_valid d name valid, Region.past_cons, Region.past_append, (scans_allowed allowed _ .plain []).1]
    cases d <;> rfl
  · rw [quote_of_valid d name valid, asksAlike, mark, (scans_allowed allowed _ _ _).2, asksAlike, mark]
    rfl

/-! ## No other text

A text is tried after any number of placeholders and before one more. -/

private theorem le_ofDigitChars (digits : List Char) (n : Nat) : n ≤ Nat.ofDigitChars 10 digits n := by
  induction digits generalizing n with
  | nil => exact Nat.le_refl n
  | cons c digits ih =>
    rw [Nat.ofDigitChars_cons]
    have next := ih (10 * n + (c.toNat - '0'.toNat))
    omega

/-- More digits make a larger number. -/
private theorem eq_of_toDigits_append {m n : Nat} {digits : List Char} (pos : 0 < m) (le : n ≤ m)
    (same : Nat.toDigits 10 m ++ digits = Nat.toDigits 10 n) : digits = [] ∧ m = n := by
  have read (k : Nat) : Nat.ofDigitChars 10 (Nat.toDigits 10 k) 0 = k :=
    Nat.ofDigitChars_toDigits (by decide) (by decide)
  have value := congrArg (Nat.ofDigitChars 10 · 0) same
  simp only [Nat.ofDigitChars_append, read] at value
  cases digits with
  | nil => exact ⟨rfl, value⟩
  | cons c digits =>
    rw [Nat.ofDigitChars_cons] at value
    have more := le_ofDigitChars digits (10 * m + (c.toNat - '0'.toNat))
    omega

private theorem takeWhile_numberFrom (r : Region) (i : Nat) (text : List Char) :
    (numberFrom r i text).takeWhile Char.isDigit = text.takeWhile Char.isDigit := by
  induction text generalizing r with
  | nil => rfl
  | cons c rest ih =>
    rw [numberFrom]
    split
    · rename_i sign
      rw [sign.2]
      rfl
    · rw [List.takeWhile_cons, List.takeWhile_cons, ih]

private theorem startsWithDigit_mark (rest : List Char) :
    startsWithDigit (rest ++ ['?']) = startsWithDigit rest := by
  cases rest <;> rfl

section Reading

variable {r s : Region} (i : Nat) (rest : List Char)

private theorem read_question : placeholdersFrom .plain (numberFrom .plain i ('?' :: rest)) =
    .numbered (Nat.toDigits 10 (i + 1) ++ rest.takeWhile Char.isDigit) ::
      placeholdersFrom .plain (numberFrom .plain (i + 1) rest) := by
  rw [numberFrom, if_pos ⟨rfl, rfl⟩, placeholdersFrom_sign, takeWhile_numberFrom]

private theorem read_question_bare (quoted : r ≠ .plain) :
    placeholdersFrom .plain (numberFrom r i ('?' :: rest)) =
      .bare :: placeholdersFrom .plain (numberFrom r i rest) := by
  rw [numberFrom, if_neg fun sign => quoted sign.1, (Region.next_sign rfl r).1, placeholdersFrom]
  rfl

private theorem read_question_inside (quoted : s ≠ .plain) :
    placeholdersFrom s (numberFrom r i ('?' :: rest)) =
      placeholdersFrom s (numberFrom r (if r = .plain then i + 1 else i) rest) := by
  rw [numberFrom]
  by_cases plain : r = .plain
  · rw [if_pos ⟨plain, rfl⟩, if_pos plain, placeholdersFrom, if_neg quoted, (Region.next_sign rfl s).2, List.nil_append,
      (placeholdersFrom_digits (toDigits_digits _) s _).1]
  · rw [if_neg fun sign => plain sign.1, if_neg plain, (Region.next_sign rfl r).1, placeholdersFrom,
      if_neg quoted, (Region.next_sign rfl s).2, List.nil_append]

private theorem read_other {c : Char} (other : c ≠ '?') :
    placeholdersFrom s (numberFrom r i (c :: rest)) =
      (if s = .plain ∧ c = '$' ∧ startsWithDigit rest = true then
          [.numbered (rest.takeWhile Char.isDigit)] else []) ++
        placeholdersFrom (s.next isNameQuote c) (numberFrom (r.next isDoubleQuote c) i rest) := by
  rw [numberFrom, if_neg fun sign => other sign.2, placeholdersFrom, placeholder?, startsWithDigit_numberFrom,
    takeWhile_numberFrom, if_neg other]
  by_cases plain : s = .plain <;> by_cases sign : c = '$' ∧ startsWithDigit rest = true <;> simp [plain, sign]

private theorem count_question (s : Region) :
    countFrom s ('?' :: rest) = if s = .plain then countFrom s rest + 1 else countFrom s rest := by
  rw [countFrom, (Region.next_sign rfl s).2]
  by_cases plain : s = .plain
  · simp [plain, isPlaceholder, Nat.add_comm]
  · simp [plain]

private theorem count_other (s : Region) {c : Char} (other : c ≠ '?') :
    countFrom s (c :: rest) = (if s = .plain ∧ c = '$' ∧ startsWithDigit rest = true then 1 else 0) +
      countFrom (s.next isNameQuote c) rest := by
  have question : (c == '?') = false := beq_eq_false_iff_ne.mpr other
  rw [countFrom, isPlaceholder, question, Bool.false_or, ← startsWithDigit]
  simp

end Reading

/-- That the placeholders of a text have their places as numbers, after any number of placeholders and before
one more. The numbering may start with another number than the place. -/
def Numbers (r s : Region) (i place : Nat) (text : List Char) : Prop :=
  ∀ n, placeholdersFrom s (numberFrom r (n + i) (text ++ ['?'])) =
    numberedFrom (n + place + 1) (countFrom s text + 1)

namespace Numbers

variable {r s : Region} {i place : Nat} {rest : List Char}

theorem ends (h : Numbers r s i place []) (ahead : place ≤ i) : r = .plain ∧ s = .plain ∧ i = place := by
  have first := h 0
  rw [List.nil_append, countFrom, numberedFrom_succ] at first
  by_cases counted : s = .plain
  · subst counted
    by_cases numbered : r = .plain
    · subst numbered
      rw [read_question] at first
      have head := Placeholder.numbered.inj (List.cons.inj first).1
      obtain ⟨-, same⟩ := eq_of_toDigits_append (by omega) (by omega) head
      exact ⟨rfl, rfl, by omega⟩
    · rw [read_question_bare _ _ numbered] at first
      exact absurd (List.cons.inj first).1 (by simp)
  · rw [read_question_inside _ _ counted] at first
    exact absurd first (by simp [numberFrom, placeholdersFrom])

/-- A question mark that counts has its place as its number, so the numbering has seen as much and no digit
follows. -/
theorem question (h : Numbers r .plain i place ('?' :: rest)) (ahead : place ≤ i) :
    r = .plain ∧ startsWithDigit rest = false ∧ Numbers .plain .plain (i + 1) (place + 1) rest := by
  unfold Numbers at h
  simp only [List.cons_append, count_question, if_pos, numberedFrom_succ] at h
  by_cases numbered : r = .plain
  · subst numbered
    simp only [read_question] at h
    have head := Placeholder.numbered.inj (List.cons.inj (h 0)).1
    obtain ⟨follows, -⟩ := eq_of_toDigits_append (by omega) (by omega) head
    rw [takeWhile_eq_nil_iff, startsWithDigit_mark] at follows
    exact ⟨rfl, follows, fun n => (List.cons.inj (h n)).2⟩
  · simp only [read_question_bare _ _ numbered] at h
    exact absurd (List.cons.inj (h 0)).1 (by simp)

theorem question_inside (h : Numbers r s i place ('?' :: rest)) (counted : s ≠ .plain) :
    Numbers r s (if r = .plain then i + 1 else i) place rest := by
  intro n
  have here := h n
  rw [List.cons_append, count_question, if_neg counted, read_question_inside _ _ counted] at here
  rw [← here]
  split <;> rfl

/-- No sign is followed by a digit, since it would keep its number wherever it stands. -/
theorem other {c : Char} (h : Numbers r s i place (c :: rest)) (question : c ≠ '?') :
    ¬(s = .plain ∧ c = '$' ∧ startsWithDigit rest = true) ∧
      Numbers (r.next isDoubleQuote c) (s.next isNameQuote c) i place rest := by
  unfold Numbers at h
  simp only [List.cons_append, read_other _ _ question, count_other _ _ question, startsWithDigit_mark] at h
  by_cases sign : s = .plain ∧ c = '$' ∧ startsWithDigit rest = true
  · simp only [if_pos sign, List.singleton_append, numberedFrom_succ] at h
    have here (n : Nat) := Placeholder.numbered.inj (List.cons.inj (h n)).1
    have moved : Nat.toDigits 10 (1 + place + 1) ++ [] = Nat.toDigits 10 (0 + place + 1) := by
      rw [List.append_nil, ← here 1, here 0]
    obtain ⟨-, equal⟩ := eq_of_toDigits_append (by omega) (by omega) moved
    omega
  · simp only [if_neg sign, List.nil_append, Nat.zero_add] at h
    exact ⟨sign, h⟩

end Numbers

/-- Where a text numbers its placeholders, both scans agree to its end outside of quotes, and neither is ahead. -/
private theorem scans_of_numbers {r s : Region} {i place : Nat} {text : List Char}
    (h : Numbers r s i place text) (ahead : place ≤ i) :
    i = place ∧ r.past text = .plain ∧ s.after text = .plain ∧ asksAlike r s text = true ∧
      isSeparated s text = true := by
  -- Once the numbering is ahead of the count it stays so, and at the end it must not be.
  induction text generalizing r s i place with
  | nil =>
    obtain ⟨rfl, rfl, equal⟩ := h.ends ahead
    exact ⟨equal, rfl, rfl, rfl, rfl⟩
  | cons c rest ih =>
    rw [Region.past_cons, Region.after_cons, asksAlike, isSeparated]
    by_cases question : c = '?'
    · subst question
      rw [(Region.next_sign rfl r).1, (Region.next_sign rfl s).2]
      by_cases counted : s = .plain
      · subst counted
        obtain ⟨rfl, follows, later⟩ := h.question ahead
        obtain ⟨equal, past, after, alike, separated⟩ := ih later (by omega)
        exact ⟨by omega, past, after, by simpa using alike, by simp [follows, separated]⟩
      · have later := h.question_inside counted
        by_cases numbered : r = .plain
        · -- Only the numbering has seen it: it would be ahead to the end.
          rw [if_pos numbered] at later
          obtain ⟨equal, -⟩ := ih later (by omega)
          omega
        · rw [if_neg numbered] at later
          obtain ⟨equal, past, after, alike, separated⟩ := ih later ahead
          have same : (r == .plain) = (s == .plain) :=
            (beq_eq_false_iff_ne.mpr numbered).trans (beq_eq_false_iff_ne.mpr counted).symm
          exact ⟨equal, past, after, by simp [same, alike], by simp [counted, separated]⟩
    · obtain ⟨sign, later⟩ := h.other question
      obtain ⟨equal, past, after, alike, separated⟩ := ih later ahead
      have apart : (s == .plain && isSign c && startsWithDigit rest) = false := by
        by_cases counted : s = .plain <;> by_cases dollar : c = '$' <;> simp_all [isSign]
      exact ⟨equal, past, after, by simp [question, alike], by rw [apart, separated]; rfl⟩

theorem numberedFrom_add (first m n : Nat) :
    numberedFrom first (m + n) = numberedFrom first m ++ numberedFrom (first + m) n := by
  have split : List.range' first m ++ List.range' (first + 1 * m) n = List.range' first (m + n) :=
    List.range'_append
  rw [Nat.one_mul] at split
  rw [numberedFrom, numberedFrom, numberedFrom, ← split, List.map_append]

/-- Question marks that are not followed by a digit have the next numbers. -/
theorem placeholdersFrom_marks {rest : List Char} (start : startsWithDigit rest = false) (i n : Nat) :
    placeholdersFrom .plain (numberFrom .plain i (List.replicate n '?' ++ rest)) =
      numberedFrom (i + 1) n ++ placeholdersFrom .plain (numberFrom .plain (i + n) rest) := by
  induction n generalizing i with
  | zero => rfl
  | succ n ih =>
    have follows : (List.replicate n '?' ++ rest).takeWhile Char.isDigit = [] := by
      rw [takeWhile_eq_nil_iff]
      cases n with
      | zero => exact start
      | succ n => rfl
    rw [List.replicate_succ, List.cons_append, read_question, follows, List.append_nil, ih, numberedFrom_succ,
      Nat.add_right_comm i 1 n, List.cons_append, Nat.add_assoc i n 1]

/-- Only a text that stands anywhere has the numbers of its places after a gap and any number of placeholders, and
before one more. -/
theorem standsAnywhere_of_numbered {text : List Char}
    (each : ∀ n, placeholdersFrom .plain
        (numberFrom .plain 0 (List.replicate n '?' ++ (' ' :: (text ++ ['?'])))) =
      numberedFrom 1 (n + (countFrom .plain text + 1))) : StandsAnywhere text := by
  have numbers : Numbers .plain .plain 0 0 text := by
    intro n
    have here := each n
    have gap : placeholdersFrom .plain (numberFrom .plain (0 + n) (' ' :: (text ++ ['?']))) =
        placeholdersFrom .plain (numberFrom .plain (0 + n) (text ++ ['?'])) := by
      rw [read_other _ _ (by decide), if_neg fun sign => absurd sign.2.1 (by decide), List.nil_append]
      rfl
    rw [placeholdersFrom_marks rfl, gap, numberedFrom_add] at here
    simpa [Nat.add_comm 1] using List.append_cancel_left here
  obtain ⟨-, past, after, alike, separated⟩ := scans_of_numbers numbers (Nat.le_refl 0)
  exact ⟨past, after, alike, separated⟩

end EagerLoad.Sql
