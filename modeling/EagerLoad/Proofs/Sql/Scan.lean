import EagerLoad.Sql.Placeholder

/-! # Scanning a text for placeholders

The placeholders of a text are listed as they are read. In a text whose signs for placeholders are
not followed by digits, counting, listing and numbering agree. -/
namespace EagerLoad.Sql

def Region.after (r : Region) (text : List Char) : Region :=
  text.foldl (Region.next isNameQuote) r

def isSign (c : Char) : Bool := c == '?' || c == '$'

def startsWithDigit (text : List Char) : Bool := (text.head?.map Char.isDigit).getD false

/-- Whether no sign outside quotes is followed by a digit. -/
def isSeparated : Region → List Char → Bool
  | _, [] => true
  | r, c :: rest =>
    !(r == .plain && isSign c && startsWithDigit rest) && isSeparated (r.next isNameQuote c) rest

/-- A placeholder as it stands in a text. -/
inductive Placeholder where
  | bare
  | numbered (digits : List Char)
deriving DecidableEq, Repr

/-- The placeholder that begins with a character, given the text after it. -/
def placeholder? (c : Char) (rest : List Char) : Option Placeholder :=
  if c = '?' then some .bare
  else if c = '$' ∧ startsWithDigit rest then some (.numbered (rest.takeWhile Char.isDigit))
  else none

def placeholdersFrom : Region → List Char → List Placeholder
  | _, [] => []
  | r, c :: rest =>
    (if r = .plain then (placeholder? c rest).toList else []) ++
      placeholdersFrom (r.next isNameQuote c) rest

/-- The placeholders of a text outside quotes, in order. -/
def placeholders (sql : String) : List Placeholder := placeholdersFrom .plain sql.toList

/-- The placeholders with the numbers from `first` on. -/
def numberedFrom (first n : Nat) : List Placeholder :=
  (List.range' first n).map fun i => .numbered (Nat.toDigits 10 i)

theorem Region.after_cons (r : Region) (c : Char) (rest : List Char) :
    r.after (c :: rest) = (r.next isNameQuote c).after rest := rfl

theorem Region.after_append (r : Region) (a b : List Char) :
    r.after (a ++ b) = (r.after a).after b := by
  simp [Region.after]

@[simp] theorem startsWithDigit_nil : startsWithDigit [] = false := rfl

@[simp] theorem startsWithDigit_cons (c : Char) (rest : List Char) :
    startsWithDigit (c :: rest) = c.isDigit := rfl

private theorem startsWithDigit_append_left (a b : List Char) (hb : startsWithDigit b = false) :
    startsWithDigit (a ++ b) = startsWithDigit a := by
  cases a with
  | nil => exact hb
  | cons c rest => rfl

/-- Whether a text ends with a sign, which a digit would continue. -/
def endsInSign (text : List Char) : Bool := text.getLast?.any isSign

/-- That no sign at the end of a text is continued by the text after it. -/
def Detached (a b : List Char) : Prop := endsInSign a = true → startsWithDigit b = false

section Joining

variable {r : Region} {a b : List Char}

theorem Detached.tail {c : Char} (detached : Detached (c :: a) b) : Detached a b := by
  cases a with
  | nil => exact fun sign => absurd sign (by decide)
  | cons d rest => simpa [Detached, endsInSign] using detached

/-- Where a sign stands before the text, the text after it begins as before. -/
theorem Detached.startsWithDigit {c : Char} (detached : Detached (c :: a) b) (sign : isSign c = true) :
    startsWithDigit (a ++ b) = startsWithDigit a := by
  cases a with
  | nil => exact detached (by simpa [endsInSign] using sign)
  | cons d rest => rfl

theorem isSeparated_joined (detached : Detached a b) :
    isSeparated r (a ++ b) = (isSeparated r a && isSeparated (r.after a) b) := by
  induction a generalizing r with
  | nil => simp [isSeparated, Region.after]
  | cons c rest ih =>
    rw [List.cons_append, isSeparated, isSeparated, ih detached.tail, Region.after_cons]
    by_cases sign : isSign c = true
    · rw [detached.startsWithDigit sign]
      simp only [Bool.and_assoc]
    · simp only [sign, Bool.and_false, Bool.false_and, Bool.not_false, Bool.true_and]

theorem countFrom_joined (detached : Detached a b) :
    countFrom r (a ++ b) = countFrom r a + countFrom (r.after a) b := by
  induction a generalizing r with
  | nil => simp [countFrom, Region.after]
  | cons c rest ih =>
    have same : isPlaceholder c (rest ++ b) = isPlaceholder c rest := by
      by_cases dollar : c = '$'
      · have head := detached.startsWithDigit (by simp [isSign, dollar])
        simp only [Sql.startsWithDigit] at head
        rw [isPlaceholder, isPlaceholder, head]
      · have other : (c == '$') = false := beq_eq_false_iff_ne.mpr dollar
        simp only [isPlaceholder, other, Bool.false_and]
    rw [List.cons_append, countFrom, countFrom, ih detached.tail, Region.after_cons, same, Nat.add_assoc]

theorem isSeparated_append (r : Region) (a b : List Char) (hb : startsWithDigit b = false) :
    isSeparated r (a ++ b) = (isSeparated r a && isSeparated (r.after a) b) :=
  isSeparated_joined fun _ => hb

theorem countFrom_append (r : Region) (a b : List Char) (hb : startsWithDigit b = false) :
    countFrom r (a ++ b) = countFrom r a + countFrom (r.after a) b :=
  countFrom_joined fun _ => hb

end Joining

private theorem placeholder?_isSome (c : Char) (rest : List Char) :
    (placeholder? c rest).isSome = isPlaceholder c rest := by
  unfold placeholder? isPlaceholder startsWithDigit
  by_cases question : c = '?'
  · simp [question]
  · by_cases dollar : c = '$'
    · simp [dollar]
      split <;> simp_all
    · simp [question, dollar]

theorem length_placeholdersFrom (r : Region) (text : List Char) :
    (placeholdersFrom r text).length = countFrom r text := by
  induction text generalizing r with
  | nil => rfl
  | cons c rest ih =>
    rw [placeholdersFrom, countFrom, List.length_append, ih]
    have known := placeholder?_isSome c rest
    by_cases plain : r = .plain
    · cases found : placeholder? c rest <;> simp_all
    · simp [plain]

/-- A separated text holds bare placeholders only. -/
theorem placeholdersFrom_eq_replicate (r : Region) (text : List Char)
    (h : isSeparated r text = true) :
    placeholdersFrom r text = List.replicate (countFrom r text) .bare := by
  induction text generalizing r with
  | nil => rfl
  | cons c rest ih =>
    rw [isSeparated, Bool.and_eq_true] at h
    rw [placeholdersFrom, countFrom, ih _ h.2, ← List.replicate_append_replicate]
    congr 1
    by_cases plain : r = .plain
    · by_cases question : c = '?'
      · simp [plain, question, placeholder?, isPlaceholder]
      · by_cases dollar : c = '$'
        · have follows : startsWithDigit rest = false := by
            simpa [plain, dollar, isSign] using h.1
          have head := follows
          rw [startsWithDigit] at head
          simp [plain, dollar, placeholder?, isPlaceholder, follows, head]
        · simp [plain, question, dollar, placeholder?, isPlaceholder]
    · simp [plain]

private theorem takeWhile_append_of_not_digit (a b : List Char) (hb : startsWithDigit b = false) :
    (a ++ b).takeWhile Char.isDigit = a.takeWhile Char.isDigit := by
  induction a with
  | nil =>
    cases b with
    | nil => rfl
    | cons c rest =>
      have stop : c.isDigit = false := hb
      simp [stop]
  | cons c rest ih => simp [List.takeWhile_cons, ih]

private theorem placeholder?_append (c : Char) (a b : List Char) (hb : startsWithDigit b = false) :
    placeholder? c (a ++ b) = placeholder? c a := by
  rw [placeholder?, placeholder?, startsWithDigit_append_left a b hb,
    takeWhile_append_of_not_digit a b hb]

theorem placeholdersFrom_append (r : Region) (a b : List Char) (hb : startsWithDigit b = false) :
    placeholdersFrom r (a ++ b) = placeholdersFrom r a ++ placeholdersFrom (r.after a) b := by
  induction a generalizing r with
  | nil => simp [placeholdersFrom, Region.after]
  | cons c rest ih =>
    rw [List.cons_append, placeholdersFrom, placeholdersFrom, ih, Region.after_cons,
      placeholder?_append c rest b hb, List.append_assoc]

@[simp] theorem startsWithDigit_numberFrom (r : Region) (i : Nat) (text : List Char) :
    startsWithDigit (numberFrom r i text) = startsWithDigit text := by
  cases text with
  | nil => rfl
  | cons c rest =>
    rw [numberFrom]
    split
    · rename_i sign
      rw [sign.2]
      rfl
    · rfl

theorem Region.next_isDoubleQuote (r : Region) (c : Char) (h : c ≠ '\x60') :
    r.next isDoubleQuote c = r.next isNameQuote c := by
  have same : isDoubleQuote c = isNameQuote c := by simp [isDoubleQuote, isNameQuote, h]
  simp [Region.next, same]

/-- Only quotes lead from one region into another. -/
theorem Region.next_of_plain {isQuote : Char → Bool} {c : Char} (literal : c ≠ '\x27') (other : isQuote c = false)
    (r : Region) : r.next isQuote c = r := by
  cases r <;> simp [Region.next, literal, other]

theorem Region.next_sign {c : Char} (sign : isSign c = true) (r : Region) :
    r.next isDoubleQuote c = r ∧ r.next isNameQuote c = r := by
  obtain rfl | rfl : c = '?' ∨ c = '$' := by simpa [isSign] using sign
  · exact ⟨r.next_of_plain (by decide) rfl, r.next_of_plain (by decide) rfl⟩
  · exact ⟨r.next_of_plain (by decide) rfl, r.next_of_plain (by decide) rfl⟩

section Digits

variable {c : Char} (digit : c.isDigit = true)
include digit

theorem isDigit_ne {other : Char} (word : other.isDigit = false) : c ≠ other := by
  rintro rfl
  exact Bool.false_ne_true (word.symm.trans digit)

theorem Region.next_digit (r : Region) : r.next isDoubleQuote c = r ∧ r.next isNameQuote c = r := by
  have literal : c ≠ '\x27' := isDigit_ne digit rfl
  have double : c ≠ '\x22' := isDigit_ne digit rfl
  have back : c ≠ '\x60' := isDigit_ne digit rfl
  exact ⟨next_of_plain literal (by simp [isDoubleQuote, double]) r,
    next_of_plain literal (by simp [isNameQuote, double, back]) r⟩

end Digits

theorem toDigits_digits (n : Nat) : ∀ c ∈ Nat.toDigits 10 n, c.isDigit = true :=
  fun _ found => Nat.isDigit_of_mem_toDigits (by omega) (by omega) found

theorem startsWithDigit_toDigits (n : Nat) (rest : List Char) :
    startsWithDigit (Nat.toDigits 10 n ++ rest) = true := by
  cases shape : Nat.toDigits 10 n with
  | nil => exact absurd shape Nat.toDigits_ne_nil
  | cons c others => exact toDigits_digits n c (by simp [shape])

/-- Digits count for nothing where no sign stands before them, whatever region they stand in. -/
theorem placeholdersFrom_digits {digits : List Char} (all : ∀ c ∈ digits, c.isDigit = true) (r : Region)
    (rest : List Char) :
    placeholdersFrom r (digits ++ rest) = placeholdersFrom r rest ∧ r.after digits = r := by
  induction digits with
  | nil => exact ⟨rfl, rfl⟩
  | cons c digits ih =>
    have digit := all c List.mem_cons_self
    obtain ⟨-, next⟩ := Region.next_digit digit r
    obtain ⟨listed, after⟩ := ih fun d found => all d (List.mem_cons_of_mem c found)
    have none : placeholder? c (digits ++ rest) = none := by
      have question : c ≠ '?' := isDigit_ne digit rfl
      have dollar : c ≠ '$' := isDigit_ne digit rfl
      simp [placeholder?, question, dollar]
    refine ⟨?_, ?_⟩
    · rw [List.cons_append, placeholdersFrom, next, none, listed]
      simp
    · rw [Region.after_cons, next, after]

/-- A sign with a number, and the digits after it, are one placeholder. -/
theorem placeholdersFrom_sign (i : Nat) (rest : List Char) :
    placeholdersFrom .plain ('$' :: (Nat.toDigits 10 i ++ rest)) =
      .numbered (Nat.toDigits 10 i ++ rest.takeWhile Char.isDigit) :: placeholdersFrom .plain rest := by
  have after : Region.plain.next isNameQuote '$' = .plain := rfl
  rw [placeholdersFrom, after, (placeholdersFrom_digits (toDigits_digits i) .plain rest).1, placeholder?,
    startsWithDigit_toDigits i rest, List.takeWhile_append_of_pos (toDigits_digits i)]
  rfl

theorem takeWhile_eq_nil_iff (text : List Char) :
    text.takeWhile Char.isDigit = [] ↔ startsWithDigit text = false := by
  cases text with
  | nil => simp
  | cons c rest => by_cases digit : c.isDigit = true <;> simp [digit]

theorem numberedFrom_succ (first n : Nat) :
    numberedFrom first (n + 1) = .numbered (Nat.toDigits 10 first) :: numberedFrom (first + 1) n := by
  simp [numberedFrom, List.range'_succ]

private theorem not_sign_of_separated (r : Region) (c : Char) (rest : List Char)
    (h : isSeparated r (c :: rest) = true) (plain : r = .plain) (sign : isSign c = true) :
    startsWithDigit rest = false := by
  rw [isSeparated, Bool.and_eq_true] at h
  simpa [plain, sign] using h.1

/-- Whether two scans, one for numbering and one for counting, agree on which question marks stand outside
of quotes. -/
def asksAlike : Region → Region → List Char → Bool
  | _, _, [] => true
  | r, s, c :: rest =>
    (c != '?' || (r == .plain) == (s == .plain)) &&
      asksAlike (r.next isDoubleQuote c) (s.next isNameQuote c) rest

/-- Without backticks there is no difference between the two scans. -/
theorem asksAlike_of_unticked (r : Region) {text : List Char} (unticked : '\x60' ∉ text) :
    asksAlike r r text = true := by
  induction text generalizing r with
  | nil => rfl
  | cons c rest ih =>
    rw [List.mem_cons, not_or] at unticked
    rw [asksAlike, Region.next_isDoubleQuote r c (Ne.symm unticked.1), ih _ unticked.2]
    simp

/-- Numbering a separated text numbers its placeholders in order, if the scans agree on them. -/
theorem placeholdersFrom_numberFrom_of_asksAlike {r s : Region} {text : List Char}
    (alike : asksAlike r s text = true) (separated : isSeparated s text = true) (i : Nat) :
    placeholdersFrom s (numberFrom r i text) = numberedFrom (i + 1) (countFrom s text) := by
  induction text generalizing r s i with
  | nil => rfl
  | cons c rest ih =>
    have follows := not_sign_of_separated s c rest separated
    rw [isSeparated, Bool.and_eq_true] at separated
    rw [asksAlike, Bool.and_eq_true] at alike
    have tail := ih alike.2 separated.2
    rw [numberFrom, countFrom]
    by_cases sign : r = .plain ∧ c = '?'
    · obtain ⟨rfl, rfl⟩ := sign
      obtain rfl : s = .plain := by simpa using alike.1
      obtain ⟨numbering, counting⟩ := Region.next_sign (c := '?') rfl .plain
      rw [numbering, counting] at tail
      have stop : (numberFrom .plain (i + 1) rest).takeWhile Char.isDigit = [] := by
        rw [takeWhile_eq_nil_iff, startsWithDigit_numberFrom]
        exact follows rfl rfl
      rw [if_pos ⟨rfl, rfl⟩, placeholdersFrom_sign, stop, List.append_nil, counting, tail,
        if_pos ⟨rfl, rfl⟩, Nat.add_comm 1, numberedFrom_succ]
    · rw [if_neg sign, placeholdersFrom, tail]
      by_cases plain : s = .plain
      · have question : c ≠ '?' := by
          rintro rfl
          exact sign ⟨by simpa [plain] using alike.1, rfl⟩
        by_cases dollar : c = '$'
        · have stop := follows plain (by simp [isSign, dollar])
          have head := stop
          rw [startsWithDigit] at head
          simp [plain, dollar, placeholder?, isPlaceholder, stop, head]
        · simp [plain, question, dollar, placeholder?, isPlaceholder]
      · simp [plain]

/-- Numbering a separated text numbers its placeholders in order and changes nothing else. -/
theorem placeholdersFrom_numberFrom (r : Region) (i : Nat) (text : List Char)
    (separated : isSeparated r text = true) (unticked : '\x60' ∉ text) :
    placeholdersFrom r (numberFrom r i text) = numberedFrom (i + 1) (countFrom r text) :=
  placeholdersFrom_numberFrom_of_asksAlike (asksAlike_of_unticked r unticked) separated i

theorem after_numberFrom (r : Region) (i : Nat) (text : List Char) (unticked : '\x60' ∉ text) :
    r.after (numberFrom r i text) = r.after text := by
  induction text generalizing r i with
  | nil => rfl
  | cons c rest ih =>
    rw [List.mem_cons, not_or] at unticked
    have next := Region.next_isDoubleQuote r c (Ne.symm unticked.1)
    rw [numberFrom]
    by_cases sign : r = .plain ∧ c = '?'
    · obtain ⟨rfl, rfl⟩ := sign
      have digits := (placeholdersFrom_digits (toDigits_digits (i + 1)) .plain []).2
      have dollar : Region.plain.next isNameQuote '$' = .plain := rfl
      have same : Region.plain.next isNameQuote '?' = .plain := rfl
      rw [if_pos ⟨rfl, rfl⟩, Region.after_cons, dollar, Region.after_append, digits,
        ih _ _ unticked.2, Region.after_cons, same]
    · rw [if_neg sign, Region.after_cons, next, ih _ _ unticked.2, Region.after_cons]

end EagerLoad.Sql
