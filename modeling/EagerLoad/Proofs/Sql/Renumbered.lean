import EagerLoad.Proofs.Sql.Scan

/-! # Numbering any text

Counting knows one more kind of quote than numbering does. But numbering changes no quote, and a sign that it
writes counts wherever the question mark counted in whose place it stands. So the two agree on every text,
also where quotes are mixed or stay open. -/
namespace EagerLoad.Sql

/-- Whether a text has a question mark at a place outside of literals and double quotes. -/
def asksAt (text : List Char) (place : Nat) : Bool :=
  text[place]? == some '?' && (text.take place).foldl (Region.next isDoubleQuote) .plain == .plain

/-- How many such question marks stand before a place. -/
def askedBefore (text : List Char) (place : Nat) : Nat := (List.range place).countP (asksAt text)

/-- What stands in the place of a character: the number of the question mark, or the character itself. -/
def signAt (text : List Char) (c : Char) (place : Nat) : List Char :=
  if asksAt text place then '$' :: Nat.toDigits 10 (askedBefore text (place + 1)) else [c]

/-- Digits count for nothing, whatever region they stand in. -/
private theorem countFrom_digits {digits : List Char} (all : ∀ c ∈ digits, c.isDigit = true) (r : Region)
    (rest : List Char) : countFrom r (digits ++ rest) = countFrom r rest := by
  rw [← length_placeholdersFrom, (placeholdersFrom_digits all r rest).1, length_placeholdersFrom]

private theorem numberFrom_digits {digits : List Char} (all : ∀ c ∈ digits, c.isDigit = true) (r : Region)
    (index : Nat) (rest : List Char) : numberFrom r index (digits ++ rest) = digits ++ numberFrom r index rest := by
  induction digits with
  | nil => rfl
  | cons c digits ih =>
    have digit := all c List.mem_cons_self
    have other : ¬(r = .plain ∧ c = '?') := fun sign => absurd sign.2 (isDigit_ne digit rfl)
    rw [List.cons_append, numberFrom, if_neg other, (Region.next_digit digit r).1,
      ih fun d found => all d (List.mem_cons_of_mem c found), List.cons_append]

/-- Numbering changes no count, in whichever regions the two scans are. -/
theorem countFrom_numberFrom (numbering counting : Region) (index : Nat) (text : List Char) :
    countFrom counting (numberFrom numbering index text) = countFrom counting text := by
  induction text generalizing numbering counting index with
  | nil => rfl
  | cons c rest ih =>
    rw [numberFrom]
    by_cases sign : numbering = .plain ∧ c = '?'
    · obtain ⟨rfl, rfl⟩ := sign
      have follows := startsWithDigit_toDigits (index + 1) (numberFrom .plain (index + 1) rest)
      have counts : isPlaceholder '$' (Nat.toDigits 10 (index + 1) ++
          numberFrom .plain (index + 1) rest) = true := by
        rw [startsWithDigit] at follows
        rw [isPlaceholder, follows]
        rfl
      rw [if_pos ⟨rfl, rfl⟩, countFrom, countFrom, counts, (Region.next_sign rfl counting).2, (Region.next_sign rfl counting).2,
        countFrom_digits (toDigits_digits _), ih]
      simp [isPlaceholder]
    · have same : isPlaceholder c (numberFrom (numbering.next isDoubleQuote c) index rest) =
          isPlaceholder c rest := by
        have head := startsWithDigit_numberFrom (numbering.next isDoubleQuote c) index rest
        simp only [startsWithDigit] at head
        rw [isPlaceholder, isPlaceholder, head]
      rw [if_neg sign, countFrom, countFrom, same, ih]

/-- A numbered text has nothing left to number. -/
theorem numberFrom_numberFrom (r : Region) (index other : Nat) (text : List Char) :
    numberFrom r other (numberFrom r index text) = numberFrom r index text := by
  induction text generalizing r index with
  | nil => rfl
  | cons c rest ih =>
    conv => enter [1, 3]; rw [numberFrom]
    conv => enter [2]; rw [numberFrom]
    by_cases sign : r = .plain ∧ c = '?'
    · obtain ⟨rfl, rfl⟩ := sign
      rw [if_pos ⟨rfl, rfl⟩, numberFrom, if_neg fun sign => absurd sign.2 (by decide), (Region.next_sign rfl .plain).1,
        numberFrom_digits (toDigits_digits _), ih]
    · rw [if_neg sign, numberFrom, if_neg sign, ih]

theorem askedBefore_succ (text : List Char) (place : Nat) :
    askedBefore text (place + 1) = askedBefore text place + if asksAt text place then 1 else 0 := by
  rw [askedBefore, List.range_succ, List.countP_append, List.countP_singleton]
  rfl

/-- From some place on, numbering puts the signs of the places one after another. -/
theorem numberFrom_eq_signs (front rest : List Char) :
    numberFrom (front.foldl (Region.next isDoubleQuote) .plain) (askedBefore (front ++ rest) front.length) rest =
      (rest.zipIdx front.length).flatMap fun (c, place) => signAt (front ++ rest) c place := by
  induction rest generalizing front with
  | nil => rfl
  | cons c rest ih =>
    have next := ih (front ++ [c])
    have asks : asksAt (front ++ c :: rest) front.length = true ↔
        front.foldl (Region.next isDoubleQuote) .plain = .plain ∧ c = '?' := by
      simp [asksAt, and_comm]
    rw [List.foldl_append, List.foldl_cons, List.foldl_nil, List.length_append, List.length_singleton,
      List.append_assoc, List.singleton_append, askedBefore_succ] at next
    rw [numberFrom, List.zipIdx_cons, List.flatMap_cons, ← next]
    dsimp only
    rw [signAt, askedBefore_succ]
    by_cases sign : front.foldl (Region.next isDoubleQuote) .plain = .plain ∧ c = '?'
    · have stays : Region.plain.next isDoubleQuote '?' = .plain := rfl
      rw [if_pos sign, if_pos (asks.mpr sign), if_pos (asks.mpr sign), sign.1, sign.2, stays, List.cons_append]
    · rw [if_neg sign, if_neg fun found => sign (asks.mp found), if_neg fun found => sign (asks.mp found),
        Nat.add_zero, List.singleton_append]

/-- On every text, numbering keeps the count of placeholders, leaves nothing to number, and puts its number in
the place of every question mark outside of literals and double quotes, with all else as it was. -/
theorem numbering_agrees (sql : String) :
    countPlaceholders (numberPlaceholders sql) = countPlaceholders sql ∧
      numberPlaceholders (numberPlaceholders sql) = numberPlaceholders sql ∧
      (numberPlaceholders sql).toList =
        sql.toList.zipIdx.flatMap fun (c, place) => signAt sql.toList c place := by
  refine ⟨?_, ?_, ?_⟩
  · rw [countPlaceholders, numberPlaceholders, String.toList_ofList]
    exact countFrom_numberFrom _ _ _ _
  · rw [numberPlaceholders, numberPlaceholders, String.toList_ofList, numberFrom_numberFrom]
  · rw [numberPlaceholders, String.toList_ofList]
    exact numberFrom_eq_signs [] sql.toList

example : numberPlaceholders "a = ? AND `?\x22? = '?$" = "a = $1 AND `$2\x22? = '?$" := by
  decide +kernel

end EagerLoad.Sql
