import EagerLoad.Proofs.Sql.Scan

/-! # The words of a text

Spaces outside of quotes and parentheses cut a text into words, so whatever stands in parentheses is
within one word. A keyword counts only as a word of its own. -/
namespace EagerLoad.Sql

/-- The depth of parentheses after a character; in quotes they count for nothing. -/
def Region.depth (r : Region) (depth : Nat) (c : Char) : Nat :=
  if r = .plain then if c = '(' then depth + 1 else if c = ')' then depth - 1 else depth
  else depth

/-- Whether a character closes a parenthesis that the text did not open. -/
def Region.isLoose (r : Region) (depth : Nat) (c : Char) : Bool :=
  r == .plain && depth == 0 && c == ')'

/-- Whether a character is a space outside of quotes and parentheses. -/
def Region.isGap (r : Region) (depth : Nat) (c : Char) : Bool :=
  r == .plain && depth == 0 && c == ' '

/-- Where a text ends, if it closes no parenthesis that it did not open. -/
def closes : Region → Nat → List Char → Option (Region × Nat)
  | r, depth, [] => some (r, depth)
  | r, depth, c :: rest =>
    if r.isLoose depth c then none
    else closes (r.next isNameQuote c) (r.depth depth c) rest

/-- Whether a text closes all parentheses that it opens and no others, and ends outside of quotes. -/
def Balanced (text : List Char) : Prop := closes .plain 0 text = some (.plain, 0)

instance (text : List Char) : Decidable (Balanced text) :=
  inferInstanceAs (Decidable (_ = _))

def topWords : Region → Nat → List Char → List (List Char)
  | _, _, [] => [[]]
  | r, depth, c :: rest =>
    if r.isGap depth c then [] :: topWords r depth rest
    else match topWords (r.next isNameQuote c) (r.depth depth c) rest with
      | [] => [[c]]
      | word :: words => (c :: word) :: words

def words (text : List Char) : List (List Char) := topWords .plain 0 text

def unwords (ws : List (List Char)) : List Char := List.intercalate [' '] ws

/-- The words at which the tests of a statement end. -/
def clauseWords : List (List Char) :=
  ["GROUP", "HAVING", "ORDER", "LIMIT", "OFFSET"].map String.toList

/-- The words between WHERE and the next clause. -/
def whereWords (text : List Char) : List (List Char) :=
  (((words text).dropWhile fun w => w ≠ "WHERE".toList).drop 1).takeWhile fun w => w ∉ clauseWords

/-- Cuts a list at a separator. -/
def cutAt (separator : List Char) : List (List Char) → List (List (List Char))
  | [] => [[]]
  | w :: ws =>
    if w = separator then [] :: cutAt separator ws
    else match cutAt separator ws with
      | [] => [[w]]
      | piece :: pieces => (w :: piece) :: pieces

/-- The tests that the rows of a statement have to pass: what its WHERE joins by AND. -/
def whereTests (text : List Char) : List (List Char) :=
  if whereWords text = [] then [] else (cutAt "AND".toList (whereWords text)).map unwords

/-- What stands in the first parentheses that begin a word. -/
def subselect (text : List Char) : List Char :=
  match (words text).find? fun w => w.head? = some '(' with
  | some w => (w.drop 1).dropLast
  | none => []

/-- Joins two lists of words, the last of the first and the first of the second becoming one. -/
def glue : List (List Char) → List (List Char) → List (List Char)
  | [], vs => vs
  | [w], [] => [w]
  | [w], v :: vs => (w ++ v) :: vs
  | w :: w' :: ws, vs => w :: glue (w' :: ws) vs

section Scanning

variable {r r' : Region} {depth depth' : Nat}

theorem closes_append (a b : List Char) :
    closes r depth (a ++ b) = (closes r depth a).bind fun place => closes place.1 place.2 b := by
  induction a generalizing r depth with
  | nil => rfl
  | cons c rest ih =>
    rw [List.cons_append, closes, closes]
    split
    · rfl
    · exact ih

theorem balanced_append {a b : List Char} (ha : Balanced a) (hb : Balanced b) :
    Balanced (a ++ b) := by
  rw [Balanced, closes_append, show closes .plain 0 a = _ from ha]
  exact hb

private theorem depth_add (c : Char) (k : Nat) (tied : r.isLoose depth c = false) :
    r.depth (depth + k) c = r.depth depth c + k := by
  unfold Region.depth
  split
  · rename_i plain
    split
    · omega
    · split
      · rename_i close
        have deep : depth ≠ 0 := by
          intro zero
          simp [Region.isLoose, plain, close, zero] at tied
        omega
      · rfl
  · rfl

private theorem not_isGap_succ (c : Char) : r.isGap (depth + 1) c = false := by
  simp [Region.isGap]

/-- A text reads inside of parentheses as it does outside. -/
theorem closes_inside {text : List Char} (k : Nat) (h : closes r depth text = some (r', depth')) :
    closes r (depth + k) text = some (r', depth' + k) := by
  induction text generalizing r depth with
  | nil =>
    obtain ⟨rfl, rfl⟩ := Prod.mk.inj (Option.some.inj h)
    rfl
  | cons c rest ih =>
    rw [closes] at h
    split at h
    · exact absurd h (by simp)
    · rename_i tied
      have loose : ¬r.isLoose (depth + k) c = true := by
        intro loose
        apply tied
        simp only [Region.isLoose, Bool.and_eq_true, beq_iff_eq] at loose ⊢
        exact ⟨⟨loose.1.1, by omega⟩, loose.2⟩
      rw [closes, if_neg loose, depth_add c k (by simpa using tied)]
      exact ih h

theorem topWords_ne_nil (r : Region) (depth : Nat) (text : List Char) :
    topWords r depth text ≠ [] := by
  cases text with
  | nil => simp [topWords]
  | cons c rest =>
    rw [topWords]
    split
    · simp
    · split <;> simp

theorem glue_cons (w : List Char) {ws : List (List Char)} (h : ws ≠ []) (vs : List (List Char)) :
    glue (w :: ws) vs = w :: glue ws vs := by
  cases ws with
  | nil => exact absurd rfl h
  | cons w' rest => rw [glue]

theorem glue_space {ws : List (List Char)} (h : ws ≠ []) (vs : List (List Char)) :
    glue ws ([] :: vs) = ws ++ vs := by
  induction ws with
  | nil => exact absurd rfl h
  | cons w rest ih =>
    cases rest with
    | nil => simp [glue]
    | cons w' others =>
      rw [glue_cons w (by simp), ih (by simp)]
      rfl

private theorem glue_push (c : Char) (w : List Char) (ws vs : List (List Char)) :
    glue ((c :: w) :: ws) vs = match glue (w :: ws) vs with
      | [] => [[c]]
      | word :: words => (c :: word) :: words := by
  cases ws with
  | nil => cases vs <;> rfl
  | cons w' rest => rfl

/-- The words of two texts, where the last word of the first goes on in the second. -/
theorem topWords_append {a : List Char} (h : closes r depth a = some (r', depth')) (b : List Char) :
    topWords r depth (a ++ b) = glue (topWords r depth a) (topWords r' depth' b) := by
  induction a generalizing r depth with
  | nil =>
    obtain ⟨rfl, rfl⟩ := Prod.mk.inj (Option.some.inj h)
    cases shape : topWords r depth b with
    | nil => exact absurd shape (topWords_ne_nil r depth b)
    | cons w ws => simp [topWords, glue, shape]
  | cons c rest ih =>
    rw [closes] at h
    split at h
    · exact absurd h (by simp)
    · rw [List.cons_append, topWords, topWords]
      by_cases gap : r.isGap depth c = true
      · have same : r.next isNameQuote c = r ∧ r.depth depth c = depth := by
          simp only [Region.isGap, Bool.and_eq_true, beq_iff_eq] at gap
          obtain ⟨⟨rfl, rfl⟩, rfl⟩ := gap
          exact ⟨rfl, rfl⟩
        rw [same.1, same.2] at h
        rw [if_pos gap, if_pos gap, ih h, glue_cons _ (topWords_ne_nil r depth rest)]
      · rw [if_neg gap, if_neg gap, ih h]
        cases shape : topWords (r.next isNameQuote c) (r.depth depth c) rest with
        | nil => exact absurd shape (topWords_ne_nil _ _ rest)
        | cons w ws => exact (glue_push c w ws _).symm

/-- A space between two texts separates their words. -/
theorem words_space {a : List Char} (h : Balanced a) (b : List Char) :
    words (a ++ ' ' :: b) = words a ++ words b := by
  have space : topWords .plain 0 (' ' :: b) = [] :: words b := rfl
  rw [words, topWords_append h, space, glue_space (topWords_ne_nil _ _ a)]
  rfl

/-- Inside of parentheses a text is not cut. -/
theorem topWords_inside {text : List Char} (k : Nat)
    (h : closes r depth text = some (r', depth')) : topWords r (depth + k + 1) text = [text] := by
  induction text generalizing r depth with
  | nil => rfl
  | cons c rest ih =>
    rw [closes] at h
    split at h
    · exact absurd h (by simp)
    · rename_i tied
      have deeper : r.depth (depth + (k + 1)) c = r.depth depth c + (k + 1) :=
        depth_add c (k + 1) (by simpa using tied)
      rw [topWords, not_isGap_succ, ← Nat.add_assoc] at *
      rw [if_neg Bool.false_ne_true, deeper, ← Nat.add_assoc, ih h]

/-- A text is its words with a space between each two. -/
theorem unwords_topWords (r : Region) (depth : Nat) (text : List Char) :
    unwords (topWords r depth text) = text := by
  induction text generalizing r depth with
  | nil => rfl
  | cons c rest ih =>
    rw [topWords]
    split
    · rename_i gap
      simp only [Region.isGap, Bool.and_eq_true, beq_iff_eq] at gap
      have next := ih r depth
      cases shape : topWords r depth rest with
      | nil => exact absurd shape (topWords_ne_nil r depth rest)
      | cons w ws =>
        rw [shape] at next
        simp [unwords, List.intercalate, gap.2, ← next]
    · have next := ih (r.next isNameQuote c) (r.depth depth c)
      cases shape : topWords (r.next isNameQuote c) (r.depth depth c) rest with
      | nil => exact absurd shape (topWords_ne_nil _ _ rest)
      | cons w ws =>
        rw [shape] at next
        cases ws with
        | nil => simpa [unwords, List.intercalate] using next
        | cons v vs =>
          simp only [unwords, List.intercalate] at next ⊢
          simp [← next]

end Scanning

end EagerLoad.Sql
