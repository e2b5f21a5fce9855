import Mathlib.Data.List.TakeWhile
import EagerLoad.Proofs.Sql.Tidy
import EagerLoad.Proofs.Sql.Words

/-! # Texts that are put together from words

A text is read on from the end of a word or from a space after it. It is well worded if every space
outside of quotes and parentheses begins a word that does not start with one of some characters. Well
worded texts are joined to well worded texts, and no word of theirs is a keyword with such a start. -/
namespace EagerLoad.Sql

/-- Reads a text on, being within a word or after a space; none if a word starts with one of the avoided
characters, or closes a parenthesis that the text did not open. -/
def readOn (avoid : List Char) : Region → Nat → Bool → List Char → Option (Region × Nat × Bool)
  | r, depth, fresh, [] => some (r, depth, fresh)
  | r, depth, fresh, c :: rest =>
    if r.isGap depth c then readOn avoid r depth true rest
    else if r.isLoose depth c || fresh && avoid.contains c then none
    else readOn avoid (r.next isNameQuote c) (r.depth depth c) false rest

/-- Whether a text may go on from a word or a space, and ends within a word or after a space. -/
def Worded (avoid : List Char) (fresh : Bool) (text : List Char) (ends : Bool) : Prop :=
  readOn avoid .plain 0 fresh text = some (.plain, 0, ends)

instance (avoid : List Char) (fresh : Bool) (text : List Char) (ends : Bool) :
    Decidable (Worded avoid fresh text ends) :=
  inferInstanceAs (Decidable (_ = _))

/-- Whether a word does not start with one of the avoided characters. -/
def Starts (avoid : List Char) (word : List Char) : Prop := ∀ c ∈ word.head?, c ∉ avoid

section Reading

variable {avoid : List Char} {r r' : Region} {depth depth' : Nat} {fresh mid ends : Bool}

theorem readOn_append (a b : List Char) :
    readOn avoid r depth fresh (a ++ b) = (readOn avoid r depth fresh a).bind fun place =>
      readOn avoid place.1 place.2.1 place.2.2 b := by
  induction a generalizing r depth fresh with
  | nil => rfl
  | cons c rest ih =>
    rw [List.cons_append, readOn, readOn]
    split
    · exact ih
    · split
      · rfl
      · exact ih

/-- A text that can be read on is read so inside of other parentheses. -/
theorem closes_of_readOn {text : List Char}
    (h : readOn avoid r depth fresh text = some (r', depth', ends)) :
    closes r depth text = some (r', depth') := by
  induction text generalizing r depth fresh with
  | nil =>
    obtain ⟨rfl, rfl, -⟩ := Prod.mk.injEq .. ▸ Option.some.inj h
    rfl
  | cons c rest ih =>
    rw [readOn] at h
    split at h
    · rename_i gap
      simp only [Region.isGap, Bool.and_eq_true, beq_iff_eq] at gap
      obtain ⟨⟨rfl, rfl⟩, rfl⟩ := gap
      exact ih h
    · split at h
      · exact absurd h (by simp)
      · rename_i tied
        rw [Bool.or_eq_true, not_or] at tied
        rw [closes, if_neg tied.1]
        exact ih h

theorem readOn_inside {text : List Char} (k : Nat) (h : closes r depth text = some (r', depth')) :
    readOn avoid r (depth + k + 1) false text = some (r', depth' + k + 1, false) := by
  have deeper := closes_inside (k + 1) h
  rw [← Nat.add_assoc, ← Nat.add_assoc] at deeper
  have apart := topWords_inside k h
  generalize depth + k + 1 = deep, depth' + k + 1 = deep' at deeper apart ⊢
  clear h
  induction text generalizing r deep with
  | nil =>
    obtain ⟨rfl, rfl⟩ := Prod.mk.inj (Option.some.inj deeper)
    rfl
  | cons c rest ih =>
    rw [closes] at deeper
    rw [topWords] at apart
    split at deeper
    · exact absurd deeper (by simp)
    · rename_i tied
      split at apart
      · exact absurd (congrArg List.head? apart) (by simp)
      · rename_i gap
        rw [readOn, if_neg gap, if_neg (by simpa using tied)]
        refine ih _ deeper ?_
        cases shape : topWords (r.next isNameQuote c) (r.depth deep c) rest with
        | nil => exact absurd shape (topWords_ne_nil _ _ rest)
        | cons w ws => simpa [shape] using apart

/-- The words of a text that is read on: all but the first start well, and the first does so too if it
begins after a space. -/
theorem starts_of_readOn {text : List Char}
    (h : readOn avoid r depth fresh text = some (r', depth', ends)) {w : List Char}
    {ws : List (List Char)} (cut : topWords r depth text = w :: ws) :
    (fresh = true → Starts avoid w) ∧ ∀ v ∈ ws, Starts avoid v := by
  induction text generalizing r depth fresh w ws with
  | nil =>
    obtain ⟨rfl, rfl⟩ := List.cons.inj cut
    simp [Starts]
  | cons c rest ih =>
    rw [readOn] at h
    rw [topWords] at cut
    split at h
    · rename_i gap
      rw [if_pos gap] at cut
      obtain ⟨rfl, rfl⟩ := List.cons.inj cut
      refine ⟨fun _ => by simp [Starts], fun v found => ?_⟩
      cases shape : topWords r depth rest with
      | nil => exact absurd shape (topWords_ne_nil r depth rest)
      | cons u us =>
        obtain ⟨first, others⟩ := ih h shape
        rw [shape] at found
        obtain rfl | later := List.mem_cons.mp found
        · exact first rfl
        · exact others v later
    · rename_i gap
      rw [if_neg gap] at cut
      split at h
      · exact absurd h (by simp)
      · rename_i free
        cases shape : topWords (r.next isNameQuote c) (r.depth depth c) rest with
        | nil => exact absurd shape (topWords_ne_nil _ _ rest)
        | cons u us =>
          rw [shape] at cut
          obtain ⟨rfl, rfl⟩ := List.cons.inj cut
          have allowed : r.isLoose depth c = false ∧ (fresh = true → c ∉ avoid) := by
            simpa using free
          exact ⟨fun now => by simpa [Starts] using allowed.2 now, (ih h shape).2⟩

end Reading

theorem readOn_mono {avoid fewer : List Char} (less : fewer ⊆ avoid) {r r' : Region}
    {depth depth' : Nat} {fresh ends : Bool} {text : List Char}
    (h : readOn avoid r depth fresh text = some (r', depth', ends)) :
    readOn fewer r depth fresh text = some (r', depth', ends) := by
  induction text generalizing r depth fresh with
  | nil => exact h
  | cons c rest ih =>
    rw [readOn] at h ⊢
    split at h
    · rename_i gap
      rw [if_pos gap]
      exact ih h
    · rename_i gap
      split at h
      · exact absurd h (by simp)
      · rename_i tied
        have free : ¬(r.isLoose depth c || fresh && fewer.contains c) = true := by
          simp only [Bool.or_eq_true, Bool.and_eq_true, List.contains_eq_mem, decide_eq_true_eq,
            not_or, not_and] at tied ⊢
          exact ⟨tied.1, fun now known => tied.2 now (less known)⟩
        rw [if_neg gap, if_neg free]
        exact ih h

namespace Worded

variable {avoid : List Char} {fresh mid ends : Bool} {a b text : List Char}

theorem mono {fewer : List Char} (h : Worded avoid fresh text ends) (less : fewer ⊆ avoid) :
    Worded fewer fresh text ends :=
  readOn_mono less h

theorem nil (avoid : List Char) (fresh : Bool) : Worded avoid fresh [] fresh := rfl

theorem append (ha : Worded avoid fresh a mid) (hb : Worded avoid mid b ends) :
    Worded avoid fresh (a ++ b) ends := by
  rw [Worded, readOn_append, show readOn avoid .plain 0 fresh a = _ from ha]
  exact hb

theorem balanced (h : Worded avoid fresh text ends) : Balanced text := closes_of_readOn h

/-- A balanced text may stand between any texts that open and close its parentheses. -/
theorem enclosed {opening closing : List Char} {depth : Nat}
    (opens : readOn avoid .plain 0 fresh opening = some (.plain, depth + 1, false))
    (h : Balanced text)
    (ends' : readOn avoid .plain (depth + 1) false closing = some (.plain, 0, ends)) :
    Worded avoid fresh (opening ++ text ++ closing) ends := by
  have inside : readOn avoid .plain (depth + 1) false text = some (.plain, depth + 1, false) := by
    have read := @readOn_inside avoid .plain .plain 0 0 text depth h
    rwa [Nat.zero_add] at read
  rw [Worded, List.append_assoc, readOn_append, opens, Option.bind_some, readOn_append, inside]
  exact ends'

/-- The words of a text that begins after a space all start well. -/
theorem starts (h : Worded avoid true text ends) : ∀ w ∈ words text, Starts avoid w := by
  intro w found
  unfold words at found
  cases cut : topWords .plain 0 text with
  | nil => exact absurd cut (topWords_ne_nil _ _ text)
  | cons u us =>
    obtain ⟨first, others⟩ := starts_of_readOn h cut
    rw [cut] at found
    obtain rfl | later := List.mem_cons.mp found
    · exact first rfl
    · exact others w later

end Worded

theorem Starts.ne_toList {avoid word : List Char} (h : Starts avoid word) (keyword : String)
    (avoided : keyword.toList.head?.any avoid.contains = true) : word ≠ keyword.toList := by
  rintro rfl
  obtain ⟨c, first, starts⟩ := (Option.any_eq_true _ _).mp avoided
  exact h c first (List.contains_iff_mem.mp starts)

/-- A balanced text in parentheses is one word. -/
theorem words_paren {inner : List Char} (h : Balanced inner) :
    words ('(' :: (inner ++ [')'])) = ['(' :: (inner ++ [')'])] := by
  have opens : closes .plain 0 ['('] = some (.plain, 1) := by decide
  have inside := topWords_inside 0 h
  rw [words, show '(' :: (inner ++ [')']) = ['('] ++ (inner ++ [')']) from rfl, topWords_append opens,
    topWords_append (closes_inside 1 h), inside]
  rfl

theorem balanced_paren {inner : List Char} (h : Balanced inner) :
    Balanced ('(' :: (inner ++ [')'])) := by
  have opens : closes .plain 0 ['('] = some (.plain, 1) := by decide
  rw [Balanced, show '(' :: (inner ++ [')']) = ['('] ++ (inner ++ [')']) from rfl, closes_append,
    opens, Option.bind_some, closes_append, closes_inside 1 h]
  rfl

/-- The first parentheses of a text that begin a word, with a space or the end after them. -/
theorem subselect_eq {front inner back : List Char} (begins : front = [] ∨ ∃ f, front = f ++ [' '] ∧
    Worded ['('] true f false) (h : Balanced inner) (ends : back = [] ∨ ∃ b, back = ' ' :: b) :
    subselect (front ++ '(' :: (inner ++ ')' :: back)) = inner := by
  obtain ⟨vs, one⟩ : ∃ vs, words ('(' :: (inner ++ ')' :: back)) =
      ('(' :: (inner ++ [')'])) :: vs := by
    have shape : '(' :: (inner ++ ')' :: back) = '(' :: (inner ++ [')']) ++ back := by simp
    rw [shape]
    obtain rfl | ⟨b, rfl⟩ := ends
    · exact ⟨[], by rw [List.append_nil, words_paren h]⟩
    · exact ⟨words b, by rw [words_space (balanced_paren h), words_paren h]; rfl⟩
  have found : (('(' :: (inner ++ [')'])).drop 1).dropLast = inner := by simp
  unfold subselect
  obtain rfl | ⟨f, rfl, worded⟩ := begins
  · rw [List.nil_append, one, List.find?_cons_of_pos (by simp)]
    exact found
  · have other : (words f).find? (fun w => w.head? = some '(') = none := by
      rw [List.find?_eq_none]
      intro w known
      have free := worded.starts w known
      simpa using fun first : w.head? = some '(' => free '(' first (by simp)
    have shape : f ++ [' '] ++ '(' :: (inner ++ ')' :: back) =
        f ++ ' ' :: ('(' :: (inner ++ ')' :: back)) := by simp
    rw [shape, words_space worded.balanced, one, List.find?_append, other, Option.none_or,
      List.find?_cons_of_pos (by simp)]
    exact found

/-- The first characters of the words that bound or join tests. -/
def testStarts : List Char := ['W', 'A', 'O', 'G', 'H', 'L']

/-- Whether a text is empty or begins with a space and the keyword of a clause. -/
def Ends (back : List Char) : Prop :=
  back = [] ∨ ∃ k ∈ clauseWords, ∃ rest, back = ' ' :: (k ++ ' ' :: rest)

def joined (tests : List (List Char)) : List Char := List.intercalate " AND ".toList tests

def joinedWords (tests : List (List Char)) : List (List Char) :=
  List.intercalate ["AND".toList] (tests.map words)

theorem joined_cons (t t' : List Char) (rest : List (List Char)) :
    joined (t :: t' :: rest) = t ++ ' ' :: ("AND".toList ++ ' ' :: joined (t' :: rest)) := by
  simp [joined, List.intercalate]

/-- After the first test, every other one follows an AND. -/
theorem joined_eq (t : List Char) (rest : List (List Char)) :
    joined (t :: rest) = t ++ rest.flatMap fun u => " AND ".toList ++ u := by
  induction rest generalizing t with
  | nil => simp [joined, List.intercalate]
  | cons t' others ih =>
    rw [joined_cons, ih t', List.flatMap_cons]
    simp

theorem joined_append {tests : List (List Char)} (some : tests ≠ []) (more : List (List Char)) :
    joined (tests ++ more) = joined tests ++ more.flatMap fun u => " AND ".toList ++ u := by
  cases tests with
  | nil => exact absurd rfl some
  | cons t rest => rw [List.cons_append, joined_eq, joined_eq, List.flatMap_append, List.append_assoc]

theorem mem_joined {tests : List (List Char)} {t : List Char} {c : Char} (known : t ∈ tests)
    (found : c ∈ t) : c ∈ joined tests := by
  induction tests with
  | nil => exact absurd known (by simp)
  | cons first rest ih =>
    cases rest with
    | nil =>
      obtain rfl := List.mem_singleton.mp known
      simpa [joined, List.intercalate] using found
    | cons next others =>
      rw [joined_cons, List.mem_append]
      obtain rfl | later := List.mem_cons.mp known
      · exact .inl found
      · exact .inr (by simp [ih later])

theorem joinedWords_cons (t t' : List Char) (rest : List (List Char)) :
    joinedWords (t :: t' :: rest) = words t ++ "AND".toList :: joinedWords (t' :: rest) := by
  simp [joinedWords, List.intercalate]

section Cut

variable {separator : List Char} {ws : List (List Char)} (free : ∀ w ∈ ws, w ≠ separator)
include free

theorem cutAt_free : cutAt separator ws = [ws] := by
  induction ws with
  | nil => rfl
  | cons w rest ih =>
    rw [cutAt, if_neg (free w List.mem_cons_self), ih fun u found => free u (List.mem_cons_of_mem w found)]

theorem cutAt_append (vs : List (List Char)) :
    cutAt separator (ws ++ separator :: vs) = ws :: cutAt separator vs := by
  induction ws with
  | nil => rw [List.nil_append, cutAt, if_pos rfl]
  | cons w rest ih =>
    rw [List.cons_append, cutAt, if_neg (free w List.mem_cons_self),
      ih fun u found => free u (List.mem_cons_of_mem w found)]

end Cut

section Tests

variable {tests : List (List Char)} (worded : ∀ t ∈ tests, Worded testStarts true t false)
include worded

theorem balanced_joined : Balanced (joined tests) := by
  induction tests with
  | nil => rfl
  | cons t rest ih =>
    have here := (worded t List.mem_cons_self).balanced
    cases rest with
    | nil => simpa [joined, List.intercalate] using here
    | cons t' others =>
      have later := ih fun u found => worded u (List.mem_cons_of_mem t found)
      have between : Balanced " AND ".toList := by decide
      rw [joined_cons]
      simpa using balanced_append here (balanced_append between later)

theorem words_joined (some : tests ≠ []) : words (joined tests) = joinedWords tests := by
  induction tests with
  | nil => exact absurd rfl some
  | cons t rest ih =>
    cases rest with
    | nil => simp [joined, joinedWords, List.intercalate]
    | cons t' others =>
      have later := ih (fun u found => worded u (List.mem_cons_of_mem t found)) (by simp)
      have keyword : words "AND".toList = ["AND".toList] := by decide
      rw [joined_cons, words_space (worded t List.mem_cons_self).balanced,
        words_space (by decide), keyword, later, joinedWords_cons]
      rfl

/-- Between tests stands AND, and no other keyword stands in them. -/
theorem mem_joinedWords {w : List Char} (found : w ∈ joinedWords tests) :
    w = "AND".toList ∨ Starts testStarts w := by
  induction tests with
  | nil => exact absurd found (by simp [joinedWords, List.intercalate])
  | cons t rest ih =>
    have here := (worded t List.mem_cons_self).starts
    cases rest with
    | nil => exact .inr (here w (by simpa [joinedWords, List.intercalate] using found))
    | cons t' others =>
      rw [joinedWords_cons, List.mem_append, List.mem_cons] at found
      obtain own | rfl | later := found
      · exact .inr (here w own)
      · exact .inl rfl
      · exact ih (fun u known => worded u (List.mem_cons_of_mem t known)) later

theorem cutAt_joinedWords (some : tests ≠ []) :
    cutAt "AND".toList (joinedWords tests) = tests.map words := by
  induction tests with
  | nil => exact absurd rfl some
  | cons t rest ih =>
    have free : ∀ w ∈ words t, w ≠ "AND".toList := fun w found =>
      ((worded t List.mem_cons_self).starts w found).ne_toList "AND" (by decide)
    cases rest with
    | nil => simpa [joinedWords, List.intercalate] using cutAt_free free
    | cons t' others =>
      have later := ih (fun u found => worded u (List.mem_cons_of_mem t found)) (by simp)
      rw [joinedWords_cons, cutAt_append free, later]
      rfl

end Tests

/-- Whether the WHERE of a text joins just the given tests by AND, and nothing by OR. -/
def Requires (text : List Char) (tests : List (List Char)) : Prop :=
  whereTests text = tests ∧ "OR".toList ∉ whereWords text

/-- Whether a subquery has just the given tests, in a WHERE of its own or, without one, in that of the
table that it derives its rows from. -/
def Scoped (text : List Char) (tests : List (List Char)) : Prop :=
  Requires text tests ∨ Requires text [] ∧ Requires (subselect text) tests

theorem Ends.append {a b : List Char} (ha : Ends a) (hb : Ends b) : Ends (a ++ b) := by
  obtain rfl | ⟨k, known, rest, rfl⟩ := ha
  · exact hb
  · exact .inr ⟨k, known, rest ++ b, by simp⟩

/-- What a WHERE and its tests are written as; nothing without tests. -/
def whereText (tests : List (List Char)) : List Char :=
  if tests = [] then [] else " WHERE ".toList ++ joined tests

theorem whereText_append {tests : List (List Char)} (some : tests ≠ []) (more : List (List Char)) :
    whereText (tests ++ more) = whereText tests ++ more.flatMap fun u => " AND ".toList ++ u := by
  have either : tests ++ more ≠ [] := fun none => some (List.append_eq_nil_iff.mp none).1
  rw [whereText, whereText, if_neg either, if_neg some, joined_append some, List.append_assoc]

/-- No clause starts within the tests. -/
private theorem notMem_clauseWords {tests : List (List Char)}
    (worded : ∀ t ∈ tests, Worded testStarts true t false) {w : List Char}
    (found : w ∈ joinedWords tests) : w ∉ clauseWords := by
  obtain rfl | starts := mem_joinedWords worded found
  · decide
  · have heads : ∀ k ∈ clauseWords, k.head?.any testStarts.contains = true := by decide
    intro known
    obtain ⟨c, first, avoided⟩ := (Option.any_eq_true _ _).mp (heads w known)
    exact starts c first (List.contains_iff_mem.mp avoided)

/-- The words of the tests end where the next clause starts. -/
private theorem takeWhile_words_joined {tests : List (List Char)} {back : List Char}
    (worded : ∀ t ∈ tests, Worded testStarts true t false) (some : tests ≠ []) (ends : Ends back) :
    (words (joined tests ++ back)).takeWhile (fun w => decide (w ∉ clauseWords)) =
      joinedWords tests := by
  have inner : ∀ w ∈ joinedWords tests, decide (w ∉ clauseWords) = true := fun w found =>
    decide_eq_true (notMem_clauseWords worded found)
  have own := words_joined worded some
  obtain rfl | ⟨k, known, rest, rfl⟩ := ends
  · rw [List.append_nil, own, List.takeWhile_eq_self_iff.mpr inner]
  · have single : ∀ k ∈ clauseWords, Balanced k ∧ words k = [k] := by decide
    have cut : words (joined tests ++ ' ' :: (k ++ ' ' :: rest)) =
        joinedWords tests ++ k :: words rest := by
      rw [words_space (balanced_joined worded), own, words_space (single k known).1,
        (single k known).2]
      rfl
    rw [cut, List.takeWhile_append_of_pos inner, List.takeWhile_cons_of_neg (by simpa using known),
      List.append_nil]

/-- The words of a WHERE are those of its tests if no other WHERE stands before it and the next clause
follows. -/
theorem whereWords_of_parts {front back : List Char} {tests : List (List Char)}
    (begins : Worded ['W'] true front false)
    (worded : ∀ t ∈ tests, Worded testStarts true t false) (ends : Ends back)
    (absent : Worded ['W'] false back false) :
    whereWords (front ++ whereText tests ++ back) = joinedWords tests := by
  unfold whereWords whereText
  split
  · rename_i none
    have free : ∀ w ∈ words (front ++ back), decide (w ≠ "WHERE".toList) = true := by
      intro w found
      have all := (begins.append absent).starts w found
      simpa using all.ne_toList "WHERE" (by decide)
    rw [List.append_nil, List.dropWhile_eq_nil_iff.mpr free, none]
    rfl
  · rename_i some
    have before : ∀ w ∈ words front, decide (w ≠ "WHERE".toList) = true := fun w found => by
      simpa using (begins.starts w found).ne_toList "WHERE" (by decide)
    have keyword : words "WHERE".toList = ["WHERE".toList] := by decide
    have all : words (front ++ (" WHERE ".toList ++ joined tests) ++ back) =
        words front ++ "WHERE".toList :: words (joined tests ++ back) := by
      have shape : front ++ (" WHERE ".toList ++ joined tests) ++ back =
          front ++ ' ' :: ("WHERE".toList ++ ' ' :: (joined tests ++ back)) := by simp
      rw [shape, words_space begins.balanced, words_space (by decide), keyword]
      rfl
    rw [all, List.dropWhile_append_of_pos before, List.dropWhile_cons_of_neg (by simp),
      List.drop_one, List.tail_cons, takeWhile_words_joined worded some ends]

/-- Whether a text has a WHERE of just the given tests, with no other before it or after it. -/
def Guarded (tests : List (List Char)) (text : List Char) : Prop :=
  ∃ front back, text = front ++ whereText tests ++ back ∧ Worded ['W'] true front false ∧
    (∀ t ∈ tests, Worded testStarts true t false) ∧ Ends back ∧ Worded ['W'] false back false

namespace Guarded

variable {tests : List (List Char)} {text : List Char}

/-- The tests of a statement are read off it as they were written, and OR joins none of them. -/
theorem requires (h : Guarded tests text) : Requires text tests := by
  obtain ⟨front, back, rfl, begins, worded, ends, absent⟩ := h
  rw [Requires, whereTests, whereWords_of_parts begins worded ends absent]
  constructor
  · cases tests with
    | nil => rfl
    | cons t rest =>
      have nonempty : joinedWords (t :: rest) ≠ [] := by
        rw [← words_joined worded (by simp)]
        exact topWords_ne_nil _ _ _
      rw [if_neg nonempty, cutAt_joinedWords worded (by simp), List.map_map]
      exact List.map_id'' (fun u => unwords_topWords .plain 0 u) (t :: rest)
  · intro found
    obtain same | starts := mem_joinedWords worded found
    · exact absurd same (by decide)
    · exact starts.ne_toList "OR" (by decide) rfl

theorem balanced (h : Guarded tests text) : Balanced text := by
  obtain ⟨front, back, rfl, begins, worded, -, absent⟩ := h
  have clause : Balanced (whereText tests) := by
    unfold whereText
    split
    · rfl
    · have keyword : Balanced " WHERE ".toList := by decide
      exact balanced_append keyword (balanced_joined worded)
  exact balanced_append (balanced_append begins.balanced clause) absent.balanced

end Guarded

end EagerLoad.Sql
