import EagerLoad.Proofs.Sql.Scan
import EagerLoad.Sql.Dialect
import EagerLoad.Sql.Identifier

/-! # Texts that may be joined

A tidy text ends outside quotes, does not begin with a digit and has no sign before a digit, so the
placeholders of tidy texts add up when the texts are joined. Quoted names, names in literals and
limits are tidy without placeholders. -/
namespace EagerLoad.Sql

/-- A text with a number of placeholders that may be joined with others of its kind. -/
structure Tidy (d : Dialect) (text : List Char) (n : Nat) : Prop where
  closed : Region.plain.after text = .plain
  separated : isSeparated .plain text = true
  start : startsWithDigit text = false
  count : countFrom .plain text = n
  unticked : d.numbersPlaceholders = true → '\x60' ∉ text

/-- Whether a raw text may stand among others: it ends outside quotes, has no backtick, and no sign
outside quotes is followed by a digit. -/
def standsAlone (sql : String) : Bool :=
  Region.plain.after sql.toList == .plain && !sql.toList.contains '\x60' &&
    isSeparated .plain sql.toList

/-- Whether a constant text is tidy without placeholders. -/
def isInert (text : List Char) : Bool :=
  Region.plain.after text == .plain && isSeparated .plain text && !startsWithDigit text &&
    countFrom .plain text == 0 && !text.contains '\x60'

namespace Tidy

variable {d : Dialect} {a b text : List Char} {m n : Nat}

theorem of_isInert (d : Dialect) (h : isInert text = true) : Tidy d text 0 := by
  simp only [isInert, Bool.and_eq_true, beq_iff_eq, Bool.not_eq_true', List.contains_eq_mem,
    decide_eq_false_iff_not] at h
  obtain ⟨⟨⟨⟨closed, separated⟩, start⟩, count⟩, unticked⟩ := h
  exact ⟨closed, separated, start, count, fun _ => unticked⟩

theorem nil (d : Dialect) : Tidy d [] 0 := of_isInert d rfl

theorem append (ha : Tidy d a m) (hb : Tidy d b n) : Tidy d (a ++ b) (m + n) where
  closed := by rw [Region.after_append, ha.closed, hb.closed]
  separated := by
    rw [isSeparated_append _ _ _ hb.start, ha.closed, ha.separated, hb.separated]
    rfl
  start := by
    cases a with
    | nil => exact hb.start
    | cons c rest => exact ha.start
  count := by rw [countFrom_append _ _ _ hb.start, ha.closed, ha.count, hb.count]
  unticked numbered := by
    rw [List.mem_append, not_or]
    exact ⟨ha.unticked numbered, hb.unticked numbered⟩

end Tidy

/-- A text that stays in one region of quotes holds no placeholders. -/
private theorem scan_inside (r : Region) (text : List Char) (inside : r ≠ .plain)
    (stays : ∀ c ∈ text, r.next isNameQuote c = r) :
    r.after text = r ∧ isSeparated r text = true ∧ countFrom r text = 0 := by
  induction text with
  | nil => exact ⟨rfl, rfl, rfl⟩
  | cons c rest ih =>
    have next := stays c (by simp)
    obtain ⟨after, separated, count⟩ := ih fun c found => stays c (by simp [found])
    refine ⟨?_, ?_, ?_⟩
    · rw [Region.after_cons, next, after]
    · rw [isSeparated, next, separated]
      simp [inside]
    · rw [countFrom, next, count]
      simp [inside]

/-- A text between two quotes is tidy if no character of it ends the quotes. -/
private theorem tidy_quoted (d : Dialect) (r : Region) (quote : Char) (text : List Char)
    (inside : r ≠ .plain) (opens : Region.plain.next isNameQuote quote = r)
    (closes : r.next isNameQuote quote = .plain) (sign : isSign quote = false)
    (digit : quote.isDigit = false)
    (stays : ∀ c ∈ text, r.next isNameQuote c = r)
    (unticked : d.numbersPlaceholders = true → quote ≠ '\x60' ∧ '\x60' ∉ text) :
    Tidy d (quote :: (text ++ [quote])) 0 := by
  obtain ⟨after, separated, count⟩ := scan_inside r text inside stays
  have ends : startsWithDigit [quote] = false := digit
  have silent (rest : List Char) : isPlaceholder quote rest = false := by
    simp only [isSign, Bool.or_eq_false_iff] at sign
    rw [isPlaceholder, sign.1, sign.2]
    rfl
  refine ⟨?_, ?_, digit, ?_, fun numbered => ?_⟩
  · rw [Region.after_cons, opens, Region.after_append, after, Region.after_cons, closes]
    rfl
  · rw [isSeparated, sign, opens, isSeparated_append _ _ _ ends, separated, after]
    simp [isSeparated]
  · rw [countFrom, silent, opens, countFrom_append _ _ _ ends, count, after]
    simp [countFrom, inside]
  · obtain ⟨here, there⟩ := unticked numbered
    simp [here.symm, there]

theorem isAllowed_of_fault?_eq_none (name : String) (h : Identifier.fault? name = none) :
    ∀ c ∈ name.toList, Identifier.isAllowed c = true := by
  unfold Identifier.fault? at h
  split at h
  · exact absurd h (by simp)
  · rename_i first rest shape
    split at h
    · exact absurd h (by simp)
    · split at h
      · exact absurd h (by simp)
      · rename_i found
        rw [shape]
        intro c mem
        simpa using List.find?_eq_none.mp found c mem

private theorem allowed_ne (c quote : Char) (allowed : Identifier.isAllowed c = true)
    (h : Identifier.isAllowed quote = false) : c ≠ quote := by
  intro same
  rw [same, h] at allowed
  exact Bool.false_ne_true allowed

theorem quote_of_valid (d : Dialect) (name : String) (h : Identifier.fault? name = none) :
    (d.quote name).toList = d.quoteMark :: (name.toList ++ [d.quoteMark]) := by
  have allowed := isAllowed_of_fault?_eq_none name h
  have mark : Identifier.isAllowed d.quoteMark = false := by cases d <;> rfl
  have same : (name.toList.flatMap fun c => if c = d.quoteMark then [d.quoteMark, c] else [c]) =
      name.toList := by
    have each : (name.toList.map fun c => if c = d.quoteMark then [d.quoteMark, c] else [c]) =
        name.toList.map fun c => [c] :=
      List.map_congr_left fun c found => if_neg (allowed_ne c _ (allowed c found) mark)
    rw [List.flatMap_def, each, ← List.flatMap_def]
    simp
  rw [Dialect.quote, String.toList_ofList, same]

theorem tidy_quote (d : Dialect) (name : String) (h : Identifier.fault? name = none) :
    Tidy d (d.quote name).toList 0 := by
  have allowed := isAllowed_of_fault?_eq_none name h
  rw [quote_of_valid d name h]
  refine tidy_quoted d .name _ _ (by simp) ?_ ?_ ?_ ?_ ?_ ?_
  · cases d <;> rfl
  · cases d <;> rfl
  · cases d <;> rfl
  · cases d <;> rfl
  · intro c found
    have double := allowed_ne c '\x22' (allowed c found) rfl
    have back := allowed_ne c '\x60' (allowed c found) rfl
    simp [Region.next, isNameQuote, double, back]
  · intro numbered
    refine ⟨?_, fun found => allowed_ne _ '\x60' (allowed _ found) rfl rfl⟩
    cases d with
    | postgresql => decide
    | sqlite => decide
    | mysql version => exact absurd numbered Bool.false_ne_true
    | mariadb version => exact absurd numbered Bool.false_ne_true

theorem tidy_literal (d : Dialect) (name : String) (h : Identifier.fault? name = none) :
    Tidy d ('\x27' :: (name.toList ++ ['\x27'])) 0 := by
  have allowed := isAllowed_of_fault?_eq_none name h
  refine tidy_quoted d .literal '\x27' _ (by simp) rfl rfl rfl rfl ?_ ?_
  · intro c found
    simp [Region.next, allowed_ne c '\x27' (allowed c found) rfl]
  · exact fun _ => ⟨by decide, fun found => allowed_ne _ '\x60' (allowed _ found) rfl rfl⟩

/-- Whether a character is neither a sign nor a quote. -/
def isCalm (c : Char) : Bool := !(isSign c || c == '\x27' || isNameQuote c)

private theorem scan_calm (text : List Char) (calm : ∀ c ∈ text, isCalm c = true) :
    Region.plain.after text = .plain ∧ isSeparated .plain text = true ∧
      countFrom .plain text = 0 := by
  induction text with
  | nil => exact ⟨rfl, rfl, rfl⟩
  | cons c rest ih =>
    have here := calm c (by simp)
    simp only [isCalm, isSign, Bool.not_eq_true', Bool.or_eq_false_iff, beq_eq_false_iff_ne] at here
    obtain ⟨⟨⟨question, dollar⟩, apostrophe⟩, name⟩ := here
    have next : Region.plain.next isNameQuote c = .plain := by simp [Region.next, apostrophe, name]
    obtain ⟨after, separated, count⟩ := ih fun c found => calm c (by simp [found])
    refine ⟨?_, ?_, ?_⟩
    · rw [Region.after_cons, next, after]
    · rw [isSeparated, next, separated]
      simp [isSign, question, dollar]
    · rw [countFrom, next, count]
      simp [isPlaceholder, question, dollar]

private theorem tidy_of_calm (d : Dialect) (text : List Char)
    (calm : ∀ c ∈ text, isCalm c = true) (start : startsWithDigit text = false) :
    Tidy d text 0 := by
  obtain ⟨closed, separated, count⟩ := scan_calm text calm
  exact ⟨closed, separated, start, count, fun _ found => absurd (calm _ found) (by decide)⟩

private theorem isCalm_of_isDigit (c : Char) (h : c.isDigit = true) : isCalm c = true := by
  have other (quote : Char) (hq : quote.isDigit = false) : (c == quote) = false := by
    rw [beq_eq_false_iff_ne]
    intro same
    rw [same, hq] at h
    exact Bool.false_ne_true h
  simp [isCalm, isSign, isNameQuote, other '?' rfl, other '$' rfl, other '\x27' rfl,
    other '\x22' rfl, other '\x60' rfl]

/-- A number after a word without signs and quotes holds no placeholders. -/
private theorem tidy_numbered (d : Dialect) (word : String) (n : Nat)
    (calm : word.toList.all isCalm = true)
    (start : word.toList.head?.map Char.isDigit = some false) :
    Tidy d (word ++ toString n).toList 0 := by
  have digits : ∀ c ∈ Nat.toDigits 10 n, isCalm c = true := fun c found =>
    isCalm_of_isDigit c (Nat.isDigit_of_mem_toDigits (by omega) (by omega) found)
  have text : (word ++ toString n).toList = word.toList ++ Nat.toDigits 10 n := by simp
  rw [text]
  refine tidy_of_calm d _ (fun c found => ?_) ?_
  · rw [List.mem_append] at found
    exact found.elim (List.all_eq_true.mp calm c) (digits c)
  · cases shape : word.toList with
    | nil => exact absurd start (by simp [shape])
    | cons c rest => simpa [shape] using start

theorem tidy_limitOffset (d e : Dialect) (limit offset : Option Nat) :
    Tidy d (e.limitOffset limit offset).toList 0 := by
  have limited (n : Nat) := tidy_numbered d " LIMIT " n (by decide) (by decide)
  have skipped (n : Nat) := tidy_numbered d " OFFSET " n (by decide) (by decide)
  have after (unlimited : String) (n : Nat) (h : isInert unlimited.toList = true) :
      Tidy d (unlimited ++ " OFFSET " ++ toString n).toList 0 := by
    rw [String.append_assoc, String.toList_append]
    exact (Tidy.of_isInert d h).append (skipped n)
  cases limit with
  | none =>
    cases offset with
    | none => exact Tidy.nil d
    | some n =>
      cases e with
      | postgresql => exact after "" n (by decide)
      | sqlite => exact after " LIMIT -1" n (by decide)
      | mysql version => exact after " LIMIT 18446744073709551615" n (by decide)
      | mariadb version => exact after " LIMIT 18446744073709551615" n (by decide)
  | some m =>
    cases offset with
    | none => exact limited m
    | some n =>
      have both := (limited m).append (skipped n)
      rw [← String.toList_append, ← String.append_assoc] at both
      exact both

end EagerLoad.Sql
