import EagerLoad.Proofs.Sql.Numbered
import EagerLoad.Proofs.Sql.Tokens
import EagerLoad.Proofs.Sql.WordedDraft

/-! # Drafts without adjacent quotes

In a spaced draft no name and no literal stands right after another. A draft that is also written from the
vocabulary, without raw texts, becomes a text of fixed words, valid names and literals of such names. -/
namespace EagerLoad.Sql

/-- Whether the text of a step begins with a quote and whether it ends with one, if it has a text. -/
def Step.quotes? : Step → Option (Bool × Bool)
  | .text sql => if sql = "" then none else some (sql.toList.head? == some '\x27', false)
  | .name _ => some (true, true)
  | .bind _ | .raw _ _ | .fragment _ => some (false, false)
  | .require _ | .notice _ | .consult _ _ | .fail _ => none

/-- Whether a text begins with something else than a literal. -/
def beginsPlain (sql : String) : Bool := sql.toList.head?.any (· != '\x27')

namespace Draft

/-- Whether no quote is opened right after one that was closed, as one may be before the draft. -/
def Spaced : Bool → Draft → Prop
  | _, [] => True
  | closed, step :: rest =>
    match step.quotes? with
    | none => Spaced closed rest
    | some (opens, closes) => ¬(closed = true ∧ opens = true) ∧ Spaced closes rest

namespace Spaced

variable {closed : Bool} {a b rest : Draft}

theorem nil : Spaced closed [] := trivial

theorem silent {step : Step} (h : step.quotes? = none) (later : Spaced closed rest) :
    Spaced closed (step :: rest) := by
  rw [Spaced, h]
  exact later

theorem word {sql : String} (plain : beginsPlain sql = true) (later : Spaced false rest) :
    Spaced closed (.text sql :: rest) := by
  have quotes : (Step.text sql).quotes? = some (false, false) := by
    unfold beginsPlain at plain
    cases shape : sql.toList with
    | nil => exact absurd plain (by simp [shape])
    | cons c others =>
      have some : sql ≠ "" := by
        rintro rfl
        exact absurd shape (by simp)
      have other : c ≠ '\x27' := by simpa [shape] using plain
      simp [Step.quotes?, some, shape, other]
  rw [Spaced, quotes]
  exact ⟨by simp, later⟩

theorem loosen (h : Spaced true a) (closed : Bool) : Spaced closed a := by
  induction a with
  | nil => trivial
  | cons step rest ih =>
    rw [Spaced] at h ⊢
    split
    · rename_i quotes
      rw [quotes] at h
      exact ih h
    · rename_i opens closes quotes
      rw [quotes] at h
      exact ⟨fun both => h.1 ⟨rfl, both.2⟩, h.2⟩

/-- A text that may be empty is followed by a draft that may stand after a quote. -/
theorem optional {sql : String} (plain : sql = "" ∨ beginsPlain sql = true)
    (later : Spaced true rest) : Spaced true (.text sql :: rest) := by
  obtain rfl | plain := plain
  · exact silent rfl later
  · exact word plain (later.loosen false)

theorem name (identifier : String) (later : Spaced true rest) :
    Spaced false (.name identifier :: rest) :=
  ⟨by simp, later⟩

theorem bind (value : DbValue) (later : Spaced false rest) : Spaced closed (.bind value :: rest) :=
  ⟨by simp, later⟩

theorem after_text {sql : String} (some : sql ≠ "") (h : Spaced closed (.text sql :: rest)) :
    Spaced false rest := by
  rw [Spaced, Step.quotes?, if_neg some] at h
  exact h.2

theorem after_silent {step : Step} (none : step.quotes? = none) (h : Spaced closed (step :: rest)) :
    Spaced closed rest := by
  rwa [Spaced, none] at h

theorem after_name {identifier : String} (h : Spaced closed (.name identifier :: rest)) :
    closed = false ∧ Spaced true rest :=
  ⟨by simpa using h.1, h.2⟩

/-- A pair opens a quote, and ends with one. -/
theorem after_pair {source column : String} (some : column ≠ "")
    (h : Spaced closed (Columns.pair source column ++ rest)) : closed = false ∧ Spaced true rest := by
  have literal : Spaced closed (.text "'" :: .text column :: .text "', " :: .name source ::
    .text "." :: .name column :: rest) := h
  have closing := (literal.after_text (by decide)).after_text some
  have names := (closing.after_text (by decide)).after_name.2
  exact ⟨by simpa using literal.1, (names.after_text (by decide)).after_name.2⟩

theorem append (ha : Spaced closed a) (hb : Spaced true b) : Spaced closed (a ++ b) := by
  induction a generalizing closed with
  | nil => exact hb.loosen closed
  | cons step rest ih =>
    rw [List.cons_append]
    unfold Spaced at ha ⊢
    split at ha
    · exact ih ha
    · exact ⟨ha.1, ih ha.2⟩

theorem separated {separator : String} {drafts : List Draft} (plain : beginsPlain separator = true)
    (h : ∀ draft ∈ drafts, Spaced false draft) : Spaced false (Draft.separated separator drafts) :=
  holds_separated nil (fun here there => here.append (word plain there)) h

theorem flatMap {f : α → Draft} {items : List α} (h : ∀ item ∈ items, Spaced true (f item)) :
    Spaced true (items.flatMap f) := holds_flatMap nil append h

theorem andThen {x : Except CompileError α} {next : α → Draft}
    (h : ∀ a, x = .ok a → Spaced closed (next a)) : Spaced closed (Draft.andThen x next) :=
  holds_andThen (fun _ => silent rfl nil) h

theorem bindList (values : List DbValue) : Spaced false (Draft.bindList values) := by
  refine separated (by decide) fun draft found => ?_
  obtain ⟨value, -, rfl⟩ := List.mem_map.mp found
  exact bind value nil

theorem qualified (table column : String) : Spaced false (Draft.qualified table column) :=
  name table (word (by decide) (name column nil))

theorem column (qualifier : Option String) (column : String) :
    Spaced false (Draft.column qualifier column) := by
  unfold Draft.column
  split
  · exact qualified _ _
  · exact qualified _ _
  · exact name column nil

end Spaced
end Draft

section Spelling

variable {mark : Char} {closed : Bool} {rest : List Char}

/-- The words of the vocabulary with literals in them. -/
private def arrayWords : List String :=
  ["), '[]'::json)", "), '[]')", "COALESCE(CONCAT('[', GROUP_CONCAT(", " SEPARATOR ','), ']'), '[]')"]

private theorem vocabulary_arrays : ∀ word ∈ vocabulary, word.toList.contains '\x27' = true →
    word ∈ arrayWords := by
  decide +kernel

/-- A word that stands before the literal of an array, or at the end. -/
private theorem spelled_other (word : String) (known : word ∈ otherWords)
    (h : Spelled mark false rest) : Spelled mark closed (word.toList ++ rest) :=
  .word word (fixed_of_other known) (by rintro rfl; revert known; decide) h

private theorem spelled_array (array : String) (known : array ∈ arrayLiterals)
    (h : Spelled mark true rest) :
    Spelled mark false ('\x27' :: (array.toList ++ '\x27' :: rest)) :=
  .literal (.inl known) h

/-- A word of the vocabulary is spelled, with the literals of empty arrays in it. -/
theorem Spelled.vocabulary {word : String} (known : word ∈ vocabulary) (some : word ≠ "")
    (h : Spelled mark false rest) : Spelled mark closed (word.toList ++ rest) := by
  have closing : Spelled mark true (")".toList ++ rest) :=
    .word ")" (fixed_of_vocabulary (by decide) (by decide)) (by decide) h
  have comma {closed : Bool} {rest : List Char} (h : Spelled mark false rest) :
      Spelled mark closed ("), ".toList ++ rest) :=
    spelled_other "), " (by decide) h
  cases plain : word.toList.contains '\x27' with
  | false => exact .word word (fixed_of_vocabulary known plain) some h
  | true =>
    have array := vocabulary_arrays word known plain
    simp only [arrayWords, List.mem_cons, List.not_mem_nil, or_false] at array
    obtain rfl | rfl | rfl | rfl := array
    · exact comma (spelled_array "[]" (by decide) (spelled_other "::json)" (by decide) h))
    · exact comma (spelled_array "[]" (by decide) closing)
    · have shape : "COALESCE(CONCAT('[', GROUP_CONCAT(".toList ++ rest =
          "COALESCE(CONCAT(".toList ++
            '\x27' :: ("[".toList ++ '\x27' :: (", GROUP_CONCAT(".toList ++ rest)) := by simp
      rw [shape]
      exact spelled_other _ (by decide)
        (spelled_array "[" (by decide) (spelled_other ", GROUP_CONCAT(" (by decide) h))
    · have shape : " SEPARATOR ','), ']'), '[]')".toList ++ rest = " SEPARATOR ".toList ++
          '\x27' :: (",".toList ++ '\x27' :: ("), ".toList ++
            '\x27' :: ("]".toList ++ '\x27' :: ("), ".toList ++
              '\x27' :: ("[]".toList ++ '\x27' :: (")".toList ++ rest)))))) := by simp
      rw [shape]
      exact spelled_other _ (by decide) (spelled_array "," (by decide) (comma
        (spelled_array "]" (by decide) (comma (spelled_array "[]" (by decide) closing)))))

theorem fixed_toString (n : Nat) : Fixed (toString n).toList := by
  have digits : (toString n).toList = Nat.toDigits 10 n := by simp
  rw [digits, ← List.append_nil (Nat.toDigits 10 n)]
  exact .number n .nil

theorem Fixed.beginsPlain {sql : String} (h : Fixed sql.toList) :
    sql = "" ∨ Sql.beginsPlain sql = true := by
  cases shape : sql.toList with
  | nil => exact .inl (by simpa using shape)
  | cons c rest =>
    have plain := h.unquoted c (by simp [shape])
    have other : c ≠ '\x27' := by
      rintro rfl
      exact absurd plain (by decide)
    exact .inr (by simp [Sql.beginsPlain, shape, other])

/-- Limits and offsets are words and numbers. -/
theorem fixed_limitOffset (d : Dialect) (limit offset : Option Nat) :
    Fixed (d.limitOffset limit offset).toList := by
  have other (word : String) (known : word ∈ otherWords) : Fixed word.toList :=
    fixed_word word (fixed_of_other known)
  have limited (n : Nat) : Fixed (" LIMIT " ++ toString n).toList := by
    rw [String.toList_append]
    exact (other " LIMIT " (by decide)).append (fixed_toString n)
  have after (before : String) (fixed : Fixed before.toList) (n : Nat) :
      Fixed (before ++ " OFFSET " ++ toString n).toList := by
    rw [String.toList_append, String.toList_append]
    exact (fixed.append (other " OFFSET " (by decide))).append (fixed_toString n)
  cases limit with
  | some m =>
    cases offset with
    | none => exact limited m
    | some n => exact after _ (limited m) n
  | none =>
    cases offset with
    | none => exact .nil
    | some n =>
      cases d with
      | postgresql => exact after "" .nil n
      | sqlite => exact after " LIMIT -1" (other _ (by decide)) n
      | mysql _ | mariadb _ => exact after " LIMIT 18446744073709551615" (other _ (by decide)) n

end Spelling

theorem spelled_name (d : Dialect) {name : String} {rest : List Char}
    (valid : (Step.name name).failure? = none) (h : Spelled d.quoteMark true rest) :
    Spelled d.quoteMark false ((d.quote name).toList ++ rest) := by
  have sound : Identifier.fault? name = none := by simpa [Step.failure?] using valid
  rw [quote_of_valid d name sound, List.cons_append, List.append_assoc]
  exact .name sound h

/-- A pair is a literal of the column's name and a reference to the column. -/
theorem spelled_pair (d : Dialect) {source column : String} {rest : Draft}
    (valid : (Step.name source).failure? = none) (sound : Identifier.fault? column = none)
    (h : Spelled d.quoteMark true (rest.text d)) :
    Spelled d.quoteMark false ((Columns.pair source column ++ rest).text d) := by
  have text : (Columns.pair source column ++ rest).text d =
      '\x27' :: (column.toList ++ '\x27' :: (", ".toList ++ ((d.quote source).toList ++
        (".".toList ++ ((d.quote column).toList ++ rest.text d))))) := by
    simp [Columns.pair, Draft.qualified, Draft.text_cons, Step.sql]
  have second : (Step.name column).failure? = none := by simpa [Step.failure?] using sound
  have point : "." ∈ fixedWords := fixed_of_vocabulary (by decide) (by decide)
  have comma : ", " ∈ fixedWords := fixed_of_vocabulary (by decide) (by decide)
  rw [text]
  refine .literal (.inr sound) (.word ", " comma (by decide) (spelled_name d valid ?_))
  exact .word "." point (by decide) (spelled_name d second h)

/-- A spaced draft without raw texts becomes a spelled text. -/
theorem spelled_of_written (d : Dialect) {draft : Draft} (written : Draft.Written .rawless draft)
    (complete : draft.failure? = none) {closed : Bool} (spaced : Draft.Spaced closed draft) :
    Spelled d.quoteMark closed (draft.text d) := by
  induction written generalizing closed with
  | nil => exact .nil closed
  | @word sql rest known _ ih =>
    rw [Draft.failure?_cons] at complete
    rw [Draft.text_cons]
    by_cases empty : sql = ""
    · subst empty
      exact ih complete.2 spaced
    · exact .vocabulary known empty (ih complete.2 (spaced.after_text empty))
  | @limit rest e limit offset _ ih =>
    rw [Draft.failure?_cons] at complete
    rw [Draft.text_cons]
    by_cases empty : e.limitOffset limit offset = ""
    · rw [empty] at spaced ⊢
      exact ih complete.2 spaced
    · exact .run (by simpa [Step.sql] using empty) (fixed_limitOffset e limit offset)
        (ih complete.2 (spaced.after_text empty))
  | name identifier _ ih =>
    rw [Draft.failure?_cons] at complete
    obtain ⟨rfl, later⟩ := spaced.after_name
    rw [Draft.text_cons]
    exact spelled_name d complete.1 (ih complete.2 later)
  | bind value _ ih =>
    rw [Draft.failure?_cons] at complete
    rw [Draft.text_cons]
    exact .word "?" (fixed_of_other (by decide)) (by decide) (ih complete.2 spaced.2)
  | @silent step rest h _ ih =>
    rw [Draft.failure?_cons] at complete
    rw [Draft.text_cons]
    have wordless : step.sql d = "" ∧ step.quotes? = none := by
      cases step <;> first | exact ⟨rfl, rfl⟩ | exact absurd h (by simp [Step.isSilent])
    rw [wordless.1]
    exact ih complete.2 (spaced.after_silent wordless.2)
  | consult _ _ ih =>
    rw [Draft.failure?_cons] at complete
    rw [Draft.text_cons]
    exact ih complete.2 spaced
  | @pair rest source column _ ih =>
    rw [Draft.failure?_append] at complete
    obtain ⟨names, others⟩ := complete
    simp only [Columns.pair, Draft.qualified, Draft.failure?_append, Draft.failure?_cons] at names
    have sound : Identifier.fault? column = none := by simpa [Step.failure?] using names.2.2.2.1
    have some : column ≠ "" := by
      rintro rfl
      exact absurd sound (by decide)
    obtain ⟨rfl, later⟩ := spaced.after_pair some
    exact spelled_pair d names.2.1 sound (ih others later)
  | raw values h _ ih => exact absurd h id
  | @constant lead test rest follows known _ ih =>
    rw [Draft.failure?_cons, Draft.failure?_cons] at complete
    rw [Draft.text_cons, Draft.text_cons]
    have leads_some : ∀ lead ∈ leads, lead ∈ vocabulary ∧ lead ≠ "" := by decide
    have tests_some : ∀ test ∈ constantTests, test ≠ "" := by decide
    obtain ⟨opens, some⟩ := leads_some lead follows
    have other := tests_some test known
    have later := (spaced.after_text some).after_text other
    exact .vocabulary opens some (.word test (fixed_of_test known) other (ih complete.2.2 later))

section Numbering

private theorem after_unquoted {text : List Char} (h : ∀ c ∈ text, isQuote c = false) :
    Region.plain.after text = .plain := by
  induction text with
  | nil => rfl
  | cons c rest ih =>
    have here := h c List.mem_cons_self
    simp only [isQuote, Bool.or_eq_false_iff, beq_eq_false_iff_ne] at here
    have stays : Region.plain.next isNameQuote c = .plain := by simp [Region.next, here]
    rw [Region.after_cons, stays, ih fun x found => h x (List.mem_cons_of_mem c found)]

private theorem unticked_of_unquoted {text : List Char} (h : ∀ c ∈ text, isQuote c = false) :
    '\x60' ∉ text :=
  fun found => absurd (h _ found) (by decide)

/-- Numbered placeholders are fixed words and numbers. -/
theorem Fixed.numbered {text : List Char} (h : Fixed text) (i : Nat) :
    Fixed (numberFrom .plain i text) := by
  have split {a : List Char} (fixed : Fixed a) (i : Nat) (b : List Char) :
      ∃ j, numberFrom .plain i (a ++ b) = numberFrom .plain i a ++ numberFrom .plain j b := by
    obtain ⟨j, same⟩ := numberFrom_append (unticked_of_unquoted fixed.unquoted) (r := .plain) i b
    rw [after_unquoted fixed.unquoted] at same
    exact ⟨j, same⟩
  induction h generalizing i with
  | nil => exact .nil
  | @word word rest known _ ih =>
    obtain ⟨j, same⟩ := split (fixed_word word known) i rest
    rw [same]
    refine Fixed.append ?_ (ih j)
    by_cases sign : '?' ∈ word.toList
    · obtain rfl := word_of_question word known sign
      exact (fixed_word "$" (fixed_of_other (by decide))).append (.number (i + 1) .nil)
    · rw [numberFrom_of_notMem sign]
      exact fixed_word word known
  | @number n rest _ ih =>
    have digits : Fixed (Nat.toDigits 10 n) := by
      rw [← List.append_nil (Nat.toDigits 10 n)]
      exact .number n .nil
    have plain : '?' ∉ Nat.toDigits 10 n := fun found =>
      absurd (Nat.isDigit_of_mem_toDigits (by omega) (by omega) found) (by decide)
    obtain ⟨j, same⟩ := split digits i rest
    rw [same, numberFrom_of_notMem plain]
    exact .number n (ih j)

private theorem numberFrom_ne_nil {text : List Char} (some : text ≠ []) (i : Nat) :
    numberFrom .plain i text ≠ [] := by
  cases text with
  | nil => exact absurd rfl some
  | cons c rest =>
    rw [numberFrom]
    split <;> simp

/-- What stands in quotes is not numbered, and ends outside of them. -/
private theorem numberFrom_quoted {quote : Char} {contents : List Char}
    (tidy : Tidy .postgresql (quote :: (contents ++ [quote])) 0) (apart : quote ≠ '?')
    (plain : '?' ∉ contents) (i : Nat) (rest : List Char) :
    ∃ j, numberFrom .plain i (quote :: (contents ++ quote :: rest)) =
      quote :: (contents ++ quote :: numberFrom .plain j rest) := by
  have absent : '?' ∉ quote :: (contents ++ [quote]) := by simp [apart.symm, plain]
  obtain ⟨j, same⟩ := numberFrom_append (tidy.unticked rfl) (r := .plain) i rest
  rw [tidy.closed, numberFrom_of_notMem absent] at same
  exact ⟨j, by simpa using same⟩

private theorem question_notMem {name : String} (valid : Identifier.fault? name = none) :
    '?' ∉ name.toList :=
  fun found => absurd (isAllowed_of_fault?_eq_none name valid _ found) (by decide)

/-- A spelled text stays so when its placeholders are numbered. -/
theorem Spelled.numbered {closed : Bool} {text : List Char} (h : Spelled '\x22' closed text) (i : Nat) :
    Spelled '\x22' closed (numberFrom .plain i text) := by
  induction h generalizing i with
  | nil closed => exact .nil closed
  | @run closed text rest some fixed _ ih =>
    obtain ⟨j, same⟩ := numberFrom_append (unticked_of_unquoted fixed.unquoted) (r := .plain) i rest
    rw [after_unquoted fixed.unquoted] at same
    rw [same]
    exact .run (numberFrom_ne_nil some i) (fixed.numbered i) (ih j)
  | @name name rest valid _ ih =>
    have tidy : Tidy .postgresql ('\x22' :: (name.toList ++ ['\x22'])) 0 :=
      quote_of_valid .postgresql name valid ▸ tidy_quote .postgresql name valid
    obtain ⟨j, same⟩ := numberFrom_quoted tidy (by decide) (question_notMem valid) i rest
    rw [same]
    exact .name valid (ih j)
  | @literal contents rest known _ ih =>
    have quoted : Tidy .postgresql ('\x27' :: (contents.toList ++ ['\x27'])) 0 ∧
        '?' ∉ contents.toList := by
      obtain array | valid := known
      · have arrays : ∀ part ∈ arrayLiterals, isInert ('\x27' :: (part.toList ++ ['\x27'])) = true ∧
            '?' ∉ part.toList := by decide
        exact ⟨.of_isInert _ (arrays contents array).1, (arrays contents array).2⟩
      · exact ⟨tidy_literal _ contents valid, question_notMem valid⟩
    obtain ⟨j, same⟩ := numberFrom_quoted quoted.1 (by decide) quoted.2 i rest
    rw [same]
    exact .literal known (ih j)

theorem Spelled.finished {d : Dialect} {f : Fragment} (h : Spelled d.quoteMark false f.sql.toList) :
    Spelled d.quoteMark false (Statement.ofFragment d f).sql.toList := by
  rw [toList_ofFragment, render]
  split
  · rename_i numbered
    have double : d.quoteMark = '\x22' := by
      cases d with
      | postgresql => rfl
      | sqlite | mysql _ | mariadb _ => exact absurd numbered Bool.false_ne_true
    rw [double] at h ⊢
    exact h.numbered 0
  · exact h

end Numbering

theorem spelled_of_ofDraft {d : Dialect} {draft : Draft} {s : Statement}
    (done : Statement.ofDraft d draft = .ok s) (written : Draft.Written .rawless draft)
    (spaced : Draft.Spaced false draft) : Spelled d.quoteMark false s.sql.toList := by
  obtain ⟨complete, rfl⟩ := (Draft.ofDraft_eq_ok_iff d draft s).mp done
  exact (spelled_of_written d written complete spaced).finished

end EagerLoad.Sql
