import EagerLoad.Entity.Selection
import EagerLoad.Proofs.Sql.Draft
import EagerLoad.Proofs.Sql.Tidy
import EagerLoad.Text.Occurrence

/-! # What follows SELECT

A select list begins with a quoted column, a subquery in parentheses, a constant or a call of a function. A
draft writes SELECT by a few words only, and what it writes after each of them has to begin like that. -/
namespace EagerLoad.Sql

open Draft

/-- How the items of select lists begin. -/
def itemOpenings (d : Dialect) : List (List Char) :=
  [[d.quoteMark], ['('], ['1'], "COUNT(".toList, "SUM(".toList, "AVG(".toList, "MIN(".toList, "MAX(".toList,
    d.objectFunction.toList ++ ['('], d.arrayAggregate.1.toList]

/-- Whether a text begins with an item of a select list. -/
def BeginsItem (d : Dialect) (text : List Char) : Prop := ∃ opening ∈ itemOpenings d, opening <+: text

section Items

variable {d : Dialect} {text : List Char}

theorem BeginsItem.append (begins : BeginsItem d text) (more : List Char) :
    BeginsItem d (text ++ more) := by
  obtain ⟨opening, known, within⟩ := begins
  exact ⟨opening, known, within.trans (List.prefix_append _ _)⟩

theorem BeginsItem.of_mem {opening : List Char} (known : opening ∈ itemOpenings d) (rest : List Char) :
    BeginsItem d (opening ++ rest) := ⟨opening, known, List.prefix_append _ _⟩

theorem BeginsItem.name (name : String) (rest : Draft) :
    BeginsItem d (Draft.text d (.name name :: rest)) := by
  refine ⟨[d.quoteMark], List.mem_cons_self, ?_⟩
  simp [Step.sql, Dialect.quote]

theorem BeginsItem.separated {drafts : List Draft} (some : drafts ≠ [])
    (each : ∀ draft ∈ drafts, BeginsItem d (Draft.text d draft)) (separator : String) :
    BeginsItem d (Draft.text d (Draft.separated separator drafts)) := by
  cases drafts with
  | nil => exact absurd rfl some
  | cons draft rest =>
    have first := each draft List.mem_cons_self
    cases rest with
    | nil => exact first
    | cons next others =>
      rw [Draft.separated, text_append]
      · exact first.append _
      · simp

/-- No item begins with a blank, as a FROM does that follows an empty select list. -/
theorem not_beginsItem_blank (text : List Char) : ¬BeginsItem d (' ' :: text) := by
  have apart : ∀ opening ∈ itemOpenings d, opening.head? ≠ none ∧ opening.head? ≠ some ' ' := by
    have object : (d.objectFunction.toList ++ ['(']).head? ≠ none ∧
        (d.objectFunction.toList ++ ['(']).head? ≠ some ' ' := by
      cases d <;> simp [Dialect.objectFunction]
    have array : d.arrayAggregate.1.toList.head? ≠ none ∧
        d.arrayAggregate.1.toList.head? ≠ some ' ' := by
      unfold Dialect.arrayAggregate
      split
      · decide
      · decide
      · split <;> decide
    have mark : d.quoteMark ≠ ' ' := by cases d <;> simp [Dialect.quoteMark]
    simp only [itemOpenings, List.forall_mem_cons]
    refine ⟨by simp [mark], by decide, by decide, by decide, by decide, by decide, by decide, by decide,
      object, array, by simp⟩
  rintro ⟨opening, known, begins⟩
  obtain ⟨some, other⟩ := apart opening known
  cases opening with
  | nil => exact some rfl
  | cons c rest =>
    obtain ⟨rfl, -⟩ := List.cons_prefix_cons.mp begins
    exact other rfl

end Items

/-- The words that write SELECT, each with what it goes on with. -/
def selectWords : List (String × List Char) :=
  [("SELECT ", []), (" FROM (SELECT ", []), ("(SELECT ", []), ("(SELECT COUNT(*)", "COUNT(*)".toList),
    ("EXISTS (SELECT 1", ['1'])]

def hasSelect (sql : String) : Bool := Text.occurs "SELECT " sql

/-- Whether a limit and an offset may write a character. -/
def isLimitLetter (c : Char) : Bool := c.isDigit || " LIMITOFFSE-".toList.contains c

/-- A limit and an offset are written in digits and the letters of their keywords. -/
theorem limitOffset_letters (d : Dialect) (limit offset : Option Nat) :
    ∀ c ∈ (d.limitOffset limit offset).toList, isLimitLetter c = true := by
  have number (n : Nat) : (toString n).toList.all isLimitLetter = true := by
    have digits : (toString n).toList = Nat.toDigits 10 n := by simp
    rw [digits, List.all_eq_true]
    intro c found
    have digit : c.isDigit = true := Nat.isDigit_of_mem_toDigits (by omega) (by omega) found
    rw [isLimitLetter, digit, Bool.true_or]
  have limited : " LIMIT ".toList.all isLimitLetter = true := by decide
  have skipped : " OFFSET ".toList.all isLimitLetter = true := by decide
  apply List.all_eq_true.mp
  unfold Dialect.limitOffset
  split
  · decide
  · simp only [String.toList_append, List.all_append, limited, number, Bool.and_self]
  · simp only [String.toList_append, List.all_append, limited, skipped, number, Bool.and_self]
  · simp only [String.toList_append, List.all_append, skipped, number, Bool.and_true]
    split <;> decide

theorem limitOffset_selectless (d : Dialect) (limit offset : Option Nat) :
    hasSelect (d.limitOffset limit offset) = false := by
  apply Bool.eq_false_iff.mpr
  intro occurs
  obtain ⟨front, back, shape⟩ := (Text.occursIn_iff _ _).mp occurs
  have letter : 'C' ∈ (d.limitOffset limit offset).toList := by
    rw [← shape]
    simp
  exact absurd (limitOffset_letters d limit offset 'C' letter) (by decide)

/-- Each of the words writes a single SELECT. -/
private theorem after_select {sql : String} {tail : List Char} (known : (sql, tail) ∈ selectWords)
    {front back : List Char} (shape : sql.toList = front ++ "SELECT ".toList ++ back) :
    back = tail := by
  have places : ∀ word ∈ selectWords, ∀ n < word.1.toList.length + 1,
      "SELECT ".toList <+: word.1.toList.drop n → word.1.toList.drop (n + 7) = word.2 := by
    decide
  have there : sql.toList.drop front.length = "SELECT ".toList ++ back := by
    rw [shape, List.append_assoc, List.drop_left]
  have short : front.length < sql.toList.length + 1 := by
    rw [shape, List.length_append, List.length_append]
    omega
  have after : sql.toList.drop (front.length + 7) = tail :=
    places _ known front.length short (there ▸ List.prefix_append _ _)
  rw [← after, ← List.drop_drop, there]
  rfl

/-- Whether a SELECT that a step writes before some text goes on with an item. -/
def Step.SelectsItems (d : Dialect) (rest : List Char) : Step → Prop
  | .text sql => ∀ front back, sql.toList = front ++ "SELECT ".toList ++ back → BeginsItem d (back ++ rest)
  | _ => True

namespace Draft

variable {d : Dialect} {a b rest : Draft}

/-- Whether every SELECT that a draft writes goes on with an item. -/
def SelectsItems (d : Dialect) : Draft → Prop
  | [] => True
  | step :: rest => step.SelectsItems d (Draft.text d rest) ∧ SelectsItems d rest

theorem SelectsItems.append (ha : SelectsItems d a) (hb : SelectsItems d b) : SelectsItems d (a ++ b) := by
  induction a with
  | nil => exact hb
  | cons step rest ih =>
    obtain ⟨here, later⟩ := ha
    refine ⟨?_, ih later⟩
    change step.SelectsItems d (Draft.text d (rest ++ b))
    rw [text_append]
    cases step with
    | text sql =>
      intro front back shape
      rw [← List.append_assoc]
      exact (here front back shape).append _
    | _ => trivial

theorem SelectsItems.of_append (selects : SelectsItems d (a ++ b)) : SelectsItems d b := by
  induction a with
  | nil => exact selects
  | cons step rest ih => exact ih selects.2

theorem text_within (within : a <:+: b) : Draft.text d a <:+: Draft.text d b := by
  obtain ⟨front, back, rfl⟩ := within
  exact ⟨Draft.text d front, Draft.text d back, by simp only [text_append]⟩

/-- No FROM follows directly after a SELECT. -/
theorem SelectsItems.not_empty (selects : SelectsItems d a) :
    ¬[.text " FROM (SELECT ", .text " FROM "] <:+: a := by
  rintro ⟨front, back, rfl⟩
  rw [List.append_assoc] at selects
  have here : BeginsItem d (Draft.text d (.text " FROM " :: back)) :=
    selects.of_append.1 " FROM (".toList [] (by decide)
  have blank : " FROM ".toList = ' ' :: "FROM ".toList := by decide
  rw [text_cons, Step.sql, blank] at here
  exact not_beginsItem_blank _ here

/-- Whether every SELECT of a draft, if the draft can be completed, goes on with an item. -/
def Selecting (d : Dialect) (draft : Draft) : Prop := draft.failure? = none → draft.SelectsItems d

namespace Selecting

theorem nil : Selecting d [] := fun _ => trivial

theorem of_ofDraft {draft : Draft} {s : Statement} (selecting : Selecting d draft)
    (written : Statement.ofDraft d draft = .ok s) : SelectsItems d draft :=
  selecting ((ofDraft_eq_ok_iff _ _ _).mp written).1

theorem append (ha : Selecting d a) (hb : Selecting d b) : Selecting d (a ++ b) := by
  intro complete
  obtain ⟨first, second⟩ := (failure?_append _ _).mp complete
  exact (ha first).append (hb second)

theorem step {step : Step} (here : step.failure? = none → step.SelectsItems d (Draft.text d rest))
    (later : Selecting d rest) : Selecting d (step :: rest) := by
  intro complete
  obtain ⟨first, second⟩ := (failure?_cons _ _).mp complete
  exact ⟨here first, later second⟩

theorem word {sql : String} (plain : hasSelect sql = false) (later : Selecting d rest) :
    Selecting d (.text sql :: rest) := by
  refine step (fun _ front back shape => ?_) later
  have occurs : hasSelect sql = true :=
    (Text.occursIn_iff _ _).mpr ⟨front, back, shape.symm⟩
  exact absurd occurs (plain ▸ Bool.false_ne_true)

/-- Steps that are no text of the draft's own. -/
theorem other {step : Step} (own : ∀ sql, step ≠ .text sql) (later : Selecting d rest) :
    Selecting d (step :: rest) := by
  refine .step (fun _ => ?_) later
  cases step with
  | text sql => exact absurd rfl (own sql)
  | _ => trivial

/-- A draft without a text of its own. -/
theorem quiet {draft : Draft} (own : ∀ step ∈ draft, ∀ sql, step ≠ .text sql) : Selecting d draft := by
  induction draft with
  | nil => exact nil
  | cons step rest ih =>
    exact other (own step List.mem_cons_self) (ih fun next found => own next (List.mem_cons_of_mem _ found))

theorem name (identifier : String) (later : Selecting d rest) : Selecting d (.name identifier :: rest) :=
  other (by simp) later

theorem bind (value : DbValue) (later : Selecting d rest) : Selecting d (.bind value :: rest) :=
  other (by simp) later

theorem select {sql : String} (tail : List Char) (known : (sql, tail) ∈ selectWords)
    (item : rest.failure? = none → BeginsItem d (tail ++ Draft.text d rest))
    (later : Selecting d rest) : Selecting d (.text sql :: rest) := by
  intro complete
  obtain ⟨-, second⟩ := (failure?_cons _ _).mp complete
  refine ⟨fun front back shape => ?_, later second⟩
  rw [after_select known shape]
  exact item second

/-- A word that ends with SELECT leaves the first item to the rest. -/
theorem opened {sql : String} (known : (sql, []) ∈ selectWords)
    (item : rest.failure? = none → BeginsItem d (Draft.text d rest)) (later : Selecting d rest) :
    Selecting d (.text sql :: rest) := by
  apply select [] known ?_ later
  intro complete
  rw [List.nil_append]
  exact item complete

theorem separated {separator : String} {drafts : List Draft} (plain : hasSelect separator = false)
    (each : ∀ draft ∈ drafts, Selecting d draft) : Selecting d (Draft.separated separator drafts) :=
  holds_separated nil (fun here there => here.append (word plain there)) each

theorem flatMap {f : α → Draft} {items : List α} (each : ∀ item ∈ items, Selecting d (f item)) :
    Selecting d (items.flatMap f) := holds_flatMap nil append each

theorem andThen {x : Except CompileError α} {next : α → Draft} (each : ∀ a, x = .ok a → Selecting d (next a)) :
    Selecting d (Draft.andThen x next) := holds_andThen (fun _ => other (by simp) nil) each

theorem qualified (table column : String) : Selecting d (Draft.qualified table column) :=
  name _ (word (by decide) (name _ nil))

theorem column (qualifier : Option String) (column : String) : Selecting d (Draft.column qualifier column) := by
  unfold Draft.column
  split
  · exact qualified _ _
  · exact qualified _ _
  · exact name _ nil

theorem bindList (values : List DbValue) : Selecting d (Draft.bindList values) := by
  refine separated (by decide) fun draft found => ?_
  obtain ⟨value, -, rfl⟩ := List.mem_map.mp found
  exact bind value nil

/-- A valid name has no blank, so it is not SELECT in a literal either. -/
theorem pair (source column : String) : Selecting d (Columns.pair source column) := by
  intro complete
  have valid : Identifier.fault? column = none := by
    simpa [Draft.qualified, Step.failure?] using ((failure?_cons _ _).mp
      ((failure?_append _ [.name source, .text ".", .name column]).mp complete).2).2
  have plain : hasSelect column = false := by
    apply Bool.eq_false_iff.mpr
    intro occurs
    obtain ⟨front, back, shape⟩ := (Text.occursIn_iff _ _).mp occurs
    have blank : ' ' ∈ column.toList := by
      rw [← shape]
      simp
    exact absurd (isAllowed_of_fault?_eq_none column valid ' ' blank) (by decide)
  have written : Selecting d (Columns.pair source column) :=
    append (word (by decide) (word plain (word (by decide) nil))) (qualified _ _)
  exact written complete

end Selecting
end Draft
end EagerLoad.Sql
