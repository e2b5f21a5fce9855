import EagerLoad.Entity.Selection
import EagerLoad.Proofs.Sql.Draft
import EagerLoad.Proofs.Sql.Tidy

/-! # What drafts are written from

A draft is written from the words of a fixed vocabulary, limits, checked names and placeholders.
Nothing that a caller gives reaches the text unless it is checked as a name, except raw texts, which
stand in parentheses. Such a draft becomes a tidy text with a placeholder for every value. -/
namespace EagerLoad.Sql

def vocabulary : List String :=
  ["", " ", ".", ", ", "(", ")", "))", ") AS ", " AS ", "SELECT ", " FROM ", " FROM (SELECT ",
    "INNER JOIN", "LEFT JOIN", " INNER JOIN ", " LEFT JOIN ", " ON ", " WHERE ", " AND ", " OR ",
    " AND (", " GROUP BY ", " HAVING ", " ORDER BY ", "ASC", "DESC", " LIMIT 1", "=", "!=", "<", "<=",
    ">", ">=", "LIKE", "NOT LIKE", "ILIKE", " = ", " IS NULL", " IS NOT NULL", " IN (", " NOT IN (",
    " BETWEEN ", "(SELECT ", "(SELECT COUNT(*)", "COUNT(*)", "EXISTS (SELECT 1", "SUM", "AVG", "MIN",
    "MAX", "json_build_object", "json_object", "JSON_OBJECT", "COALESCE(json_agg(", "), '[]'::json)",
    "COALESCE(json_group_array(", "), '[]')", "COALESCE(JSON_ARRAYAGG(", "), JSON_ARRAY())",
    "COALESCE(CONCAT('[', GROUP_CONCAT(", " SEPARATOR ','), ']'), '[]')", "::text", "::float8"]

/-- The words that a constant test may follow. -/
def leads : List String := ["(", " AND ", " OR ", " AND (", " HAVING ", " WHERE "]

/-- The tests that are always or never passed. -/
def constantTests : List String := ["1 = 1", "1 = 0"]

/-- Whether a step writes nothing and looks nothing up. -/
def Step.isSilent : Step → Bool
  | .require _ | .notice _ | .fail _ => true
  | _ => false

namespace Draft

/-- The raw texts that may stand in a draft, and the localizations that it may look up. -/
structure Allowed where
  raw : String → Prop
  consult : String → Option Localization → Prop

/-- A draft with nothing of a caller's in it but names, values and what is allowed. -/
inductive Written (allowed : Allowed) : Draft → Prop where
  | nil : Written allowed []
  | word {sql : String} {rest : Draft} (known : sql ∈ vocabulary) :
      Written allowed rest → Written allowed (.text sql :: rest)
  | limit {rest : Draft} (d : Dialect) (limit offset : Option Nat) :
      Written allowed rest → Written allowed (.text (d.limitOffset limit offset) :: rest)
  | name {rest : Draft} (identifier : String) :
      Written allowed rest → Written allowed (.name identifier :: rest)
  | bind {rest : Draft} (value : DbValue) :
      Written allowed rest → Written allowed (.bind value :: rest)
  | silent {step : Step} {rest : Draft} (h : step.isSilent = true) :
      Written allowed rest → Written allowed (step :: rest)
  | consult {type : String} {found : Option Localization} {rest : Draft}
      (h : allowed.consult type found) :
      Written allowed rest → Written allowed (.consult type found :: rest)
  | pair {rest : Draft} (source column : String) :
      Written allowed rest → Written allowed (Columns.pair source column ++ rest)
  | raw {sql : String} {rest : Draft} (values : List DbValue) (h : allowed.raw sql) :
      Written allowed rest → Written allowed (.text "(" :: .raw sql values :: .text ")" :: rest)
  | constant {lead test : String} {rest : Draft} (follows : lead ∈ leads)
      (known : test ∈ constantTests) :
      Written allowed rest → Written allowed (.text lead :: .text test :: rest)

namespace Written

variable {allowed : Allowed} {a b : Draft}

theorem append (ha : Written allowed a) (hb : Written allowed b) : Written allowed (a ++ b) := by
  induction ha with
  | nil => exact hb
  | word known _ ih => exact .word known ih
  | limit d limit offset _ ih => exact .limit d limit offset ih
  | name identifier _ ih => exact .name identifier ih
  | bind value _ ih => exact .bind value ih
  | silent h _ ih => exact .silent h ih
  | consult h _ ih => exact .consult h ih
  | pair source column _ ih =>
    rw [List.append_assoc]
    exact .pair source column ih
  | raw values h _ ih => exact .raw values h ih
  | constant follows known _ ih => exact .constant follows known ih

theorem separated {separator : String} {drafts : List Draft} (known : separator ∈ vocabulary)
    (h : ∀ draft ∈ drafts, Written allowed draft) :
    Written allowed (Draft.separated separator drafts) :=
  holds_separated nil (fun here there => here.append (.word known there)) h

theorem flatMap {f : α → Draft} {items : List α} (h : ∀ item ∈ items, Written allowed (f item)) :
    Written allowed (items.flatMap f) := holds_flatMap nil append h

theorem andThen {x : Except CompileError α} {next : α → Draft}
    (h : ∀ a, x = .ok a → Written allowed (next a)) : Written allowed (Draft.andThen x next) :=
  holds_andThen (fun _ => .silent rfl .nil) h

theorem bindList (values : List DbValue) : Written allowed (Draft.bindList values) := by
  refine separated (by decide) fun draft found => ?_
  obtain ⟨value, _, rfl⟩ := List.mem_map.mp found
  exact .bind value .nil

theorem qualified (table column : String) : Written allowed (Draft.qualified table column) :=
  .name table (.word (by decide) (.name column .nil))

theorem consult_of_mem {draft : Draft} (written : Written allowed draft) {type : String}
    {found : Option Localization} (known : .consult type found ∈ draft) :
    allowed.consult type found := by
  induction written with
  | nil => exact absurd known (by simp)
  | consult h _ ih =>
    obtain same | known := List.mem_cons.mp known
    · obtain ⟨rfl, rfl⟩ := Step.consult.inj same
      exact h
    · exact ih known
  | silent h _ ih =>
    obtain rfl | known := List.mem_cons.mp known
    · exact absurd h (by simp [Step.isSilent])
    · exact ih known
  | pair _ _ _ ih => exact ih (by simpa [Columns.pair, Draft.qualified] using known)
  | word _ _ ih | limit _ _ _ _ ih | name _ _ ih | bind _ _ ih | raw _ _ _ ih
  | constant _ _ _ ih => exact ih (by simpa using known)

theorem of_consulted {draft : Draft} (written : Written allowed draft)
    {entry : String × Option Localization} (consulted : entry ∈ draft.consulted) :
    allowed.consult entry.1 entry.2 := by
  obtain ⟨step, carriedOut, looked⟩ := List.mem_filterMap.mp consulted
  have known : step ∈ draft := List.takeWhile_subset _ carriedOut
  split at looked
  · obtain rfl := Option.some.inj looked
    exact written.consult_of_mem known
  · exact absurd looked (by simp)

theorem column (qualifier : Option String) (column : String) :
    Written allowed (Draft.column qualifier column) := by
  unfold Draft.column
  split
  · exact qualified _ _
  · exact qualified _ _
  · exact .name column .nil

end Written

private theorem words_inert : ∀ word ∈ vocabulary, isInert word.toList = true := by
  decide +kernel

private theorem constants_inert :
    ∀ lead ∈ leads, ∀ test ∈ constantTests, isInert (lead.toList ++ test.toList) = true := by
  decide +kernel

private theorem sql_of_isSilent (d : Dialect) (step : Step) (h : step.isSilent = true) :
    step.sql d = "" ∧ step.bindings = [] := by
  cases step <;> first | exact ⟨rfl, rfl⟩ | exact absurd h (by simp [Step.isSilent])

private theorem tidy_raw (d : Dialect) (sql : String) (n : Nat) (stands : standsAlone sql = true)
    (count : countPlaceholders sql = n) : Tidy d ('(' :: (sql.toList ++ [')'])) n := by
  simp only [standsAlone, Bool.and_eq_true, beq_iff_eq, Bool.not_eq_true', List.contains_eq_mem,
    decide_eq_false_iff_not] at stands
  obtain ⟨⟨closed, unticked⟩, separated⟩ := stands
  have ends : startsWithDigit [')'] = false := rfl
  have opens : Region.plain.next isNameQuote '(' = .plain := rfl
  refine ⟨?_, ?_, rfl, ?_, fun _ => by simp [unticked]⟩
  · rw [Region.after_cons, opens, Region.after_append, closed]
    rfl
  · rw [isSeparated, opens, isSeparated_append _ _ _ ends, separated, closed]
    rfl
  · rw [countFrom, opens, countFrom_append _ _ _ ends, closed]
    rw [countPlaceholders] at count
    simp [isPlaceholder, countFrom, count]

private theorem fault?_of_name (name : String) (h : (Step.name name).failure? = none) :
    Identifier.fault? name = none := by
  simpa [Step.failure?] using h

/-- A pair is the column's name in a literal and the quoted column. -/
private theorem tidy_pair (d : Dialect) (source column : String)
    (complete : (Columns.pair source column).failure? = none) :
    Tidy d ((Columns.pair source column).text d) 0 := by
  obtain ⟨namedSource, -, namedColumn, -⟩ :
      (Step.name source).failure? = none ∧ (Step.text ".").failure? = none ∧
        (Step.name column).failure? = none ∧ failure? [] = none := by
    simpa [Columns.pair, qualified, Step.failure?] using complete
  have literal := tidy_literal d column (fault?_of_name column namedColumn)
  have comma : Tidy d ", ".toList 0 := Tidy.of_isInert d (by decide)
  have point : Tidy d ".".toList 0 := Tidy.of_isInert d (by decide)
  have left := tidy_quote d source (fault?_of_name source namedSource)
  have right := tidy_quote d column (fault?_of_name column namedColumn)
  have all := (((literal.append comma).append left).append point).append right
  simpa [Columns.pair, qualified, text, fragment, Step.sql] using all

private theorem tidy_append (d : Dialect) (a b : Draft) (ha : Tidy d (a.text d) a.values.length)
    (hb : Tidy d (b.text d) b.values.length) :
    Tidy d (text d (a ++ b)) (values (a ++ b)).length := by
  rw [text_append, values_append, List.length_append]
  exact ha.append hb

/-- A written draft becomes a tidy text with a placeholder for every value. -/
theorem tidy_of_written (d : Dialect) {allowed : Allowed} {draft : Draft}
    (stands : ∀ sql, allowed.raw sql → standsAlone sql = true) (written : Written allowed draft)
    (complete : draft.failure? = none) : Tidy d (draft.text d) draft.values.length := by
  have one (step : Step) (rest : Draft)
      (here : Tidy d (step.sql d).toList step.bindings.length)
      (there : Tidy d (rest.text d) rest.values.length) :
      Tidy d (text d (step :: rest)) (values (step :: rest)).length :=
    tidy_append d [step] rest (by simpa using here) there
  induction written with
  | nil => exact Tidy.nil d
  | word known _ ih =>
    exact one _ _ (Tidy.of_isInert d (words_inert _ known)) (ih ((failure?_cons _ _).mp complete).2)
  | limit e limit offset _ ih =>
    exact one _ _ (tidy_limitOffset d e limit offset) (ih ((failure?_cons _ _).mp complete).2)
  | name identifier _ ih =>
    obtain ⟨valid, rest⟩ := (failure?_cons _ _).mp complete
    exact one _ _ (tidy_quote d identifier (fault?_of_name _ valid)) (ih rest)
  | bind value _ ih =>
    have sign : Tidy d "?".toList 1 := ⟨by decide, by decide, by decide, by decide, fun _ => by decide⟩
    exact one _ _ sign (ih ((failure?_cons _ _).mp complete).2)
  | silent h _ ih =>
    obtain ⟨written, none⟩ := sql_of_isSilent d _ h
    refine one _ _ ?_ (ih ((failure?_cons _ _).mp complete).2)
    rw [written, none]
    exact Tidy.nil d
  | consult _ _ ih => exact one _ _ (Tidy.nil d) (ih ((failure?_cons _ _).mp complete).2)
  | pair source column _ ih =>
    obtain ⟨here, there⟩ := (failure?_append _ _).mp complete
    exact tidy_append d _ _ (tidy_pair d source column here) (ih there)
  | @raw sql rest values h _ ih =>
    obtain ⟨here, there⟩ := (failure?_append [.text "(", .raw sql values, .text ")"] rest).mp complete
    have count : countPlaceholders sql = values.length := by
      simpa [Step.failure?] using here
    refine tidy_append d [.text "(", .raw sql values, .text ")"] rest ?_ (ih there)
    simpa [text, fragment, Step.sql, Step.bindings] using tidy_raw d sql _ (stands sql h) count
  | @constant lead test rest follows known _ ih =>
    obtain ⟨-, there⟩ := (failure?_append [.text lead, .text test] rest).mp complete
    refine tidy_append d [.text lead, .text test] rest ?_ (ih there)
    simpa [Step.sql, Step.bindings] using
      Tidy.of_isInert d (constants_inert lead follows test known)

end Draft
end EagerLoad.Sql
