import EagerLoad.Proofs.Filter.Written
import EagerLoad.Proofs.Sql.WordedDraft

/-! # Filters are balanced

Whatever clauses a filter has, its conditions without raw texts are well worded: they close the
parentheses that they open and no others, and hold no WHERE. -/
namespace EagerLoad

open Sql Sql.Draft

variable {d : Dialect} {fresh : Bool}

theorem Qualifier.column_worded {avoid : List Char} (apart : Apart avoid) (q : Qualifier)
    (name : String) : Draft.Worded d avoid fresh (q.column name) false := Draft.Worded.column apart _ _

theorem OrderTerm.draft_worded (q : Qualifier) (t : OrderTerm) :
    Draft.Worded d ['W'] fresh (t.draft q) false := by
  refine (q.column_worded (by decide) t.column).append (.spaced (by decide) (.word ?_ .nil))
  cases t.direction <;> decide

theorem orderDraft_worded (q : Qualifier) {terms : List OrderTerm} (some : terms ≠ []) :
    Draft.Worded d ['W'] fresh (orderDraft q terms) false := by
  refine Draft.Worded.separated (by simpa using some) (by decide) fun draft found fresh => ?_
  obtain ⟨term, -, rfl⟩ := List.mem_map.mp found
  exact term.draft_worded q

theorem orderDraft_balanced (q : Qualifier) (terms : List OrderTerm) :
    Draft.Balanced d (orderDraft q terms) := by
  refine Draft.Balanced.separated (by decide) fun draft found => ?_
  obtain ⟨term, -, rfl⟩ := List.mem_map.mp found
  have worded : Draft.Worded d ['W'] true (term.draft q) false := term.draft_worded q
  exact worded.balanced

theorem bindList_balanced (values : List DbValue) : Draft.Balanced d (bindList values) := by
  refine Draft.Balanced.separated (by decide) fun draft found => ?_
  obtain ⟨value, -, rfl⟩ := List.mem_map.mp found
  have sign : Draft.Worded d [] false [.bind value] false := .bind (by decide) value .nil
  exact sign.balanced

theorem Comparison.sql_worded (operator : Comparison) :
    Sql.Worded ['W'] true operator.sql.toList false := by
  cases operator <;> decide

mutual

theorem Condition.draft_worded (q : Qualifier) (c : Condition) (free : c.raws = []) (fresh : Bool) :
    Draft.Worded d ['W'] fresh (c.draft q) false := by
  have column (name : String) : Draft.Worded d ['W'] fresh (q.column name) false :=
    q.column_worded (by decide) name
  have tested (name : String) (negated : Bool) :
      Draft.Worded d ['W'] fresh ((Condition.null name negated).draft q) false := by
    rw [Condition.draft]
    exact (column name).append (.word (by cases negated <;> decide) .nil)
  cases c with
  | compare name operator value =>
    obtain ⟨negated, same⟩ | same := Condition.draft_compare q name operator value
    · rw [same]
      exact tested name negated
    · rw [same]
      exact (column name).append (.spaced (by decide)
        (.word operator.sql_worded (.spaced (by decide) (.bind (by decide) _ .nil))))
  | columns left operator right =>
    rw [Condition.draft]
    have between : Draft.Worded d ['W'] false [Step.text " ", .text operator.sql, Step.text " "] true :=
      .spaced (by decide) (.word operator.sql_worded (.word (by decide) .nil))
    exact ((column left).append between).append (q.column_worded (by decide) right)
  | among name bound negated =>
    cases bound with
    | nil =>
      rw [Condition.draft]
      refine .word ?_ .nil
      cases negated <;> cases fresh <;> decide
    | cons value rest =>
      rw [Condition.draft]
      rw [List.append_assoc]
      refine (column name).append ?_
      have values := bindList_balanced (d := d) (value :: rest)
      cases negated with
      | false => exact .enclosed 0 (by decide) values (by decide) .nil
      | true => exact .enclosed 0 (by decide) values (by decide) .nil
  | null name negated => exact tested name negated
  | between name low high =>
    rw [Condition.draft]
    refine (column name).append (.spaced (by decide) ?_)
    exact .bind (by decide) low (.spaced (by decide) (.bind (by decide) high .nil))
  | group clauses =>
    rw [Condition.raws] at free
    rw [Condition.draft]
    have inner := clausesDraft_balanced q clauses free
    cases fresh with
    | false => exact .enclosed 0 (by decide) inner (by decide) .nil
    | true => exact .enclosed 0 (by decide) inner (by decide) .nil
  | raw sql bindings => exact absurd free (by simp [Condition.raws])

theorem clausesDraft_balanced (q : Qualifier) (clauses : List Clause) (free : clausesRaws clauses = []) :
    Draft.Balanced d (clausesDraft q clauses) := by
  cases clauses with
  | nil => exact fun _ => rfl
  | cons clause rest =>
    obtain ⟨connective, condition⟩ := clause
    rw [clausesRaws, List.append_eq_nil_iff] at free
    rw [clausesDraft]
    exact ((condition.draft_worded q free.1 false).append (clausesTail_worded q rest free.2)).balanced

theorem clausesTail_worded (q : Qualifier) (clauses : List Clause) (free : clausesRaws clauses = []) :
    Draft.Worded d ['W'] false (clausesTail q clauses) false := by
  cases clauses with
  | nil => exact .nil
  | cons clause rest =>
    obtain ⟨connective, condition⟩ := clause
    have joins : Sql.Worded ['W'] false connective.sql.toList true := by
      cases connective <;> decide
    rw [clausesRaws, List.append_eq_nil_iff] at free
    rw [clausesTail]
    exact .word joins ((condition.draft_worded q free.1 true).append (clausesTail_worded q rest free.2))

end

/-- The conditions of a filter, as they stand in a clause of their own. -/
theorem Filter.conditions_worded (q : Qualifier) {f : Filter} (some : f.hasConditions = true)
    (free : f.raws = []) : Draft.Worded d ['W'] fresh (f.conditions q) false := by
  unfold Filter.conditions
  unfold Filter.raws at free
  unfold Filter.hasConditions at some
  cases shape : f.clauses with
  | nil => simp [shape] at some
  | cons clause rest =>
    obtain ⟨connective, condition⟩ := clause
    rw [shape, clausesRaws, List.append_eq_nil_iff] at free
    rw [clausesDraft]
    exact (condition.draft_worded q free.1 fresh).append (clausesTail_worded q rest free.2)

end EagerLoad
