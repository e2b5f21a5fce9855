import EagerLoad.Filter.Draft
import EagerLoad.Proofs.Sql.Spaced

/-! # Filters without adjacent quotes

A condition and an order begin with a name or a word, and what follows a name in them is a word. -/
namespace EagerLoad

open Sql Sql.Draft

theorem Qualifier.column_spaced (q : Qualifier) (name : String) : Spaced false (q.column name) :=
  Spaced.column _ _

theorem OrderTerm.draft_spaced (q : Qualifier) (t : OrderTerm) : Spaced false (t.draft q) := by
  refine (q.column_spaced t.column).append (.word (by decide) (.word ?_ .nil))
  cases t.direction <;> decide

theorem orderDraft_spaced (q : Qualifier) (terms : List OrderTerm) :
    Spaced false (orderDraft q terms) := by
  refine Spaced.separated (by decide) fun draft found => ?_
  obtain ⟨term, -, rfl⟩ := List.mem_map.mp found
  exact term.draft_spaced q

theorem Comparison.sql_plain (operator : Comparison) : beginsPlain operator.sql = true := by
  cases operator <;> decide

mutual

theorem Condition.draft_spaced (q : Qualifier) (c : Condition) : Spaced false (c.draft q) := by
  have tested (column : String) (negated : Bool) :
      Spaced false ((Condition.null column negated).draft q) := by
    rw [Condition.draft]
    exact (q.column_spaced column).append (.word (by cases negated <;> decide) .nil)
  cases c with
  | compare column operator value =>
    obtain ⟨negated, same⟩ | same := Condition.draft_compare q column operator value
    · rw [same]
      exact tested column negated
    · rw [same]
      exact (q.column_spaced column).append
        (.word (by decide) (.word operator.sql_plain (.word (by decide) (.bind _ .nil))))
  | columns left operator right =>
    rw [Condition.draft, List.append_assoc]
    refine (q.column_spaced left).append (.word (by decide) (.word operator.sql_plain ?_))
    exact .word (by decide) (q.column_spaced right)
  | among column bound negated =>
    cases bound with
    | nil =>
      rw [Condition.draft]
      refine .word ?_ .nil
      cases negated <;> decide
    | cons value rest =>
      rw [Condition.draft, List.append_assoc]
      refine (q.column_spaced column).append (.word ?_ ?_)
      · cases negated <;> decide
      · exact (Spaced.bindList _).append (.word (by decide) .nil)
  | null column negated => exact tested column negated
  | between column low high =>
    rw [Condition.draft]
    refine (q.column_spaced column).append (.word (by decide) ?_)
    exact .bind low (.word (by decide) (.bind high .nil))
  | group clauses =>
    rw [Condition.draft]
    exact .word (by decide) ((clausesDraft_spaced q clauses).append (.word (by decide) .nil))
  | raw sql bindings =>
    rw [Condition.draft]
    exact .word (by decide) ⟨by simp, .word (by decide) .nil⟩

theorem clausesDraft_spaced (q : Qualifier) (clauses : List Clause) :
    Spaced false (clausesDraft q clauses) := by
  cases clauses with
  | nil => exact .nil
  | cons clause rest =>
    obtain ⟨connective, condition⟩ := clause
    rw [clausesDraft]
    exact (condition.draft_spaced q).append (clausesTail_spaced q rest)

theorem clausesTail_spaced (q : Qualifier) (clauses : List Clause) :
    Spaced true (clausesTail q clauses) := by
  cases clauses with
  | nil => exact .nil
  | cons clause rest =>
    obtain ⟨connective, condition⟩ := clause
    have plain : beginsPlain connective.sql = true := by cases connective <;> decide
    rw [clausesTail]
    exact .word plain ((condition.draft_spaced q).append (clausesTail_spaced q rest))

end

end EagerLoad
