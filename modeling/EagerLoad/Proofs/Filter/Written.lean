import EagerLoad.Filter.Draft
import EagerLoad.Proofs.Sql.Written

/-! # What the drafts of filters are written from

Apart from its raw texts a filter is written from the vocabulary. A condition may be a constant test,
so it is taken together with the word before it. -/
namespace EagerLoad

mutual

def Condition.raws : Condition → List String
  | .group clauses => clausesRaws clauses
  | .raw sql _ => [sql]
  | _ => []

def clausesRaws : List Clause → List String
  | [] => []
  | (_, condition) :: rest => condition.raws ++ clausesRaws rest

end

def Filter.raws (f : Filter) : List String := clausesRaws f.clauses

open Sql Sql.Draft

variable {allowed : Allowed}

theorem Qualifier.column_written (q : Qualifier) (name : String) :
    Written allowed (q.column name) := Written.column _ _

theorem OrderTerm.draft_written (q : Qualifier) (t : OrderTerm) : Written allowed (t.draft q) := by
  refine (q.column_written t.column).append (.word (by decide) (.word ?_ .nil))
  cases t.direction <;> decide

theorem orderDraft_written (q : Qualifier) (terms : List OrderTerm) :
    Written allowed (orderDraft q terms) := by
  refine Written.separated (by decide) fun draft found => ?_
  obtain ⟨term, _, rfl⟩ := List.mem_map.mp found
  exact term.draft_written q

theorem word_of_lead : ∀ lead ∈ leads, lead ∈ vocabulary := by decide

theorem Comparison.sql_known (operator : Comparison) : operator.sql ∈ vocabulary := by
  cases operator <;> decide

mutual

/-- A condition may be a constant test, so it is written after a word. -/
theorem Condition.draft_written (q : Qualifier) (c : Condition)
    (h : ∀ sql ∈ c.raws, allowed.raw sql) (lead : String) (follows : lead ∈ leads) :
    Written allowed (.text lead :: c.draft q) := by
  have known := word_of_lead lead follows
  have tested (column : String) (negated : Bool) :
      Written allowed ((Condition.null column negated).draft q) := by
    rw [Condition.draft]
    exact (q.column_written column).append (.word (by cases negated <;> decide) .nil)
  cases c with
  | compare column operator value =>
    obtain ⟨negated, same⟩ | same := Condition.draft_compare q column operator value
    · rw [same]
      exact .word known (tested column negated)
    · rw [same]
      exact .word known ((q.column_written column).append
        (.word (by decide) (.word operator.sql_known (.word (by decide) (.bind _ .nil)))))
  | columns left operator right =>
    rw [Condition.draft]
    refine .word known (((q.column_written left).append ?_).append (q.column_written right))
    exact .word (by decide) (.word operator.sql_known (.word (by decide) .nil))
  | among column bound negated =>
    cases bound with
    | nil =>
      rw [Condition.draft]
      refine .constant follows ?_ .nil
      cases negated <;> decide
    | cons value rest =>
      rw [Condition.draft]
      refine .word known (((q.column_written column).append ?_).append (.word (by decide) .nil))
      refine .word ?_ (Written.bindList _)
      cases negated <;> decide
  | null column negated => exact .word known (tested column negated)
  | between column low high =>
    rw [Condition.draft]
    refine .word known ((q.column_written column).append (.word (by decide) ?_))
    exact .bind low (.word (by decide) (.bind high .nil))
  | group clauses =>
    rw [Condition.raws] at h
    rw [Condition.draft]
    exact .word known ((clausesDraft_written q clauses h "(" (by decide)).append
      (.word (by decide) .nil))
  | raw sql bindings =>
    rw [Condition.draft]
    exact .word known (.raw bindings (h sql (by simp [Condition.raws])) .nil)

theorem clausesDraft_written (q : Qualifier) (clauses : List Clause)
    (h : ∀ sql ∈ clausesRaws clauses, allowed.raw sql) (lead : String) (follows : lead ∈ leads) :
    Written allowed (.text lead :: clausesDraft q clauses) := by
  cases clauses with
  | nil => exact .word (word_of_lead lead follows) .nil
  | cons clause rest =>
    obtain ⟨connective, condition⟩ := clause
    rw [clausesRaws] at h
    rw [clausesDraft]
    exact (condition.draft_written q (fun sql found => h sql (by simp [found])) lead follows).append
      (clausesTail_written q rest fun sql found => h sql (by simp [found]))

theorem clausesTail_written (q : Qualifier) (clauses : List Clause)
    (h : ∀ sql ∈ clausesRaws clauses, allowed.raw sql) : Written allowed (clausesTail q clauses) := by
  cases clauses with
  | nil => exact .nil
  | cons clause rest =>
    obtain ⟨connective, condition⟩ := clause
    have follows : connective.sql ∈ leads := by cases connective <;> decide
    rw [clausesRaws] at h
    rw [clausesTail]
    exact (condition.draft_written q (fun sql found => h sql (by simp [found])) _ follows).append
      (clausesTail_written q rest fun sql found => h sql (by simp [found]))

end

end EagerLoad
