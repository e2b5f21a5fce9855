import EagerLoad.Filter.Draft
import EagerLoad.Proofs.Sql.Redacted

/-! # Filters without their values

A redacted filter has a fixed value in place of each of its own. Only a comparison with null for equality
keeps its null, since that one is written and not bound. -/
namespace EagerLoad

open Sql Sql.Draft

/-- The value compared with, without what is bound of it. -/
def Comparison.redactedValue : Comparison → DbValue → DbValue
  | .equal, .null => .null
  | .notEqual, .null => .null
  | _, _ => .hidden

mutual

def Condition.redacted : Condition → Condition
  | .compare column operator value => .compare column operator (operator.redactedValue value)
  | .columns left operator right => .columns left operator right
  | .among column values negated => .among column (values.map fun _ => .hidden) negated
  | .null column negated => .null column negated
  | .between column _ _ => .between column .hidden .hidden
  | .group clauses => .group (clausesRedacted clauses)
  | .raw sql bindings => .raw sql (bindings.map fun _ => .hidden)

def clausesRedacted : List Clause → List Clause
  | [] => []
  | (connective, condition) :: rest => (connective, condition.redacted) :: clausesRedacted rest

end

def Filter.redacted (f : Filter) : Filter := { f with clauses := clausesRedacted f.clauses }

@[simp] theorem Qualifier.redacted_column (q : Qualifier) (name : String) :
    (q.column name).redacted = q.column name := Draft.redacted_column _ _

@[simp] theorem OrderTerm.redacted_draft (q : Qualifier) (t : OrderTerm) :
    (t.draft q).redacted = t.draft q := by
  simp [draft, Step.redacted]

@[simp] theorem redacted_orderDraft (q : Qualifier) (terms : List OrderTerm) :
    (orderDraft q terms).redacted = orderDraft q terms := by
  rw [orderDraft, redacted_separated, List.map_map]
  exact congrArg (separated ", ") (List.map_congr_left fun term _ => term.redacted_draft q)

mutual

theorem Condition.draft_redacted (q : Qualifier) (c : Condition) :
    (c.redacted.draft q).redacted = (c.draft q).redacted := by
  cases c with
  | compare column operator value =>
    rw [Condition.redacted]
    unfold Comparison.redactedValue
    split
    · rfl
    · rfl
    · rename_i bound different
      have own : Condition.draft q (.compare column operator value) =
          q.column column ++ [.text " ", .text operator.sql, .text " ", .bind value] := by
        unfold Condition.draft
        split <;> simp_all
      have other : Condition.draft q (.compare column operator .hidden) =
          q.column column ++ [.text " ", .text operator.sql, .text " ", .bind .hidden] := by
        unfold Condition.draft
        cases operator <;> rfl
      rw [own, other]
      simp [Step.redacted]
  | columns left operator right => rw [Condition.redacted]
  | among column values negated =>
    rw [Condition.redacted]
    cases values with
    | nil => rfl
    | cons value rest =>
      simp [Condition.draft, redacted_bindList, Function.comp_def]
  | null column negated => rw [Condition.redacted]
  | between column low high =>
    simp [Condition.redacted, Condition.draft, Step.redacted]
  | group clauses =>
    have inner := clausesDraft_redacted q clauses
    simp only [Condition.redacted, Condition.draft, redacted_append, redacted_cons, inner]
  | raw sql bindings => simp [Condition.redacted, Condition.draft, Step.redacted]

theorem clausesDraft_redacted (q : Qualifier) (clauses : List Clause) :
    (clausesDraft q (clausesRedacted clauses)).redacted = (clausesDraft q clauses).redacted := by
  cases clauses with
  | nil => rfl
  | cons clause rest =>
    obtain ⟨connective, condition⟩ := clause
    rw [clausesRedacted, clausesDraft, clausesDraft, redacted_append, redacted_append,
      condition.draft_redacted q, clausesTail_redacted q rest]

theorem clausesTail_redacted (q : Qualifier) (clauses : List Clause) :
    (clausesTail q (clausesRedacted clauses)).redacted = (clausesTail q clauses).redacted := by
  cases clauses with
  | nil => rfl
  | cons clause rest =>
    obtain ⟨connective, condition⟩ := clause
    rw [clausesRedacted, clausesTail, clausesTail, redacted_cons, redacted_cons, redacted_append,
      redacted_append, condition.draft_redacted q, clausesTail_redacted q rest]

end

namespace Filter

variable (f : Filter) (q : Qualifier)

theorem conditions_redacted : (f.redacted.conditions q).redacted = (f.conditions q).redacted :=
  clausesDraft_redacted q f.clauses

@[simp] theorem hasConditions_redacted : f.redacted.hasConditions = f.hasConditions := by
  obtain ⟨clauses, order, limit⟩ := f
  cases clauses with
  | nil => rfl
  | cons clause rest => rfl

end Filter
end EagerLoad
