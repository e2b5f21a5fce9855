import EagerLoad.Filter.Draft
import EagerLoad.Proofs.Sql.Draft

/-! # The values of filters

A filter binds the values of its conditions in the order of the tree, and an order binds
nothing. -/
namespace EagerLoad

mutual

/-- The values of a condition, in order. A comparison with null for equality binds nothing. -/
def Condition.values : Condition → List DbValue
  | .compare _ .equal .null => []
  | .compare _ .notEqual .null => []
  | .compare _ _ value => [value]
  | .columns .. => []
  | .among _ values _ => values
  | .null .. => []
  | .between _ low high => [low, high]
  | .group clauses => clausesValues clauses
  | .raw _ bindings => bindings

def clausesValues : List Clause → List DbValue
  | [] => []
  | (_, condition) :: rest => condition.values ++ clausesValues rest

end

def Filter.values (f : Filter) : List DbValue := clausesValues f.clauses

@[simp] theorem Qualifier.values_column (q : Qualifier) (name : String) :
    (q.column name).values = [] := Sql.Draft.values_column _ _

theorem OrderTerm.values_draft (q : Qualifier) (t : OrderTerm) : (t.draft q).values = [] := by
  simp [draft, Sql.Step.bindings]

@[simp] theorem values_orderDraft (q : Qualifier) (terms : List OrderTerm) :
    (orderDraft q terms).values = [] := by
  rw [orderDraft, Sql.Draft.values_separated, List.flatMap_map, List.flatMap_eq_nil_iff]
  exact fun term _ => term.values_draft q

mutual

theorem Condition.values_draft (q : Qualifier) (c : Condition) :
    (c.draft q).values = c.values := by
  cases c with
  | compare column operator value =>
    unfold Condition.draft Condition.values
    split <;> simp_all [Sql.Step.bindings]
  | columns left operator right => simp [Condition.draft, Condition.values, Sql.Step.bindings]
  | among column bound negated =>
    cases bound <;> simp [Condition.draft, Condition.values, Sql.Step.bindings]
  | null column negated => simp [Condition.draft, Condition.values, Sql.Step.bindings]
  | between column low high => simp [Condition.draft, Condition.values, Sql.Step.bindings]
  | group clauses =>
    have inner := clausesDraft_values q clauses
    simp [Condition.draft, Condition.values, Sql.Step.bindings, inner]
  | raw sql bindings => simp [Condition.draft, Condition.values, Sql.Step.bindings]

theorem clausesDraft_values (q : Qualifier) (clauses : List Clause) :
    (clausesDraft q clauses).values = clausesValues clauses := by
  cases clauses with
  | nil => rfl
  | cons clause rest =>
    obtain ⟨connective, condition⟩ := clause
    rw [clausesDraft, clausesValues, Sql.Draft.values_append, condition.values_draft q,
      clausesTail_values q rest]

theorem clausesTail_values (q : Qualifier) (clauses : List Clause) :
    (clausesTail q clauses).values = clausesValues clauses := by
  cases clauses with
  | nil => rfl
  | cons clause rest =>
    obtain ⟨connective, condition⟩ := clause
    rw [clausesTail, clausesValues, Sql.Draft.values_cons, Sql.Draft.values_append,
      condition.values_draft q, clausesTail_values q rest]
    rfl

end

@[simp] theorem Filter.values_conditions (f : Filter) (q : Qualifier) :
    (f.conditions q).values = f.values := clausesDraft_values q f.clauses

end EagerLoad
