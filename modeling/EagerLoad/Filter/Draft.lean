import EagerLoad.Filter.Basic
import EagerLoad.Sql.Draft

/-! # Filters in SQL

The conditions and the order of a filter as drafts. A qualifier says which table an undotted column
belongs to. -/
namespace EagerLoad

/-- The table of undotted columns, and the alias that localized columns belong to instead. -/
structure Qualifier where
  table : Option String := none
  localized : Option (String × List String) := none
deriving DecidableEq, Repr

namespace Qualifier

def ofTable (table : String) : Qualifier := ⟨some table, none⟩

/-- Reads the given fields from an alias; without fields nothing changes. -/
def localize (q : Qualifier) (satellite : String) (fields : List String) : Qualifier :=
  if fields.isEmpty then q else { q with localized := some (satellite, fields) }

def forColumn (q : Qualifier) (column : String) : Option String :=
  match q.localized with
  | some (satellite, fields) => if fields.contains column then some satellite else q.table
  | none => q.table

def column (q : Qualifier) (name : String) : Sql.Draft := Sql.Draft.column (q.forColumn name) name

end Qualifier

def OrderTerm.draft (q : Qualifier) (t : OrderTerm) : Sql.Draft :=
  q.column t.column ++ [.text " ", .text t.direction.sql]

def orderDraft (q : Qualifier) (terms : List OrderTerm) : Sql.Draft :=
  Sql.Draft.separated ", " (terms.map (OrderTerm.draft q))

mutual

/-- A comparison with null for equality is a test for null, and a choice among no values is a
constant. -/
def Condition.draft (q : Qualifier) : Condition → Sql.Draft
  | .compare column .equal .null => q.column column ++ [.text " IS NULL"]
  | .compare column .notEqual .null => q.column column ++ [.text " IS NOT NULL"]
  | .compare column operator value =>
    q.column column ++ [.text " ", .text operator.sql, .text " ", .bind value]
  | .columns left operator right =>
    q.column left ++ [.text " ", .text operator.sql, .text " "] ++ q.column right
  | .among _ [] negated => [.text (if negated then "1 = 1" else "1 = 0")]
  | .among column (value :: values) negated =>
    q.column column ++ .text (if negated then " NOT IN (" else " IN (") ::
      Sql.Draft.bindList (value :: values) ++ [.text ")"]
  | .null column negated =>
    q.column column ++ [.text (if negated then " IS NOT NULL" else " IS NULL")]
  | .between column low high =>
    q.column column ++ [.text " BETWEEN ", .bind low, .text " AND ", .bind high]
  | .group clauses => .text "(" :: clausesDraft q clauses ++ [.text ")"]
  | .raw sql bindings => [.text "(", .raw sql bindings, .text ")"]

/-- Clauses, the connective of the first left out. -/
def clausesDraft (q : Qualifier) : List Clause → Sql.Draft
  | [] => []
  | (_, condition) :: rest => condition.draft q ++ clausesTail q rest

def clausesTail (q : Qualifier) : List Clause → Sql.Draft
  | [] => []
  | (connective, condition) :: rest =>
    .text connective.sql :: (condition.draft q ++ clausesTail q rest)

end

/-- A comparison is written as a test for null, or with the value that it binds. -/
theorem Condition.draft_compare (q : Qualifier) (column : String) (operator : Comparison)
    (value : DbValue) :
    (∃ negated, (compare column operator value).draft q = (null column negated).draft q) ∨
      (compare column operator value).draft q =
        q.column column ++ [.text " ", .text operator.sql, .text " ", .bind value] := by
  cases value with
  | null =>
    cases operator with
    | equal => exact .inl ⟨false, rfl⟩
    | notEqual => exact .inl ⟨true, rfl⟩
    | _ => exact .inr rfl
  | _ => cases operator <;> exact .inr rfl

namespace Filter

def conditions (f : Filter) (q : Qualifier) : Sql.Draft := clausesDraft q f.clauses

def orderTerms (f : Filter) (q : Qualifier) : Sql.Draft := orderDraft q f.order

end Filter
end EagerLoad
