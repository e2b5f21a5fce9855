import Mathlib.Data.List.Forall2
import EagerLoad.Filter.Draft
import EagerLoad.Proofs.Sql.Draft

/-! # The columns that a draft refers to

A draft refers to a column of a table by the table's alias, a point and the column's name. A filter refers to
its columns as its qualifier has it, each once for every time that a condition mentions it. -/
namespace EagerLoad

open Sql Sql.Draft

/-- A reference to a column of a fixed alias, to one that a qualifier finds the alias of, or to whatever a
subquery refers to. -/
inductive Reference where
  | at (name column : String)
  | through (q : Qualifier) (column : String)
  | inner (draft : Draft)

def Reference.draft : Reference → Draft
  | .at name column => qualified name column
  | .through q column => q.column column
  | .inner draft => draft

/-- Whether a draft makes some references, in their order, and has no other points. -/
inductive Cites : List Reference → Draft → Prop where
  | nil : Cites [] []
  | step {step : Step} {refs : List Reference} {rest : Draft} (apart : step ≠ .text ".") :
      Cites refs rest → Cites refs (step :: rest)
  | reference (r : Reference) {refs : List Reference} {rest : Draft} :
      Cites refs rest → Cites (r :: refs) (r.draft ++ rest)

namespace Cites

variable {refs more : List Reference} {a b : Draft}

theorem append (first : Cites refs a) (second : Cites more b) : Cites (refs ++ more) (a ++ b) := by
  induction first with
  | nil => exact second
  | step apart _ ih => exact .step apart ih
  | reference r _ ih =>
    rw [List.append_assoc]
    exact .reference r ih

theorem one (r : Reference) : Cites [r] r.draft := by
  have alone := Cites.reference r .nil
  rwa [List.append_nil] at alone

theorem plain (apart : ∀ step ∈ a, step ≠ .text ".") : Cites [] a := by
  induction a with
  | nil => exact .nil
  | cons step rest ih =>
    refine .step (apart step List.mem_cons_self) (ih fun other known => ?_)
    exact apart other (List.mem_cons_of_mem _ known)

/-- What follows without a point adds no reference. -/
theorem followed (first : Cites refs a) (apart : ∀ step ∈ b, step ≠ .text ".") :
    Cites refs (a ++ b) := by
  have both := first.append (plain apart)
  rwa [List.append_nil] at both

theorem separated (separator : String) (apart : separator ≠ ".") {drafts : List Draft}
    {lists : List (List Reference)} (each : List.Forall₂ Cites lists drafts) :
    Cites lists.flatten (Draft.separated separator drafts) := by
  induction each with
  | nil => exact .nil
  | @cons cited draft _ _ first rest ih =>
    rw [List.flatten_cons]
    cases rest with
    | nil =>
      rw [List.flatten_nil, List.append_nil]
      exact first
    | cons next later =>
      have comma : Step.text separator ≠ .text "." := fun same => apart (Step.text.inj same)
      exact first.append (.step comma ih)

/-- A list of drafts that make one reference each. -/
theorem listed (separator : String) (apart : separator ≠ ".") {drafts : List Draft}
    (each : List.Forall₂ (fun r draft => Cites [r] draft) refs drafts) :
    Cites refs (Draft.separated separator drafts) := by
  have all := separated separator apart (List.forall₂_map_left_iff.mpr each)
  rwa [← List.flatMap_def, List.flatMap_singleton'] at all

theorem each {items : List α} {written : α → Draft} {cited : α → Reference}
    (each : ∀ item ∈ items, Cites [cited item] (written item)) :
    List.Forall₂ (fun r draft => Cites [r] draft) (items.map cited) (items.map written) := by
  rw [List.forall₂_map_left_iff, List.forall₂_map_right_iff, List.forall₂_same]
  exact each

theorem flatMap {items : List α} {written : α → Draft} {cited : α → List Reference}
    (each : ∀ item ∈ items, Cites (cited item) (written item)) :
    Cites (items.flatMap cited) (items.flatMap written) := by
  induction items with
  | nil => exact .nil
  | cons item rest ih =>
    have here := each item List.mem_cons_self
    have later := ih fun other known => each other (List.mem_cons_of_mem _ known)
    rw [List.flatMap_cons, List.flatMap_cons]
    exact here.append later

theorem bindList (values : List DbValue) : Cites [] (Draft.bindList values) := by
  have bound : List.Forall₂ Cites (values.map fun _ => []) (values.map fun v => [.bind v]) := by
    rw [List.forall₂_map_left_iff, List.forall₂_map_right_iff, List.forall₂_same]
    exact fun v _ => .step (by simp) .nil
  have none := separated ", " (by decide) bound
  rwa [← List.flatMap_def, List.flatMap_eq_nil_iff.mpr fun _ _ => rfl] at none

end Cites

theorem Comparison.sql_apart (operator : Comparison) : Step.text operator.sql ≠ .text "." := by
  cases operator <;> simp [Comparison.sql]

theorem Connective.sql_apart (connective : Connective) : Step.text connective.sql ≠ .text "." := by
  cases connective <;> simp [Connective.sql]

theorem Direction.sql_apart (direction : Direction) : Step.text direction.sql ≠ .text "." := by
  cases direction <;> simp [Direction.sql]

mutual

/-- The columns that a condition mentions. A choice among no values mentions none. -/
def Condition.mentions : Condition → List String
  | .compare column _ _ => [column]
  | .columns left _ right => [left, right]
  | .among _ [] _ => []
  | .among column (_ :: _) _ => [column]
  | .null column _ => [column]
  | .between column _ _ => [column]
  | .group clauses => clausesMentions clauses
  | .raw _ _ => []

def clausesMentions : List Clause → List String
  | [] => []
  | (_, condition) :: rest => condition.mentions ++ clausesMentions rest

end

def Filter.mentions (f : Filter) : List String := clausesMentions f.clauses

theorem Filter.mentions_eq_nil {f : Filter} (none : ¬f.hasConditions = true) : f.mentions = [] := by
  have empty : f.clauses = [] := by simpa [Filter.hasConditions] using none
  rw [Filter.mentions, empty, clausesMentions]

def orderReferences (q : Qualifier) (terms : List OrderTerm) : List Reference :=
  terms.map fun t => .through q t.column

section Conditions

variable (q : Qualifier)

theorem OrderTerm.draft_cites (t : OrderTerm) : Cites [.through q t.column] (t.draft q) := by
  have column := Cites.one (.through q t.column)
  exact column.append (.step (by simp) (.step t.direction.sql_apart .nil))

theorem orderDraft_cites (terms : List OrderTerm) :
    Cites (orderReferences q terms) (orderDraft q terms) :=
  .listed _ (by decide) (Cites.each fun t _ => t.draft_cites q)

mutual

theorem Condition.draft_cites (c : Condition) : Cites (c.mentions.map (.through q)) (c.draft q) := by
  have tested (column : String) (negated : Bool) :
      Cites [.through q column] ((Condition.null column negated).draft q) := by
    rw [Condition.draft]
    exact (Cites.one (.through q column)).followed (by cases negated <;> simp)
  cases c with
  | compare column operator value =>
    obtain ⟨negated, same⟩ | same := Condition.draft_compare q column operator value
    · rw [same]
      exact tested column negated
    · rw [same]
      exact (Cites.one (.through q column)).append
        (.step (by simp) (.step operator.sql_apart (.plain (by simp))))
  | columns left operator right =>
    rw [Condition.draft]
    have between : Cites [] [.text " ", .text operator.sql, .text " "] :=
      .step (by simp) (.step operator.sql_apart (.step (by simp) .nil))
    exact ((Cites.one (.through q left)).append between).append (.one (.through q right))
  | among column bound negated =>
    cases bound with
    | nil =>
      rw [Condition.draft]
      exact .step (by cases negated <;> simp) .nil
    | cons value rest =>
      rw [Condition.draft]
      have keyword : Step.text (if negated then " NOT IN (" else " IN (") ≠ .text "." := by
        cases negated <;> simp
      exact ((Cites.one (.through q column)).append (.step keyword (.bindList _))).append
        (.step (by simp) .nil)
  | null column negated => exact tested column negated
  | between column low high =>
    rw [Condition.draft]
    exact (Cites.one (.through q column)).followed (by simp)
  | group clauses =>
    rw [Condition.draft, Condition.mentions]
    exact .step (by simp) ((clausesDraft_cites clauses).followed (by simp))
  | raw sql bindings =>
    rw [Condition.draft]
    exact .plain (by simp)

theorem clausesDraft_cites (clauses : List Clause) :
    Cites ((clausesMentions clauses).map (.through q)) (clausesDraft q clauses) := by
  cases clauses with
  | nil => exact .nil
  | cons clause rest =>
    obtain ⟨connective, condition⟩ := clause
    rw [clausesDraft, clausesMentions, List.map_append]
    exact (condition.draft_cites).append (clausesTail_cites rest)

theorem clausesTail_cites (clauses : List Clause) :
    Cites ((clausesMentions clauses).map (.through q)) (clausesTail q clauses) := by
  cases clauses with
  | nil => exact .nil
  | cons clause rest =>
    obtain ⟨connective, condition⟩ := clause
    rw [clausesTail, clausesMentions, List.map_append]
    exact .step connective.sql_apart ((condition.draft_cites).append (clausesTail_cites rest))

end

theorem Filter.conditions_cites (f : Filter) :
    Cites (f.mentions.map (.through q)) (f.conditions q) := clausesDraft_cites q f.clauses

end Conditions

/-- A column name without a point is left to the qualifier. -/
def Undotted (column : String) : Prop := Text.splitFirst? '.' column.toList = none

instance (column : String) : Decidable (Undotted column) :=
  inferInstanceAs (Decidable (Text.splitFirst? '.' column.toList = none))

theorem column_of_undotted {column : String} (undotted : Undotted column) (table : String) :
    Draft.column (some table) column = qualified table column := by
  unfold Undotted at undotted
  unfold Draft.column
  rw [undotted]

/-- Localized fields are left to the satellite, other columns to the table. -/
theorem Qualifier.forColumn_localize (table satellite : String) (fields : List String) (column : String) :
    ((ofTable table).localize satellite fields).forColumn column =
      some (if fields.contains column then satellite else table) := by
  by_cases none : fields = []
  · simp [localize, forColumn, ofTable, none]
  · by_cases own : column ∈ fields <;> simp [localize, forColumn, ofTable, none, own]

namespace Qualifier

variable {column : String} (undotted : Undotted column)
include undotted

theorem column_ofTable (table : String) :
    (Qualifier.ofTable table).column column = qualified table column :=
  column_of_undotted undotted table

/-- A localized field is read from the satellite. -/
theorem column_localized {fields : List String} (localized : column ∈ fields) (q : Qualifier)
    (satellite : String) : (q.localize satellite fields).column column = qualified satellite column := by
  have full : fields.isEmpty = false := List.isEmpty_eq_false_iff.mpr (List.ne_nil_of_mem localized)
  have reads : (q.localize satellite fields).forColumn column = some satellite := by
    simp [Qualifier.localize, full, Qualifier.forColumn, localized]
  rw [Qualifier.column, reads]
  exact column_of_undotted undotted satellite

end Qualifier

namespace Reference

/-- The column that a reference names, with its table if it has a point. -/
def column? : Reference → Option String
  | .at _ column | .through _ column => some column
  | .inner _ => none

/-- Whether a reference is to a column of one of some aliases. One that names its table itself counts as
such. -/
def ReadsFrom (aliases : List String) : Reference → Prop
  | .at name _ => name ∈ aliases
  | .through q column => Undotted column → ∃ name ∈ aliases, q.column column = qualified name column
  | .inner _ => False

/-- Whether a reference is to one of some aliases if it names a localized column. -/
def Localized (fields aliases : List String) (r : Reference) : Prop :=
  ∀ x ∈ fields, r.column? = some x → r.ReadsFrom aliases

end Reference
end EagerLoad
