import EagerLoad.Proofs.Plan.Keys
import EagerLoad.Proofs.Row.Groups

/-! # A database behind the statements of a plan

A database holds the base rows and, for every relation, count and aggregate, the related rows with the
keys of their owners. It says what the statement of a whole plan answers, and what the base statement
and the statements for owner keys answer. -/
namespace EagerLoad

/-- The related rows of a label, filtered and in order, stand with the keys of their owners. -/
structure Database where
  rows : List Row
  pairs : String → List (Json × Row)
  total : AggregateRequest → List Row → Json
  total_nil : ∀ a, total a [] = .null
  /-- Whether a stored key equals a bound value. -/
  equal : Json → DbValue → Bool

namespace Row

def select (names : List String) (row : Row) : Row :=
  names.map fun name => (name, (row.get? name).getD .null)

/-- Whether a row shows the listed columns of another one and nothing else, apart from some labels. -/
def Shows (labels columns : List String) (row shown : Row) : Prop :=
  ∀ x, x ∉ labels → shown.get? x = if x ∈ columns then row.get? x else none

theorem shows_iff (labels columns : List String) (row shown : Row) :
    Shows labels columns row shown ↔ ∀ x ∈ columns ++ shown.map (·.1), x ∉ labels →
      shown.get? x = if x ∈ columns then row.get? x else none := by
  refine ⟨fun shows x _ => shows x, fun shows x other => ?_⟩
  by_cases found : x ∈ columns ++ shown.map (·.1)
  · exact shows x found other
  · rw [List.mem_append, not_or] at found
    rw [get?_eq_none shown found.2, if_neg found.1]

instance (labels columns : List String) : DecidableRel (Shows labels columns) := fun row shown =>
  decidable_of_iff _ (shows_iff labels columns row shown).symm

end Row

/-- Whether a column holds related objects as text: all of them up to a limit, or the first one. -/
def HoldsText (shape : Shape) (limit : Option Nat) (objects : List Json) (column : Json) : Prop :=
  match shape, objects with
  | .many, objects => ∃ text, column = .str text ∧
      Json.parse? text = some (.arr (limit.elim objects objects.take))
  | .one, [] => column = .null
  | .one, object :: _ => ∃ text, column = .str text ∧ Json.parse? text = some object

namespace Database

variable (db : Database)

def owned (label : String) (key : Option String) : List Row :=
  match key with
  | none => []
  | some text => ((db.pairs label).filter fun pair => pair.1.keyText? = some text).map (·.2)

/-- The keys that the base rows have in a column. -/
def keys (key : String) : List DbValue := Rows.collectKeys db.rows key

/-- The pairs whose owner is among the keys that are bound. -/
def bound (label key : String) : List (Json × Row) :=
  (db.pairs label).filter fun pair => (db.keys key).any (db.equal pair.1)

/-- Whether the database finds the owners equal to the base rows' keys that have the same text. -/
def ComparesText (label key : String) : Prop :=
  ∀ row ∈ db.rows, ∀ value ∈ row.get? key, value.isNull = false → ∀ pair ∈ db.pairs label,
    db.equal pair.1 (.ofJson value) = true ↔ pair.1.keyText? = value.keyText?

instance (label key : String) : Decidable (db.ComparesText label key) :=
  inferInstanceAs (Decidable (∀ row ∈ db.rows, ∀ value ∈ row.get? key, value.isNull = false →
    ∀ pair ∈ db.pairs label,
      db.equal pair.1 (.ofJson value) = true ↔ pair.1.keyText? = value.keyText?))

/-- Whether an answer has one value for every owner that is bound. -/
def Groups (label key : String) (value : List Row → Json) (answer : List Row) : Prop :=
  (∀ row ∈ answer, ∀ text ∈ row.key? Keyed.ownerAlias,
    row.get? Keyed.valueAlias = some (value (db.owned label (some text)))) ∧
  ∀ pair ∈ db.bound label key, ∃ row ∈ answer, row.key? Keyed.ownerAlias = pair.1.keyText?

instance (label key : String) (value : List Row → Json) :
    DecidablePred (db.Groups label key value) := fun answer =>
  inferInstanceAs (Decidable ((∀ row ∈ answer, ∀ text ∈ row.key? Keyed.ownerAlias,
    row.get? Keyed.valueAlias = some (value (db.owned label (some text)))) ∧
  ∀ pair ∈ db.bound label key, ∃ row ∈ answer, row.key? Keyed.ownerAlias = pair.1.keyText?))

def objects (p : Plan) (c : Compiler) (r : RelationRequest) (row : Row) : List Json :=
  (db.owned r.label (row.key? (p.keyOf r.name))).map fun related =>
    (related.select (p.relatedColumns c r)).toObject

/-- The rows that a relation's statement for owner keys answers. -/
def keyedRows (p : Plan) (c : Compiler) (r : RelationRequest) : List Row :=
  (db.bound r.label (p.keyOf r.name)).map fun pair =>
    (Keyed.ownerAlias, pair.1) :: pair.2.select (p.relatedColumns c r)

structure ShowsWhole (p : Plan) (c : Compiler) (row shown : Row) : Prop where
  relations : ∀ r ∈ p.relations, ∀ shape, r.shape p.entity = .ok shape →
    ∃ column, shown.get? r.label = some column ∧
      HoldsText shape (Subquery.limitOf r.filter) (db.objects p c r row) column
  counts : ∀ count ∈ p.counts, shown.get? count.label =
    some (.int (db.owned count.label (row.key? (p.keyOf count.relation))).length)
  aggregates : ∀ a ∈ p.aggregates, shown.get? a.label =
    some (db.total a (db.owned a.label (row.key? (p.keyOf a.relation))))
  columns : Row.Shows p.labels (p.outputs c p.wholePart) row shown

/-- Whether an executor, whatever its state, answers a draft with rows of which something holds. -/
def Answers (o : Optimizer ε σ) (timeout : Option Duration) (draft : Sql.Draft)
    (post : List Row → Prop) : Prop :=
  ∀ statement, Statement.ofDraft o.executor.dialect draft = .ok statement →
    ∀ e, ∃ rows, (o.executor.fetch statement timeout e).answer = .ok rows ∧ post rows

/-- Whether an executor answers the statements of a plan from the database. -/
structure AnsweredBy (o : Optimizer ε σ) (timeout : Option Duration) (p : Plan) (c : Compiler) :
    Prop where
  whole : Answers o timeout (p.unsplitDraft c) fun rows =>
    List.Forall₂ (db.ShowsWhole p c) db.rows rows
  base : Answers o timeout (p.baseOnlyDraft c p.keys) fun rows =>
    List.Forall₂ (Row.Shows [] (p.outputs c (Plan.basePart p.keys))) db.rows rows
  relations : ∀ r ∈ p.relations, db.ComparesText r.label (p.keyOf r.name) ∧
    Answers o timeout
      (Keyed.relation (p.context c) p.entity r r.columns (db.keys (p.keyOf r.name)))
      fun rows => rows = db.keyedRows p c r
  counts : ∀ count ∈ p.counts, db.ComparesText count.label (p.keyOf count.relation) ∧
    Answers o timeout
      (Keyed.count (p.context c) p.entity count (db.keys (p.keyOf count.relation)))
      (db.Groups count.label (p.keyOf count.relation) fun related => .int related.length)
  aggregates : ∀ a ∈ p.aggregates, db.ComparesText a.label (p.keyOf a.relation) ∧
    Answers o timeout
      (Keyed.aggregate (p.context c) p.entity a (db.keys (p.keyOf a.relation)))
      (db.Groups a.label (p.keyOf a.relation) (db.total a))

end Database
end EagerLoad
