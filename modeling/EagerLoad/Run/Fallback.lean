import EagerLoad.Relation.Keyed
import EagerLoad.Row.Merge
import EagerLoad.Run.State

/-! # Loading relations one by one

When the optimized statement fails, the base rows are loaded alone, and every relation, count and
aggregate by a statement of its own for the keys of those rows. The results are attached under the
names that the optimized statement would have given them. -/
namespace EagerLoad

structure Loaded where
  rows : List Row
  statements : Nat

namespace Fallback

def baseKey (e : Entity) (relation : String) : Except CompileError String :=
  match e.relation? relation with
  | some r => .ok r.baseKey
  | none => .error (.unknownRelation e.type relation)

def relationNames (p : Plan) : List String :=
  p.relations.map (·.name) ++ p.counts.map (·.relation) ++ p.aggregates.map (·.relation)

/-- The base columns that a plan's relations hang off, each once. -/
def baseKeys (p : Plan) : Except CompileError (List String) :=
  ((relationNames p).mapM (baseKey p.entity)).map distinct

/-- The related rows by the key of their owner, in order. The owner's key is taken out. -/
def groupRows (related : List Row) : List (String × List Json) :=
  related.foldl (fun groups row =>
    match row.key? Keyed.ownerAlias with
    | none => groups
    | some owner =>
      let object := (row.remove Keyed.ownerAlias).toObject
      upsert owner ((groups.lookup owner).getD [] ++ [object]) groups) []

/-- The values by the key of their owner; the last one of an owner counts. -/
def groupValues (rows : List Row) : List (String × Json) :=
  rows.foldl (fun values row =>
    match row.key? Keyed.ownerAlias with
    | none => values
    | some owner => upsert owner ((row.get? Keyed.valueAlias).getD .null) values) []

/-- The value of a relation: all related rows up to the limit, or the first. -/
def relationValue (shape : Shape) (limit : Option Nat) (related : List Json) : Json :=
  match shape with
  | .many => .arr (match limit with
    | some n => related.take n
    | none => related)
  | .one => related.headD .null

/-- Adds a column with what belongs to the key of each row, or with the given value for none. -/
def attach (key label : String) (groups : List (String × α)) (absent : α) (value : α → Json)
    (rows : List Row) : List Row :=
  rows.map fun row =>
    row.set label (value (((row.key? key).bind fun k => groups.lookup k).getD absent))

/-- The columns of a request that the related entity has; all columns if it has none of them. -/
def declaredColumns (related : Entity) (columns : List String) : List String :=
  columns.filter fun c => related.hasColumn c || related.localizedFields.contains c

/-- The columns to load, and whether some that were asked for are left out. -/
def declaredSelection (registry : Registry) (e : Entity) (r : RelationRequest) :
    Except CompileError (ColumnSelection × Bool) :=
  match r.columns with
  | .all => .ok (.all, false)
  | .columns columns =>
    if r.isNested then .ok (r.columns, false)
    else match e.relation? r.name with
      | none => .error (.unknownRelation e.type r.name)
      | some relation => (registry.resolve relation.related).map fun related =>
        let kept := declaredColumns related columns
        (if kept.isEmpty then .all else .columns kept, kept.length < columns.length)

def compileStep (x : Except CompileError α) : Attempt ε σ α :=
  match x with
  | .ok a => return a
  | .error e => throw (.compile e)

def fetchDraft (o : Optimizer ε σ) (timeout : Option Duration) (draft : Sql.Draft) :
    Attempt ε σ (List Row) := do
  ExceptT.lift (Run.follow draft)
  let statement ← compileStep (Statement.ofDraft o.executor.dialect draft)
  match ← ExceptT.lift (o.fetch statement timeout) with
  | .ok rows => return rows
  | .error e => throw (.execution e)

def contextNow (o : Optimizer ε σ) (p : Plan) : Attempt ε σ Context := do
  return p.context (o.compiler (← get).memo)

/-- Loads one relation and attaches it. Without keys there is nothing to load. -/
def loadRelation (o : Optimizer ε σ) (p : Plan) (timeout : Option Duration) (l : Loaded)
    (r : RelationRequest) : Attempt ε σ Loaded := do
  let key ← compileStep (baseKey p.entity r.name)
  let keys := Rows.collectKeys l.rows key
  let shape ← compileStep (r.shape p.entity)
  let value := relationValue shape (Subquery.limitOf r.filter)
  if keys.isEmpty then
    return { l with rows := attach key r.label [] [] value l.rows }
  else
    let (columns, dropped) ← compileStep (declaredSelection o.registry p.entity r)
    if dropped then ExceptT.lift (Run.note .columnsDropped)
    let ctx ← contextNow o p
    let related ← fetchDraft o timeout (Keyed.relation ctx p.entity r columns keys)
    return ⟨attach key r.label (groupRows related) [] value l.rows, l.statements + 1⟩

def loadValues (o : Optimizer ε σ) (p : Plan) (timeout : Option Duration)
    (relation label : String) (absent : Json) (draft : Context → List DbValue → Sql.Draft)
    (l : Loaded) : Attempt ε σ Loaded := do
  let key ← compileStep (baseKey p.entity relation)
  let keys := Rows.collectKeys l.rows key
  if keys.isEmpty then
    return { l with rows := attach key label [] absent id l.rows }
  else
    let rows ← fetchDraft o timeout (draft (← contextNow o p) keys)
    return ⟨attach key label (groupValues rows) absent id l.rows, l.statements + 1⟩

def loadCount (o : Optimizer ε σ) (p : Plan) (timeout : Option Duration) (l : Loaded)
    (c : CountRequest) : Attempt ε σ Loaded :=
  loadValues o p timeout c.relation c.label (.int 0)
    (fun ctx keys => Keyed.count ctx p.entity c keys) l

def loadAggregate (o : Optimizer ε σ) (p : Plan) (timeout : Option Duration) (l : Loaded)
    (a : AggregateRequest) : Attempt ε σ Loaded :=
  loadValues o p timeout a.relation a.label .null
    (fun ctx keys => Keyed.aggregate ctx p.entity a keys) l

/-- Loads the base rows with the keys that relations hang off. -/
def loadBase (o : Optimizer ε σ) (p : Plan) (timeout : Option Duration) (keys : List String) :
    Attempt ε σ (List Row) := do
  fetchDraft o timeout (p.baseOnlyDraft (o.compiler (← get).memo) keys)

/-- The base columns that were selected only as keys. -/
def helperColumns (p : Plan) (c : Compiler) (keys : List String) :
    Except CompileError (List String) :=
  (Columns.resolve p.entity p.columns (p.localization? c)).map fun columns =>
    keys.filter fun key => !columns.names.contains key

/-- Loads a plan's rows and attaches what it asks for; columns selected only as keys are removed. -/
def load (o : Optimizer ε σ) (p : Plan) (timeout : Option Duration) : Attempt ε σ Loaded := do
  let keys ← compileStep (baseKeys p)
  let before := (← get).memo
  let base ← loadBase o p timeout keys
  let helpers ← compileStep (helperColumns p (o.compiler before) keys)
  let loaded ← p.relations.foldlM (loadRelation o p timeout) ⟨base, 1⟩
  let loaded ← p.counts.foldlM (loadCount o p timeout) loaded
  let loaded ← p.aggregates.foldlM (loadAggregate o p timeout) loaded
  ExceptT.lift (Run.note .fallbackLoaded)
  return { loaded with rows := loaded.rows.map fun row => helpers.foldl Row.remove row }

end Fallback
end EagerLoad
