import EagerLoad.Proofs.Run.Fallback
import EagerLoad.Proofs.Run.Served

/-! # What loaded rows show

What the fallback attaches to a row stands among the columns of the row, with the keys that it is attached by.
A label that names a key takes the place of the key: what is attached later is looked up by what stands there
by then. If the key was selected for nothing else, the value under the label is removed with it. -/
namespace EagerLoad

namespace Fallback

variable {p : Plan} {services : List Service} {row : Row}

theorem get?_putAll_of_other {x : String} (other : ∀ s ∈ services, x ≠ s.request.label) :
    (putAll p services row).get? x = row.get? x := by
  induction services generalizing row with
  | nil => rfl
  | cons s rest ih =>
    have later := @ih (s.put p row) fun t listed => other t (List.mem_cons_of_mem s listed)
    rw [putAll, List.foldl_cons, ← putAll, later, Service.put, Request.put, Row.get?_set,
      if_neg (other s List.mem_cons_self)]

/-- A label that is not attached again has the value for the key that the row had by then. -/
theorem get?_putAll {before after : List Service} {s : Service}
    (last : ∀ t ∈ after, s.request.label ≠ t.request.label) :
    (putAll p (before ++ s :: after) row).get? s.request.label =
      some (s.request.value p.entity s.answer ((putAll p before row).key? (p.keyOf s.request.name))) := by
  rw [putAll_append, putAll, List.foldl_cons, ← putAll, get?_putAll_of_other last, Service.put, Request.put,
    Row.get?_set, if_pos rfl]

theorem hasColumn_putAll {x : String} (held : row.hasColumn x = true) :
    (putAll p services row).hasColumn x = true := by
  induction services generalizing row with
  | nil => exact held
  | cons s rest ih =>
    refine @ih (s.put p row) ?_
    rw [Row.hasColumn, Service.put, Request.put, Row.get?_set]
    split
    · rfl
    · exact held

/-- What became of a base row. -/
structure Assembles (p : Plan) (own : Columns) (services : List Service) (row shown : Row) : Prop where
  /-- A label has the value for the key that the row had when it was attached, unless it is the name of a
  column that is selected only as a key: then nothing is left under it. -/
  label : ∀ before s after, services = before ++ s :: after →
    shown.get? s.request.label =
      if s.request.label ∈ helpers p own then none
      else some (s.request.value p.entity s.answer ((putAll p before row).key? (p.keyOf s.request.name)))
  /-- The key is that of the base row, unless a label that was attached before is its name. -/
  key : ∀ before s after, services = before ++ s :: after →
    (∀ t ∈ before, p.keyOf s.request.name ≠ t.request.label) →
      (putAll p before row).key? (p.keyOf s.request.name) = row.key? (p.keyOf s.request.name)
  /-- Without a label that is its name, a column stays as it is, unless it is selected only as a key. -/
  column : ∀ x ∉ p.labels, shown.get? x = if x ∈ helpers p own then none else row.get? x
  /-- No other column of the base row is missing. -/
  kept : ∀ x, row.hasColumn x = true → shown.hasColumn x = false → x ∈ helpers p own

namespace Request

/-- Whether a request is for one value of all related rows. -/
def isScalar : Request → Bool
  | relation _ => false
  | count _ | aggregate _ => true

end Request

/-- Whether a loaded row keeps what was asked for. -/
structure Keeps (p : Plan) (own : Columns) (services : List Service) (row shown : Row) : Prop where
  /-- There is a value under every label. -/
  labels : ∀ s ∈ services, shown.hasColumn s.request.label = true
  /-- A count or an aggregate is that of the key in the base row. -/
  scalars : ∀ s ∈ services, s.request.isScalar = true → shown.get? s.request.label =
    some (s.request.value p.entity s.answer (row.key? (p.keyOf s.request.name)))
  /-- Only columns that were selected as keys and for nothing else are missing. -/
  columns : ∀ x, row.hasColumn x = true → shown.hasColumn x = false → x ∈ helpers p own

section Rows

variable {own : Columns} {shown : Row} (asked : services.map Service.request = requests p)
include asked

theorem map_label_of_asked : services.map (fun s => s.request.label) = p.labels := by
  rw [← labels_requests, ← asked, List.map_map]
  rfl

theorem assembles (distinct : p.labels.Nodup) (row : Row) :
    Assembles p own services row ((helpers p own).foldl Row.remove (putAll p services row)) := by
  have labels := map_label_of_asked asked
  constructor
  case label =>
    rintro before s after rfl
    rw [← labels, List.map_append, List.map_cons] at distinct
    have unlisted := (List.nodup_cons.mp (List.nodup_append.mp distinct).2.1).1
    rw [Row.get?_foldl_remove, get?_putAll]
    exact fun t listed same => unlisted (List.mem_map.mpr ⟨t, listed, same.symm⟩)
  case key =>
    rintro before s after rfl other
    rw [Row.key?, get?_putAll_of_other other, Row.key?]
  case column =>
    intro x unlabelled
    rw [Row.get?_foldl_remove, get?_putAll_of_other]
    rintro s listed rfl
    exact unlabelled (labels ▸ List.mem_map_of_mem listed)
  case kept =>
    intro x held missing
    by_contra visible
    rw [Row.hasColumn, Row.get?_foldl_remove, if_neg visible, ← Row.hasColumn, hasColumn_putAll held] at missing
    cases missing

/-- If no label names a key, all is kept. -/
theorem Assembles.keeps (assembles : Assembles p own services row shown)
    (apart : ∀ key ∈ p.keys, key ∉ p.labels) : Keeps p own services row shown := by
  have listed (s) (known : s ∈ services) : s.request.label ∈ p.labels :=
    map_label_of_asked asked ▸ List.mem_map_of_mem known
  have value (s) (known : s ∈ services) : shown.get? s.request.label =
      some (s.request.value p.entity s.answer (row.key? (p.keyOf s.request.name))) := by
    obtain ⟨before, after, split⟩ := List.append_of_mem known
    have visible : s.request.label ∉ helpers p own :=
      fun hidden => apart _ (List.mem_of_mem_filter hidden) (listed s known)
    have named : p.keyOf s.request.name ∈ p.keys :=
      Plan.mem_keys.mpr ⟨_, names_requests p ▸ List.mem_map_of_mem (asked ▸ List.mem_map_of_mem known), rfl⟩
    have same := assembles.key before s after split fun t earlier equal =>
      apart _ named (equal ▸ listed t (split ▸ List.mem_append_left _ earlier))
    rw [assembles.label before s after split, if_neg visible, same]
  constructor
  case labels =>
    intro s known
    rw [Row.hasColumn, value s known]
    rfl
  case scalars => exact fun s known _ => value s known
  case columns => exact assembles.kept

end Rows

/-- What loading sends. -/
def sent (o : Optimizer ε σ) (p : Plan) (timeout : Option Duration) (s : State ε σ) : List Exchange :=
  Journaled.exchanges ((load o.journaled p timeout).run s.opened).2

/-- Whether what was sent are the base statement and, in order, the statements that serve the requests, each
due for what the rows had become. -/
structure Serving (o : Optimizer ε σ) (p : Plan) (sent : List Exchange) (own : Columns) (base : List Row)
    (services : List Service) : Prop where
  sent : ∃ memo statement, p.baseOnly (o.compiler memo) p.keys = .ok statement ∧
    Columns.resolve p.entity p.columns (p.localization? (o.compiler memo)) = .ok own ∧
    sent = ⟨statement, .ok base⟩ :: services.filterMap Service.exchange?
  asked : services.map Service.request = requests p
  due : ∀ before s after, services = before ++ s :: after → s.Due o p (base.map (putAll p before))

theorem catalogue_loads : ∃ loaded, ((load Catalogue.optimizer Catalogue.authors none).run Catalogue.start).1 =
    .ok loaded := by
  have succeeds :
      ((load Catalogue.optimizer Catalogue.authors none).run Catalogue.start).1.toOption.isSome = true := by
    decide +kernel
  cases loads : ((load Catalogue.optimizer Catalogue.authors none).run Catalogue.start).1 with
  | ok loaded => exact ⟨loaded, rfl⟩
  | error e =>
    rw [loads] at succeeds
    cases succeeds

/-- What loading gives are the base rows with what the services put into them, without the helpers. -/
theorem load_serving (o : Optimizer ε σ) (p : Plan) (timeout : Option Duration) (s : State ε σ) {loaded : Loaded}
    (loads : ((load o p timeout).run s).1 = .ok loaded) :
    ∃ own base services, Serving o p (sent o p timeout s) own base services ∧
      loaded.rows = base.map fun row => (helpers p own).foldl Row.remove (putAll p services row) := by
  obtain ⟨same, -⟩ := o.journaled_twins.load p timeout s.opened s rfl
  obtain ⟨all, exchanges, gathers⟩ := load_gathers o p timeout s.opened loaded (same.trans loads)
  obtain ⟨memo, own, statement, base, services, written, resolved, asked, rfl, serves, rows, -⟩ := gathers
  refine ⟨own, base, services, ⟨⟨memo, statement, written, resolved, exchanges⟩, asked, ?_⟩, rows⟩
  rintro before s after rfl
  exact serves.due

/-- What loading gives, row by row: all that was asked for, if no label names a key. -/
theorem load_assembles (o : Optimizer ε σ) (p : Plan) (timeout : Option Duration) (s : State ε σ)
    (distinct : p.labels.Nodup) {loaded : Loaded} (loads : ((load o p timeout).run s).1 = .ok loaded) :
    ∃ own base services, Serving o p (sent o p timeout s) own base services ∧
      List.Forall₂ (Assembles p own services) base loaded.rows ∧
      ((∀ key ∈ p.keys, key ∉ p.labels) → List.Forall₂ (Keeps p own services) base loaded.rows) := by
  obtain ⟨own, base, services, serving, rows⟩ := load_serving o p timeout s loads
  have shown : List.Forall₂ (Assembles p own services) base loaded.rows := by
    rw [rows, List.forall₂_map_right_iff, List.forall₂_same]
    exact fun row _ => assembles serving.asked distinct row
  exact ⟨own, base, services, serving, shown,
    fun apart => shown.imp fun row shown each => each.keeps serving.asked apart⟩

open Catalogue in
theorem load_assembles_catalogue :
    authors.labels.Nodup ∧ (∀ key ∈ authors.keys, key ∉ authors.labels) ∧
      ∃ loaded own base services,
        ((load optimizer authors none).run start).1 = .ok loaded ∧
        Serving optimizer authors (sent optimizer authors none start) own base services ∧
        List.Forall₂ (Assembles authors own services) base loaded.rows ∧
        List.Forall₂ (Keeps authors own services) base loaded.rows := by
  have distinct : authors.labels.Nodup := by decide
  have apart : ∀ key ∈ authors.keys, key ∉ authors.labels := by decide
  obtain ⟨loaded, loads⟩ := catalogue_loads
  obtain ⟨own, base, services, serving, shown, keeps⟩ :=
    load_assembles optimizer authors none start distinct loads
  exact ⟨distinct, apart, loaded, own, base, services, loads, serving, shown, keeps apart⟩

/-- Whether loading keeps what was asked for in every row. -/
def Keeping (o : Optimizer ε σ) (p : Plan) (timeout : Option Duration) (s : State ε σ) : Prop :=
  p.labels.Nodup → ∀ loaded, ((load o p timeout).run s).1 = .ok loaded →
    ∃ own base services, Serving o p (sent o p timeout s) own base services ∧
      List.Forall₂ (Keeps p own services) base loaded.rows

end Fallback

namespace Desk

def author : RelationRequest := { name := "author_id", kind := .single, columns := .columns ["name"] }

/-- The titles of posts, with a relation that is named like its key. -/
def posts : Plan :=
  { entity :=
      { type := "Post", table := "posts", relations := [("author_id", .belongsTo "Author" "author_id" "id")] }
    columns := .columns ["title"]
    relations := [author]
    counts := [{ relation := "author_id" }] }

def answer (statement : Statement) : List Row :=
  match statement.bindings with
  | [] => [[("title", .str "On rows"), ("author_id", .int 7)]]
  | .int64 7 :: _ => [[("__owner_key", .int 7), ("name", .str "Ann")]]
  | _ => [[("__owner_key", .int 7), ("aggregate", .int 1)]]

def optimizer : Optimizer Unit Unit :=
  { config := {}
    registry := Registry.register [] { type := "Author", table := "authors", columns := ["name"] }
    executor := ⟨.sqlite, fun statement _ _ => { answer := .ok (answer statement), next := () }⟩
    store := none }

def start : State Unit Unit := { executor := (), store := () }

def loaded : Loaded := ⟨[[("title", .str "On rows"), ("author_id_count", .int 0)]], 3⟩

theorem loads : ((Fallback.load optimizer posts none).run start).1 = .ok loaded := by
  rfl

end Desk

open Desk in
/-- The relation is removed as the key that it replaced, and what it replaced it by is the key of the count. -/
theorem Fallback.not_keeping_desk : ¬Keeping optimizer posts none start := by
  intro keeping
  obtain ⟨own, base, services, serving, keeps⟩ := keeping (by decide) loaded loads
  have asked : Request.relation author ∈ services.map Service.request := by
    rw [serving.asked]
    exact List.mem_cons_self
  obtain ⟨s, known, same⟩ := List.mem_map.mp asked
  cases keeps with
  | cons first _ =>
    have shown := first.labels s known
    rw [same] at shown
    exact absurd shown (by decide)

end EagerLoad
