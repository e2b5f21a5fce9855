import Mathlib.Data.List.Nodup
import EagerLoad.Proofs.Run.Loading

/-! # The fallback keeps the records

Loading relations one by one gives every base row the values that the statement of the whole plan
would have given it, as text or as values. Columns that were selected only as keys are removed. The
decoded records are the same. -/
namespace EagerLoad

open Sql.Draft

namespace Fallback

open Database

variable {db : Database} {p : Plan}

theorem entries_labels (db : Database) (p : Plan) (c : Compiler) :
    (entries db p c).map (·.1) = p.labels := by
  simp only [entries, Plan.labels, List.map_append, List.map_map]
  rfl

/-- A column that holds related objects as text decodes to what they are loaded as. -/
theorem decode_relationValue {shape : Shape} {limit : Option Nat} {objects : List Json}
    {column : Json} (holds : HoldsText shape limit objects column)
    (plain : ∀ object ∈ objects, ∃ fields, object = .obj fields) (wanted : Shape) :
    (Decode.value wanted column).1 = (Decode.value wanted (relationValue shape limit objects)).1 := by
  cases shape with
  | many =>
    obtain ⟨text, rfl, parsed⟩ := holds
    have value : relationValue .many limit objects = .arr (limit.elim objects objects.take) := by
      cases limit <;> rfl
    rw [value, Decode.value, parsed]
    rfl
  | one =>
    cases objects with
    | nil =>
      obtain rfl : column = .null := holds
      rfl
    | cons object rest =>
      obtain ⟨text, rfl, parsed⟩ := holds
      obtain ⟨fields, rfl⟩ := plain object (by simp)
      rw [Decode.value, parsed]
      rfl

section Agree

variable {c : Compiler} {own : Columns} {layout : Layout} {row whole shown : Row}
  (labels : p.labels.Nodup) (shows : db.ShowsWhole p c row whole)
  (carries : Row.Carries (p.outputs c (Plan.basePart p.keys)) (entries db p c).reverse row shown)
include carries

theorem get?_of_entry (labels : p.labels.Nodup) {label : String} {value : Row → Json}
    (listed : (label, value) ∈ entries db p c) : shown.get? label = some (value row) := by
  have distinct : ((entries db p c).reverse.map (·.1)).Nodup := by
    rw [List.map_reverse, List.nodup_reverse, entries_labels]
    exact labels
  rw [carries label, lookup_of_mem distinct (List.mem_reverse.mpr listed)]

theorem get?_of_unlabelled {x : String} (other : p.isSubqueryLabel x = false) :
    shown.get? x = if x ∈ p.outputs c (Plan.basePart p.keys) then row.get? x else none := by
  have unlisted : (entries db p c).reverse.lookup x = none := by
    rw [List.lookup_eq_none_iff]
    intro entry found
    have label : entry.1 ∈ (entries db p c).map (·.1) :=
      List.mem_map_of_mem (List.mem_reverse.mp found)
    rw [entries_labels, Plan.mem_labels] at label
    rw [bne_iff_ne]
    rintro rfl
    exact Bool.false_ne_true (other.symm.trans label)
  rw [carries x, unlisted]

include labels shows

/-- The columns of subqueries agree up to decoding. -/
theorem agree_of_label (shaped : p.layout = .ok layout) {x : String}
    (label : p.isSubqueryLabel x = true) :
    whole.get? x = shown.get? x ∨ (∃ slot ∈ layout, slot.label = x) ∧
      ∃ v w, whole.get? x = some v ∧ shown.get? x = some w ∧
        ∀ shape, (Decode.value shape v).1 = (Decode.value shape w).1 := by
  obtain found | found | found := Plan.isSubqueryLabel_iff.mp label
  · obtain ⟨r, known, rfl⟩ := List.mem_map.mp found
    obtain ⟨slot, listed, named⟩ := exists_of_forall₂ (mapM_eq_ok_iff.mp shaped) known
    obtain ⟨shape, sized, rfl⟩ := map_eq_ok_iff.mp named
    obtain ⟨column, held, text⟩ := shows.relations r known shape sized
    have loaded := get?_of_entry carries labels (by
      simp only [entries, List.mem_append]
      exact .inl (.inl (List.mem_map_of_mem known)))
    refine .inr ⟨⟨_, listed, rfl⟩, column, _, held, loaded, ?_⟩
    have objects : ∀ object ∈ db.objects p c r row, ∃ fields, object = .obj fields := by
      intro object found
      obtain ⟨related, -, rfl⟩ := List.mem_map.mp found
      exact ⟨_, rfl⟩
    rw [sized]
    exact decode_relationValue text objects
  · obtain ⟨count, known, rfl⟩ := List.mem_map.mp found
    have loaded := get?_of_entry carries labels (by
      simp only [entries, List.mem_append]
      exact .inl (.inr (List.mem_map_of_mem known)))
    exact .inl ((shows.counts count known).trans loaded.symm)
  · obtain ⟨a, known, rfl⟩ := List.mem_map.mp found
    have loaded := get?_of_entry carries labels (by
      simp only [entries, List.mem_append]
      exact .inr (List.mem_map_of_mem known))
    exact .inl ((shows.aggregates a known).trans loaded.symm)

/-- A row of the statement of the whole plan and a loaded row agree up to decoding, once the keys that
are not asked for are removed. -/
theorem agree_of_carries (shaped : p.layout = .ok layout)
    (resolved : Columns.resolve p.entity p.columns (p.localization? c) = .ok own)
    (apart : ∀ key ∈ p.keys, p.isSubqueryLabel key = false) :
    layout.Agree whole
      ((p.keys.filter fun key => !own.names.contains key).foldl Row.remove shown) := by
  intro x
  rw [Row.get?_foldl_remove]
  by_cases label : p.isSubqueryLabel x = true
  · have kept : x ∉ p.keys.filter fun key => !own.names.contains key := by
      intro found
      rw [apart x (List.mem_of_mem_filter found)] at label
      exact Bool.false_ne_true label
    rw [if_neg kept]
    exact agree_of_label labels shows carries shaped label
  · have other : p.isSubqueryLabel x = false := by simpa using label
    have outputs := Plan.mem_outputs_whole_iff resolved other
    have unlabelled : x ∉ p.labels := by
      rw [Plan.mem_labels, other]
      exact Bool.false_ne_true
    left
    rw [shows.columns x unlabelled, get?_of_unlabelled carries other]
    by_cases hidden : x ∈ p.keys.filter fun key => !own.names.contains key
    · rw [if_pos hidden, if_neg fun found => (outputs.mp found).2 hidden]
    · simp only [outputs, hidden, not_false_eq_true, and_true, if_false]

end Agree

end Fallback

namespace Catalogue

def books : RelationRequest :=
  { name := "books", kind := .collection, columns := .columns ["title"]
    filter := some (({} : Filter).withLimit 1) }

def editor : RelationRequest := { name := "editor", kind := .single }

def oldBooks : CountRequest :=
  { relation := "books", filter := some (({} : Filter).and (.compare "year" .lessThan (.int32 1999))) }

def latest : AggregateRequest :=
  { relation := "books", column := "year", function := .max
    filter := some ((({} : Filter).and (.between "year" (.int32 1990) (.int32 2010))).and
      (.compare "year" .notEqual (.int32 2000))) }

/-- The names of authors with a book, their editor, the number of their old books and the year of the
latest one. -/
def authors : Plan :=
  { entity :=
      { type := "Author", table := "authors"
        relations :=
          [("books", .hasMany "Book" "author" "id"), ("editor", .belongsTo "Editor" "editor_id" "id")] }
    columns := .columns ["name"]
    relations := [books, editor]
    counts := [oldBooks]
    aggregates := [latest] }

def held : Database where
  rows :=
    [[("id", .int 1), ("name", .str "Ann"), ("editor_id", .int 7)],
      [("id", .int 2), ("name", .str "Bo"), ("editor_id", .null)]]
  pairs label := match label with
    | "books" =>
      [(.int 1, [("title", .str "A")]), (.int 2, [("title", .str "B")]), (.int 1, [("title", .str "C")]),
        (.int 3, [("title", .str "D")])]
    | "editor" => [(.int 7, [("id", .int 7), ("name", .str "Eve")])]
    | "books_count" => [(.int 1, []), (.int 1, [])]
    | _ => [(.int 2, [("year", .int 1995)])]
  total _ related := match related with
    | [] => .null
    | row :: _ => (row.get? "year").getD .null
  total_nil _ := rfl
  equal stored key := !stored.isNull && stored.keyText? == key.toJson.keyText?

def wholeRows : List Row :=
  [[("name", .str "Ann"), ("books", .str "[\x7b\"title\":\"A\"\x7d]"),
      ("editor", .str "\x7b\"id\":7,\"name\":\"Eve\"\x7d"), ("books_count", .int 2),
      ("max_books_year", .null)],
    [("name", .str "Bo"), ("books", .str "[\x7b\"title\":\"B\"\x7d]"), ("editor", .null),
      ("books_count", .int 0), ("max_books_year", .int 1995)]]

def baseRows : List Row :=
  [[("name", .str "Ann"), ("id", .int 1), ("editor_id", .int 7)],
    [("name", .str "Bo"), ("id", .int 2), ("editor_id", .null)]]

def bookRows : List Row :=
  [[("__owner_key", .int 1), ("title", .str "A")], [("__owner_key", .int 2), ("title", .str "B")],
    [("__owner_key", .int 1), ("title", .str "C")]]

def editorRows : List Row := [[("__owner_key", .int 7), ("id", .int 7), ("name", .str "Eve")]]

def countRows : List Row := [[("__owner_key", .int 1), ("aggregate", .int 2)]]

def latestRows : List Row := [[("__owner_key", .int 2), ("aggregate", .int 1995)]]

/-- No two statements bind equally many values. -/
def answer (statement : Statement) : List Row :=
  match statement.bindings.length with
  | 0 => baseRows
  | 1 => editorRows
  | 2 => bookRows
  | 3 => countRows
  | 4 => wholeRows
  | _ => latestRows

def entities : Registry :=
  (Registry.register [] { type := "Book", table := "books", columns := ["title", "year"] }).register
    { type := "Editor", table := "editors", columns := ["name"] }

def optimizer : Optimizer Unit Unit :=
  { config := {}
    registry := entities
    executor := ⟨.sqlite, fun statement _ _ => { answer := .ok (answer statement), next := () }⟩
    store := none }

def compiler : Compiler := optimizer.compiler []

theorem answers {draft : Sql.Draft} (rows : List Row) {q : List Row → Prop}
    (answered : answer (Statement.ofFragment .sqlite (draft.fragment .sqlite)) = rows) (h : q rows) :
    Database.Answers optimizer none draft q := by
  intro statement written e
  obtain ⟨-, rfl⟩ := (Sql.Draft.ofDraft_eq_ok_iff _ _ _).mp written
  exact ⟨rows, congrArg Except.ok answered, h⟩

theorem showsRow {row shown : Row} {column : Json}
    (bookText : ∃ text, shown.get? "books" = some (.str text) ∧
      Json.parse? text = some (.arr ((held.objects authors compiler books row).take 1)))
    (editorText : shown.get? "editor" = some column ∧
      HoldsText .one none (held.objects authors compiler editor row) column)
    (count : shown.get? "books_count" =
      some (.int (held.owned "books_count" (row.key? "id")).length))
    (year : shown.get? "max_books_year" =
      some (held.total latest (held.owned "max_books_year" (row.key? "id"))))
    (columns : Row.Shows authors.labels (authors.outputs compiler authors.wholePart) row shown) :
    held.ShowsWhole authors compiler row shown where
  relations := by
    intro r known shape sized
    obtain rfl | known := List.mem_cons.mp known
    · obtain rfl := Except.ok.inj sized
      obtain ⟨text, found, parsed⟩ := bookText
      exact ⟨_, found, text, rfl, parsed⟩
    · obtain rfl := List.mem_singleton.mp known
      obtain rfl := Except.ok.inj sized
      exact ⟨column, editorText⟩
  counts := by
    intro other known
    obtain rfl := List.mem_singleton.mp known
    exact count
  aggregates := by
    intro a known
    obtain rfl := List.mem_singleton.mp known
    exact year
  columns := columns

theorem showsWhole : List.Forall₂ (held.ShowsWhole authors compiler) held.rows wholeRows := by
  refine .cons (showsRow ⟨_, rfl, ?_⟩ ⟨rfl, _, rfl, ?_⟩ rfl rfl (by decide))
    (.cons (showsRow ⟨_, rfl, ?_⟩ ⟨rfl, rfl⟩ rfl rfl (by decide)) .nil)
  · decide +kernel
  · decide +kernel
  · decide +kernel

theorem answered : held.AnsweredBy optimizer none authors compiler where
  whole := answers wholeRows rfl showsWhole
  base := answers baseRows rfl (by decide)
  relations := by
    intro r known
    obtain rfl | known := List.mem_cons.mp known
    · exact ⟨by decide, answers bookRows rfl rfl⟩
    · obtain rfl := List.mem_singleton.mp known
      exact ⟨by decide, answers editorRows rfl rfl⟩
  counts := by
    intro count known
    obtain rfl := List.mem_singleton.mp known
    exact ⟨by decide, answers countRows rfl (by decide)⟩
  aggregates := by
    intro a known
    obtain rfl := List.mem_singleton.mp known
    exact ⟨by decide, answers latestRows rfl (by decide)⟩

def statement : Statement :=
  .ofFragment .sqlite ((authors.unsplitDraft compiler).fragment .sqlite)

theorem written : authors.unsplit compiler = .ok statement :=
  (ofDraft_eq_ok_iff _ _ _).mpr ⟨by decide, rfl⟩

theorem sound : entities.Sound := (Registry.sound_nil.register _).register _

theorem declared : ∀ r ∈ authors.relations, r.Declared optimizer.registry authors.entity := by
  intro r known names selected _
  obtain rfl | known := List.mem_cons.mp known
  · obtain rfl := ColumnSelection.columns.inj selected
    refine ⟨by decide, fun relation related declared registered => ?_⟩
    obtain rfl := Option.some.inj declared
    obtain rfl := Option.some.inj registered
    decide
  · obtain rfl := List.mem_singleton.mp known
    exact absurd selected (by simp [editor])

def start : State Unit Unit := { executor := (), store := () }

end Catalogue

end EagerLoad
