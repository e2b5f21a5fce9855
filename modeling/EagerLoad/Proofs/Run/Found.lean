import EagerLoad.Proofs.Filter.Truth
import EagerLoad.Proofs.Run.Stems

/-! # Looking up a record by its key

The look-up adds a test on the primary key to the filter of the query, with AND. The test joins the last
alternative of the filter only, so a record that meets an earlier alternative is given whatever its key is.
The tests that were there before always hold. -/
namespace EagerLoad

/-- What a database knows of its records: the rows that show one, and the tests that it passes. -/
structure Records (β : Type) where
  shows : β → Row → Prop
  meets : β → Condition → Bool
  deleted : β → Bool
  found : β → Search → Bool

/-- Whether a record passes the tests that the statements of a plan put to their rows. -/
structure Plan.Admits (records : Records β) (p : Plan) (record : β) : Prop where
  present : p.entity.softDeletes = true → p.withTrashed = false → records.deleted record = false
  meets : p.filter.holds (records.meets record) = true
  found : ∀ s, p.search = some s → s.isActive = true → records.found record s = true

/-- Whether a row shows a record that passes the tests of a plan. -/
def Records.Shown (records : Records β) (p : Plan) (row : Row) : Prop :=
  ∃ record, records.shows record row ∧ p.Admits records record

namespace Plan

/-- The test on the primary key. -/
def keyTest (p : Plan) (id : DbValue) : Condition := .compare p.entity.primaryKey .equal id

/-- The plan that a record is looked up by. -/
def lookup (p : Plan) (id : DbValue) : Plan := (p.whereEqual p.entity.primaryKey id).withLimit 1

variable {records : Records β} {p : Plan} {id : DbValue}

/-- A look-up lets through the records that its query lets through, if they have the key or meet an
alternative of the filter before the last one. -/
theorem admits_lookup_iff {record : β} :
    (p.lookup id).Admits records record ↔ p.Admits records record ∧
      (records.meets record (p.keyTest id) = true ∨
        p.filter.holdsEarlier (records.meets record) = true) := by
  have tests : (p.lookup id).filter.holds (records.meets record) =
      (p.filter.holdsEarlier (records.meets record) ||
        (p.filter.holds (records.meets record) && records.meets record (p.keyTest id))) :=
    p.filter.holds_and (p.keyTest id) (records.meets record)
  have earlier := p.filter.holds_of_holdsEarlier (records.meets record)
  constructor
  · rintro ⟨present, meets, found⟩
    rw [tests, Bool.or_eq_true, Bool.and_eq_true] at meets
    obtain early | ⟨held, key⟩ := meets
    · exact ⟨⟨present, earlier early, found⟩, .inr early⟩
    · exact ⟨⟨present, held, found⟩, .inl key⟩
  · rintro ⟨⟨present, meets, found⟩, passed⟩
    refine ⟨present, ?_, found⟩
    rw [tests, Bool.or_eq_true, Bool.and_eq_true]
    exact passed.symm.imp_right fun key => ⟨meets, key⟩

theorem retains_lookup_iff {answered row : Row} :
    (p.lookup id).Retains answered row ↔ p.Retains answered row :=
  ⟨fun h x plain => h x ⟨plain.selected, plain.plain, plain.unlabelled⟩,
    fun h x plain => h x ⟨plain.selected, plain.plain, plain.unlabelled⟩⟩

end Plan

namespace Optimizer

variable {o : Optimizer ε σ} {p : Plan} {id : DbValue} {s : State ε σ} {row : Row}

/-- Whether a row is what a look-up gives, in one form or the other. -/
def Gets (o : Optimizer ε σ) (p : Plan) (id : DbValue) (s : State ε σ) (row : Row) : Prop :=
  ((o.find p id).run s).1 = .ok (some row) ∨ ((o.findOrFail p id).run s).1 = .ok row

theorem Gets.mem_rows (gets : o.Gets p id s row) :
    ∃ rows, ((o.rows (p.lookup id)).run s).1 = .ok rows ∧ row ∈ rows := by
  have found : ((o.find p id).run s).1 = .ok (some row) := by
    obtain found | given := gets
    · exact found
    · obtain ⟨_ | other, found, same⟩ := attempt_bind_eq_ok_iff.mp given
      · exact nomatch same
      · obtain rfl := Except.ok.inj same
        exact found
  obtain ⟨rows, ran, first⟩ := attempt_bind_eq_ok_iff.mp found
  exact ⟨rows, ran, List.mem_of_mem_head? (Except.ok.inj first)⟩

/-- Whether a row shows the record that is asked for: one that the query lets through, with the key. -/
def ShowsAsked (records : Records β) (p : Plan) (id : DbValue) (row : Row) : Prop :=
  ∃ record answered, records.shows record answered ∧ p.Retains answered row ∧
    p.Admits records record ∧ records.meets record (p.keyTest id) = true

/-- Whether a look-up gives nothing but the record that is asked for, whatever it begins with. -/
def FindsAsked (o : Optimizer ε σ) (records : Records β) (p : Plan) (id : DbValue) : Prop :=
  ∀ s, o.Recalls (p.lookup id) (records.Shown (p.lookup id)) s → ∀ row, o.Gets p id s row →
    ShowsAsked records p id row

/-- A look-up gives a record that its query lets through. It is the one that is asked for, unless it meets
an alternative of the filter before the last one; if AND joins the clauses of the filter there is none. -/
theorem find_gives {records : Records β}
    (answers : o.AnswersOnly (p.lookup id) (records.Shown (p.lookup id)))
    (recalls : o.Recalls (p.lookup id) (records.Shown (p.lookup id)) s) (gets : o.Gets p id s row) :
    (∃ record answered, records.shows record answered ∧ p.Retains answered row ∧
      p.Admits records record ∧ (records.meets record (p.keyTest id) = true ∨
        p.filter.holdsEarlier (records.meets record) = true)) ∧
    ((∀ clause ∈ p.filter.clauses.tail, clause.1 = .and) → ShowsAsked records p id row) := by
  obtain ⟨rows, ran, listed⟩ := gets.mem_rows
  obtain ⟨answered, ⟨record, shows, admits⟩, retains⟩ := rows_stem answers recalls ran row listed
  rw [Plan.admits_lookup_iff] at admits
  rw [Plan.retains_lookup_iff] at retains
  obtain ⟨admits, passed⟩ := admits
  refine ⟨⟨record, answered, shows, retains, admits, passed⟩, fun joined => ?_⟩
  have none := p.filter.holdsEarlier_of_and (records.meets record) joined
  rw [none] at passed
  exact ⟨record, answered, shows, retains, admits, passed.resolve_right Bool.false_ne_true⟩

end Optimizer

namespace Cabinet

/-- The documents that somebody owns and those that everybody may read. -/
def visible : Plan :=
  { entity := { type := "Doc", table := "docs", columns := ["owner", "public"] }
    filter := (({} : Filter).and (.compare "owner" .equal (.int32 1))).or
      (.compare "public" .equal (.bool true))
    cache := { enabled := false } }

/-- A document of the owner. -/
def draft : Row := [("id", .int 3), ("owner", .int 1), ("public", .bool false)]

/-- Records that are shown as they are, and tested for equal values. -/
def records : Records Row :=
  { shows := fun record row => row = record
    meets := fun record condition =>
      match condition with
      | .compare column .equal value => record.get? column = some value.toJson
      | _ => false
    deleted := fun _ => false
    found := fun _ _ => false }

def optimizer : Optimizer Unit MemoryStore :=
  { config := {}
    registry := [("Doc", visible.entity)]
    executor := ⟨.sqlite, fun _ _ _ => { answer := .ok [draft], next := () }⟩
    store := none }

def fresh : State Unit MemoryStore := { executor := (), store := {} }

theorem answers : optimizer.AnswersOnly (visible.lookup (.int32 7))
    (records.Shown (visible.lookup (.int32 7))) := by
  intro statement _ timeout e rows answered row listed
  obtain rfl := Except.ok.inj answered
  obtain rfl := List.mem_singleton.mp listed
  exact ⟨draft, rfl, fun _ _ => rfl, by decide, fun _ none => nomatch none⟩

theorem recalls (good : Row → Prop) : optimizer.Recalls (visible.lookup (.int32 7)) good fresh :=
  Optimizer.recalls_of_misses fun _ cached => nomatch cached

theorem gets : optimizer.Gets visible (.int32 7) fresh draft := .inl rfl

end Cabinet

open Cabinet in
theorem Optimizer.find_gives_cabinet :
    optimizer.AnswersOnly (visible.lookup (.int32 7)) (records.Shown (visible.lookup (.int32 7))) ∧
      optimizer.Recalls (visible.lookup (.int32 7)) (records.Shown (visible.lookup (.int32 7))) fresh ∧
      optimizer.Gets visible (.int32 7) fresh draft ∧
      ∃ record answered, records.shows record answered ∧ visible.Retains answered draft ∧
        visible.Admits records record ∧ (records.meets record (visible.keyTest (.int32 7)) = true ∨
          visible.filter.holdsEarlier (records.meets record) = true) :=
  ⟨answers, recalls _, gets, (find_gives answers (recalls _) gets).1⟩

open Cabinet in
/-- Asked for the document 7, the look-up gives the document 3. -/
theorem Optimizer.not_findsAsked_cabinet :
    optimizer.AnswersOnly (visible.lookup (.int32 7)) (records.Shown (visible.lookup (.int32 7))) ∧
      ¬optimizer.FindsAsked records visible (.int32 7) := by
  refine ⟨answers, fun asked => ?_⟩
  obtain ⟨record, answered, shows, retains, -, key⟩ := asked fresh (recalls _) draft gets
  have plain : visible.SelectsPlainly "id" := by
    refine ⟨?_, by decide, by decide⟩
    change "id" ∈ visible.entity.allColumns
    decide
  have same : record.get? "id" = draft.get? "id" := shows ▸ retains "id" plain
  have seven : record.get? "id" = some (.int 7) := of_decide_eq_true key
  exact absurd (seven.symm.trans same) (by decide)

end EagerLoad
