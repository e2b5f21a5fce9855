import EagerLoad.Proofs.Plan.Batched
import EagerLoad.Proofs.Plan.Keys

/-! # What a keyed statement selects of a relation

A statement for owner keys selects the owner's key and the columns that the request comes down to. Of a list
these are the columns that the related entity declares, as far as they can be read. A list without any declared
column comes down to all columns of the related entity. -/
namespace EagerLoad

open Sql Sql.Draft

/-- Whether a fragment selects exactly some items from a table, in their order. -/
def Fragment.Selects (d : Dialect) (table : String) (items : List Draft) (f : Fragment) : Prop :=
  ∃ written rest, List.Forall₂ (fun item g => item.compile d = .ok g) items written ∧
    f = .select d table written rest

theorem Sql.Draft.selects {d : Dialect} {table : String} {items : List Draft} {rest : Draft}
    (complete : failure? (.text "SELECT " :: separated ", " items ++ [.text " FROM ", .name table] ++ rest) =
      none) :
    Fragment.Selects d table items
      (fragment d (.text "SELECT " :: separated ", " items ++ [.text " FROM ", .name table] ++ rest)) := by
  simp only [failure?_append, failure?_cons] at complete
  refine ⟨items.map (fragment d), rest.fragment d, ?_, fragment_select d table items rest⟩
  rw [List.forall₂_map_right_iff, List.forall₂_same]
  exact fun item listed =>
    (compile_eq_ok_iff _ _ _).mpr ⟨(failure?_separated _ _).mp complete.1.1.2 item listed, rfl⟩

namespace Source

/-- The table that the rows of a relation are read from, before any other is joined. -/
def table (s : Source) : String :=
  match s.relation with
  | .belongsToMany _ p => p.table
  | _ => s.related.table

theorem body_from (s : Source) (locale : Option String) (base : Entity) (filter : Option Filter)
    (link : Link) : ∃ rest, s.body locale base filter link = [.text " FROM ", .name s.table] ++ rest := by
  obtain ⟨name, relation, related, localization⟩ := s
  cases relation <;> exact ⟨_, rfl⟩

end Source

namespace Keyed

variable {ctx : Context} {base : Entity} {r : RelationRequest} {selection : ColumnSelection}
  {keys : List DbValue} {statement : Statement} {s : Source} {columns : Columns}

theorem separated_items (s : Source) (columns : Columns) :
    ownerItem s ++ (if columns.isEmpty then []
      else .text ", " :: columns.selectList s.relatedAlias s.satelliteAlias) =
      separated ", " (ownerItem s :: columns.items s.relatedAlias s.satelliteAlias) := by
  unfold Columns.selectList
  cases items : columns.items s.relatedAlias s.satelliteAlias with
  | nil =>
    have none : columns.isEmpty = true := by simpa [Columns.items, Columns.isEmpty] using items
    rw [if_pos none, List.append_nil, separated]
  | cons item rest =>
    have some : ¬columns.isEmpty = true := by
      intro none
      have nil : columns.items s.relatedAlias s.satelliteAlias = [] := by
        simpa [Columns.items, Columns.isEmpty] using none
      rw [nil] at items
      cases items
    rw [if_neg some]
    rfl

/-- A keyed statement selects the owner's key and the columns of its projection. -/
theorem relation_selects
    (written : Statement.ofDraft ctx.dialect (relation ctx base r selection keys) = .ok statement) :
    ∃ s columns f, Source.resolve ctx base r.name true = .ok s ∧
      RelationRequest.projection { r with columns := selection } s = .ok columns ∧
      statement = .ofFragment ctx.dialect f ∧
      f.Selects ctx.dialect s.table (ownerItem s :: columns.items s.relatedAlias s.satelliteAlias) := by
  obtain ⟨complete, rfl⟩ := (ofDraft_eq_ok_iff _ _ _).mp written
  obtain ⟨s, resolved, rest⟩ := Source.failure?_andThen.mp complete
  obtain ⟨columns, projected, chosen⟩ := failure?_andThen.mp ((failure?_append _ _).mp rest).2
  obtain ⟨more, body⟩ := s.body_from ctx.locale base r.filter (.keys keys)
  have shape : Step.text "SELECT " :: ownerItem s ++ (if columns.isEmpty then []
      else .text ", " :: columns.selectList s.relatedAlias s.satelliteAlias) ++
        s.body ctx.locale base r.filter (.keys keys) ++ s.orderClause (Subquery.orderOf r.filter) =
      .text "SELECT " :: separated ", " (ownerItem s :: columns.items s.relatedAlias s.satelliteAlias) ++
        [.text " FROM ", .name s.table] ++ (more ++ s.orderClause (Subquery.orderOf r.filter)) := by
    rw [← separated_items, body]
    simp
  refine ⟨s, columns, _, resolved, projected, rfl, ?_⟩
  -- What stands before SELECT are notices, which write nothing.
  have silent : (relation ctx base r selection keys).fragment ctx.dialect =
      fragment ctx.dialect (.text "SELECT " :: ownerItem s ++ (if columns.isEmpty then []
        else .text ", " :: columns.selectList s.relatedAlias s.satelliteAlias) ++
          s.body ctx.locale base r.filter (.keys keys) ++ s.orderClause (Subquery.orderOf r.filter)) := by
    rw [relation, Source.andThen, resolved, andThen, fragment_silent, RelationRequest.withProjection,
      fragment_silent, projected, andThen]
    · intro step found
      obtain ⟨notice, -, rfl⟩ := List.mem_map.mp found
      exact ⟨rfl, rfl⟩
    · split <;> simp [Step.sql, Step.bindings]
  rw [silent, shape]
  rw [shape] at chosen
  exact selects chosen

end Keyed

/-- Whether an entity has a column of a name, of its own or in its satellite. -/
def Entity.Has (e : Entity) (name : String) : Prop :=
  e.hasColumn name = true ∨ name ∈ e.localizedFields

theorem Fallback.mem_declaredColumns {related : Entity} {names : List String} {x : String} :
    x ∈ declaredColumns related names ↔ x ∈ names ∧ related.Has x := by
  rw [declaredColumns, List.mem_filter, Bool.or_eq_true, List.contains_iff_mem]
  rfl

namespace RelationRequest

/-- Whether a request is for some columns only. -/
def IsListed (r : RelationRequest) : Prop := r.isNested = true ∨ ∃ names, r.columns = .columns names

/-- What a request for some columns is loaded with. -/
structure Narrows (r : RelationRequest) (names : List String) (s : Source) (columns : Columns) : Prop where
  /-- The columns that are asked for, if there are any that the related entity declares. -/
  narrow : (r.isNested = true ∨ ∃ name ∈ names, s.related.Has name) → ∀ x, x ∈ columns.names ↔
    x ∈ names ∧ (r.isNested = true ∨ s.related.Has x) ∧
      (x ∈ s.related.localizedFields → s.localization.isSome = true)
  /-- Otherwise all columns of the related entity. -/
  wide : r.isNested = false → (∀ name ∈ names, ¬s.related.Has name) →
    Columns.resolve s.related .all s.localization = .ok columns

variable {ctx : Context} {base : Entity} {r : RelationRequest} {selection : ColumnSelection} {dropped : Bool}
  {s : Source} {columns : Columns}

private theorem narrows_of_nested (nested : r.isNested = true)
    (projected : projection { r with columns := selection } s = .ok columns) :
    ∃ names, r.selection = .ok (.columns names) ∧ r.Narrows names s columns := by
  have chosen : ∀ columns, RelationRequest.selection { r with columns := columns } = r.selection := by
    intro columns
    have path : RelationRequest.isNested { r with columns := columns } = true := nested
    rw [RelationRequest.selection, RelationRequest.selection, if_pos nested, if_pos path]
    rfl
  rw [projection, chosen] at projected
  rw [RelationRequest.selection, if_pos nested] at projected ⊢
  cases cut : r.segments with
  | error e =>
    rw [cut] at projected
    cases projected
  | ok segments =>
    rw [cut] at projected
    refine ⟨segments.take 1, rfl, fun _ x => ?_, fun plain => nomatch nested.symm.trans plain⟩
    rw [Columns.mem_names_resolve projected x, Columns.requested]
    simp only [nested, true_or, true_and]

private theorem narrows_of_plain (plain : ¬r.isNested = true) {names : List String}
    (given : r.columns = .columns names)
    (kept : Fallback.declaredSelection ctx.registry base r = .ok (selection, dropped))
    (resolved : Source.resolve ctx base r.name true = .ok s)
    (projected : projection { r with columns := selection } s = .ok columns) : r.Narrows names s columns := by
  obtain ⟨declared, registered, -, -⟩ := Source.resolve_eq_ok_iff.mp resolved
  rw [Fallback.declaredSelection, given] at kept
  dsimp only at kept
  rw [if_neg plain, declared] at kept
  dsimp only at kept
  rw [Registry.resolve_eq_ok_iff.mpr registered] at kept
  obtain ⟨same, -⟩ := Prod.mk.inj (Except.ok.inj kept)
  have unnested : ¬RelationRequest.isNested { r with columns := selection } = true := plain
  rw [projection, RelationRequest.selection, if_neg unnested, ← same] at projected
  dsimp only at projected
  refine ⟨fun some x => ?_, fun _ none => ?_⟩
  · obtain ⟨name, asked, known⟩ := some.resolve_left plain
    have left : Fallback.declaredColumns s.related names ≠ [] :=
      List.ne_nil_of_mem (Fallback.mem_declaredColumns.mpr ⟨asked, known⟩)
    rw [if_neg (by simpa using left)] at projected
    rw [Columns.mem_names_resolve projected x, Columns.requested, Fallback.mem_declaredColumns, and_assoc]
    simp only [plain, Bool.false_eq_true, false_or]
  · have empty : Fallback.declaredColumns s.related names = [] := by
      rw [List.eq_nil_iff_forall_not_mem]
      intro name found
      obtain ⟨asked, known⟩ := Fallback.mem_declaredColumns.mp found
      exact none name asked known
    rw [empty] at projected
    exact projected

theorem narrows (listed : r.IsListed)
    (kept : Fallback.declaredSelection ctx.registry base r = .ok (selection, dropped))
    (resolved : Source.resolve ctx base r.name true = .ok s)
    (projected : projection { r with columns := selection } s = .ok columns) :
    ∃ names, r.selection = .ok (.columns names) ∧ r.Narrows names s columns := by
  by_cases nested : r.isNested = true
  · exact narrows_of_nested nested projected
  · obtain ⟨names, given⟩ := listed.resolve_left nested
    refine ⟨names, ?_, narrows_of_plain nested given kept resolved projected⟩
    rw [RelationRequest.selection, if_neg nested, given]

end RelationRequest
end EagerLoad
