import EagerLoad.Proofs.Relation.Aliases
import EagerLoad.Run.Fallback

/-! # Columns that the related entity declares

A relation that is loaded by keys asks for the columns of its request that the related entity has, or for all
columns if it has none of them. All columns can be asked for where they are valid names, so whatever is left
of the request can be written if its subquery can. -/
namespace EagerLoad

open Sql Sql.Draft

/-- Whether all columns of an entity, the localized ones included, are valid names. -/
def Entity.Named (e : Entity) : Prop :=
  ∀ x ∈ e.allColumns ++ e.localizedFields, Identifier.fault? x = none

instance (e : Entity) : Decidable e.Named :=
  inferInstanceAs (Decidable (∀ x ∈ e.allColumns ++ e.localizedFields, Identifier.fault? x = none))

/-- Whether all columns of all registered entities are valid names. -/
def Registry.Named (r : Registry) : Prop := ∀ type e, r.get? type = some e → e.Named

theorem Registry.named_nil : Registry.Named [] := fun _ _ found => nomatch found

theorem Registry.Named.register {r : Registry} (named : r.Named) {e : Entity} (valid : e.Named) :
    (r.register e).Named := by
  intro type other found
  rw [get?, Registry.register, lookup_upsert] at found
  split at found
  · exact Option.some.inj found ▸ valid
  · exact named type other found

/-- Whether the columns of every localization that is remembered are valid names. -/
def Memo.Named (m : Memo) : Prop :=
  ∀ type l, m.lookup type = some (some l) → ∀ x ∈ l.fields, Identifier.fault? x = none

theorem Memo.named_nil : Memo.Named [] := fun _ _ known => nomatch known

theorem Memo.Named.remember {m : Memo} (remembered : m.Named) {type : String} {found : Option Localization}
    (valid : ∀ l, found = some l → ∀ x ∈ l.fields, Identifier.fault? x = none) :
    (m.remember type found).Named := by
  intro other l known
  rw [lookup_remember, Option.or_eq_some_iff] at known
  obtain known | ⟨-, new⟩ := known
  · exact remembered other l known
  · split at new
    · exact valid l (Option.some.inj new)
    · exact absurd new (by simp)

namespace Memo.Named

variable {m : Memo} {e : Entity} (remembered : m.Named) (named : e.Named)
include remembered named

theorem localization? {l : Localization} (found : m.localization? e = some l) :
    ∀ x ∈ l.fields, Identifier.fault? x = none := by
  unfold Memo.localization? at found
  split at found
  · rename_i known
    exact remembered e.type l (found ▸ known)
  · rw [Entity.fields_of_localization? found]
    exact fun x declared => named x (List.mem_append_right _ declared)

/-- Looking an entity up teaches the memo no other names. -/
theorem consult : (m.consult e).Named :=
  remembered.remember fun _ => remembered.localization? named

end Memo.Named

namespace Columns

theorem valid_of_requested_all {e : Entity} (named : e.Named) {localization : Option Localization}
    (fields : ∀ l, localization = some l → ∀ x ∈ l.fields, Identifier.fault? x = none) :
    ∀ x ∈ requested e .all localization, Identifier.fault? x = none := by
  have own {x : String} (listed : x ∈ e.allColumns) := named x (List.mem_append_left _ listed)
  intro x asked
  cases localization with
  | none => exact own asked
  | some l =>
    obtain listed | localized := (mem_foldl_addNew _ _ _).mp asked
    · exact own listed
    · exact fields l rfl x localized

/-- Valid columns can be listed under valid aliases. -/
theorem selectList_complete_of_valid {c : Columns} {mainAlias satelliteAlias : String}
    (valid : ∀ x ∈ c.names, Identifier.fault? x = none) (main : Identifier.fault? mainAlias = none)
    (satellite : c.localized ≠ [] → Identifier.fault? satelliteAlias = none) :
    (c.selectList mainAlias satelliteAlias).failure? = none := by
  rw [selectList, failure?_separated]
  intro item found
  obtain found | found := List.mem_append.mp found
  · obtain ⟨x, known, rfl⟩ := List.mem_map.mp found
    simp [qualified, Step.failure?, main, valid x (List.mem_append_left _ known)]
  · obtain ⟨x, known, rfl⟩ := List.mem_map.mp found
    have given := satellite (List.ne_nil_of_mem known)
    simp [qualified, Step.failure?, given, valid x (List.mem_append_right _ known)]

end Columns

/-- An alias that a completed draft gives to a table is a valid name. -/
theorem Sql.Draft.Names.valid {draft : Draft} {name : String} (names : draft.Names name)
    (complete : draft.failure? = none) : Identifier.fault? name = none := by
  obtain ⟨keyword, -, table, within⟩ := names
  have step : Step.name name ∈ Source.tableAs keyword table name := by simp [Source.tableAs]
  simpa [Step.failure?] using (failure?_eq_none_iff draft).mp complete _ (within.subset step)

namespace Keyed

variable {ctx : Context} {base : Entity} {baseAlias : String}

/-- The columns of a request can be replaced by any valid ones. -/
theorem relation_complete_of_requested {r : RelationRequest} {selection : ColumnSelection} {s : Source}
    (complete : (Subquery.relation ctx base baseAlias r).failure? = none) (plain : r.isNested = false)
    (resolved : Source.resolve ctx base r.name true = .ok s)
    (valid : ∀ x ∈ Columns.requested s.related selection s.localization, Identifier.fault? x = none)
    (keys : List DbValue) : (relation ctx base r selection keys).failure? = none := by
  obtain ⟨source, -, -, found, -, -, body, -, order⟩ := Subquery.relation_parts complete
  obtain rfl := Except.ok.inj (found.symm.trans resolved)
  have aliases : ∀ name ∈ source.aliases, Identifier.fault? name = none := fun name known =>
    (source.body_names base (Source.locale_of_resolve resolved) _ _ name known).valid body
  obtain ⟨columns, selects⟩ :
      ∃ columns, Columns.resolve source.related selection source.localization = .ok columns :=
    ⟨_, Columns.resolve_eq_ok_iff.mpr ⟨valid, rfl⟩⟩
  have projected : RelationRequest.projection { r with columns := selection } source = .ok columns := by
    have chosen : RelationRequest.selection { r with columns := selection } = .ok selection :=
      if_neg (ne_true_of_eq_false plain)
    rw [RelationRequest.projection, chosen]
    exact selects
  refine relation_complete_of_projection keys resolved projected body ?_ order
  refine Columns.selectList_complete_of_valid (fun x known => ?_)
    (Source.related_inScope aliases) fun localized => ?_
  · exact valid x ((Columns.mem_names_resolve selects x).mp known).1
  · exact Source.satellite_inScope aliases
      ((RelationRequest.localized_of_projection projected).resolve_right localized)

end Keyed

namespace Fallback

variable {ctx : Context} {base : Entity} {baseAlias : String}

/-- A relation that can be selected as a subquery can be loaded by keys with the columns that the related
entity declares, where all columns that it may be widened to are valid names. -/
theorem declaredSelection_complete {r : RelationRequest}
    (complete : (Subquery.relation ctx base baseAlias r).failure? = none)
    (named : ctx.registry.Named) (remembered : ctx.memo.Named) :
    ∃ selected, declaredSelection ctx.registry base r = .ok selected ∧
      ∀ keys, (Keyed.relation ctx base r selected.1 keys).failure? = none := by
  obtain ⟨s, columns, -, resolved, projected, -⟩ := Subquery.relation_parts complete
  obtain ⟨relation, registered, -, localization⟩ := Source.resolve_eq_ok_iff.mp resolved
  have unchanged : ∀ keys, (Keyed.relation ctx base r r.columns keys).failure? = none :=
    fun keys => Keyed.relation_complete keys complete
  unfold declaredSelection
  cases selection : r.columns with
  | all => exact ⟨_, rfl, selection ▸ unchanged⟩
  | columns names =>
    dsimp only
    cases nested : r.isNested with
    | true => exact ⟨_, rfl, selection ▸ unchanged⟩
    | false =>
      rw [if_neg Bool.false_ne_true, relation]
      dsimp only
      rw [Registry.resolve_eq_ok_iff.mpr registered]
      refine ⟨_, rfl, Keyed.relation_complete_of_requested complete nested resolved ?_⟩
      dsimp only
      split
      · -- none of the columns is declared, so all columns are asked for
        refine Columns.valid_of_requested_all (named _ _ registered) fun l found => ?_
        rw [localization, Source.localization?] at found
        split at found
        · exact remembered.localization? (named _ _ registered) found
        · exact absurd found (by simp)
      · have asked : ∀ x ∈ names, Identifier.fault? x = none := by
          have chosen : r.selection = .ok r.columns := if_neg (ne_true_of_eq_false nested)
          rw [RelationRequest.projection, chosen, selection] at projected
          exact (Columns.resolve_eq_ok_iff.mp projected).1
        exact fun x kept => asked x (List.mem_of_mem_filter kept)

end Fallback
end EagerLoad
