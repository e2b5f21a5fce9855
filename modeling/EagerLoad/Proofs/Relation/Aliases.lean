import EagerLoad.Proofs.Relation.Cited
import EagerLoad.Proofs.Sql.Qualified
import EagerLoad.Proofs.Text

/-! # The aliases of a source

A source has an alias for each of its tables, which it introduces where it names the table. Whatever it reads
of its rows it reads by these, apart from the key of the owner that the rows are correlated with. -/
namespace EagerLoad

open Sql Sql.Draft

def tableKeywords : List String := [" FROM ", " INNER JOIN ", " LEFT JOIN "]

/-- Whether a text introduces an alias, for a table or for the rows of a derived table. -/
inductive Introduces (d : Dialect) (text : List Char) (name : String) : Prop where
  | table {keyword : String} (known : keyword ∈ tableKeywords) (table : String)
      (within : (keyword ++ d.quote table ++ " AS " ++ d.quote name).toList <:+: text) :
      Introduces d text name
  | rows {rows : List Char} (selects : "SELECT ".toList <+: rows) (balanced : Sql.Balanced rows)
      (within : " FROM (".toList ++ rows ++ (") AS " ++ d.quote name).toList <:+: text) :
      Introduces d text name

theorem Introduces.mono {d : Dialect} {text whole : List Char} {name : String}
    (introduces : Introduces d text name) (within : text <:+: whole) : Introduces d whole name := by
  cases introduces with
  | table known table here => exact .table known table (here.trans within)
  | rows selects balanced here => exact .rows selects balanced (here.trans within)

/-- Whether a draft gives an alias to a table. -/
def Sql.Draft.Names (draft : Draft) (name : String) : Prop :=
  ∃ keyword ∈ tableKeywords, ∃ table, Source.tableAs keyword table name <:+: draft

namespace Sql.Draft.Names

variable {d : Dialect} {draft whole : Draft} {name : String}

theorem mono (names : Names draft name) (within : draft <:+: whole) : Names whole name := by
  obtain ⟨keyword, known, table, here⟩ := names
  exact ⟨keyword, known, table, here.trans within⟩

/-- An alias is introduced in a completed text too, in which placeholders may be numbered. -/
theorem introduces (names : Names draft name) (complete : draft.failure? = none) {text : List Char}
    (numbers : Numbered (draft.text d) text) : Introduces d text name := by
  obtain ⟨keyword, known, table, within⟩ := names
  have words : ∀ keyword ∈ tableKeywords, '?' ∉ keyword.toList := by decide
  have plain : ∀ step ∈ Source.tableAs keyword table name,
      (∃ name, step = .name name) ∨ '?' ∉ (step.sql d).toList := by
    simp [Source.tableAs, Step.sql, words keyword known]
  have shape : Draft.text d (Source.tableAs keyword table name) =
      (keyword ++ d.quote table ++ " AS " ++ d.quote name).toList := by
    simp [Source.tableAs, Step.sql]
  exact .table known table (shape ▸ infix_numbered within complete plain numbers)

end Sql.Draft.Names

/-- A valid name has no point. -/
theorem undotted_of_valid {column : String} (valid : Identifier.fault? column = none) : Undotted column := by
  have free : '.' ∉ column.toList := fun found =>
    absurd (isAllowed_of_fault?_eq_none column valid '.' found) (by decide)
  exact Text.splitFirst?_eq_none_iff.mpr free

/-- Whether a reference names an alias in scope and a column without a point of its own, if it is not to some
inner text. -/
def Reference.InScope (d : Dialect) (scope : String → Prop) (inner : List Char → Prop) : Reference → Prop
  | .at name _ => scope name
  | .through q column => Undotted column ∧ ∀ name, q.forColumn column = some name → scope name
  | .inner draft => inner (draft.text d)

section References

variable {d : Dialect} {scope : String → Prop} {inner : List Char → Prop}

theorem Reference.InScope.qualifies {r : Reference} (known : r.InScope d scope inner)
    (complete : r.draft.failure? = none) : Qualifies d scope inner (r.draft.text d) := by
  cases r with
  | «at» name column => exact .reference known complete
  | inner draft => exact .within known
  | through q column =>
    obtain ⟨undotted, known⟩ := known
    have shape : (Reference.through q column).draft = Draft.column (q.forColumn column) column := rfl
    rw [shape] at complete ⊢
    cases found : q.forColumn column with
    | none =>
      rw [found] at complete
      have alone : Draft.column none column = [.name column] := by
        unfold Undotted at undotted
        unfold Draft.column
        rw [undotted]
      rw [alone] at complete ⊢
      have valid : Identifier.fault? column = none := by simpa [Step.failure?] using complete
      apply Qualifies.of_notMem
      simpa [Step.sql] using notMem_quote (d := d) valid (.inl rfl)
    | some name =>
      rw [found, column_of_undotted undotted] at complete
      rw [column_of_undotted undotted]
      exact .reference (known name found) complete

theorem Reference.InScope.bare {column : String} (undotted : Undotted column) :
    (Reference.through {} column).InScope d scope inner := by
  refine ⟨undotted, ?_⟩
  rintro _ ⟨⟩

theorem Reference.InScope.ofTable {table column : String} (undotted : Undotted column) (known : scope table) :
    (Reference.through (.ofTable table) column).InScope d scope inner := by
  refine ⟨undotted, ?_⟩
  rintro _ ⟨⟩
  exact known

/-- Localized fields are read by the alias of a satellite, which has to be in scope then only. -/
theorem Reference.InScope.localized {table satellite column : String} {fields : List String}
    (undotted : Undotted column) (known : scope table) (localized : column ∈ fields → scope satellite) :
    (Reference.through ((Qualifier.ofTable table).localize satellite fields) column).InScope d scope inner := by
  refine ⟨undotted, fun name found => ?_⟩
  unfold Qualifier.localize at found
  split at found
  · obtain rfl := Option.some.inj found
    exact known
  · unfold Qualifier.forColumn at found
    dsimp only at found
    split at found
    case isTrue field =>
      obtain rfl := Option.some.inj found
      exact localized (by simpa using field)
    case isFalse =>
      obtain rfl := Option.some.inj found
      exact known

/-- A draft whose references are in scope has no other points. -/
theorem Cites.qualifies {refs : List Reference} {draft : Draft} (cites : Cites refs draft)
    (points : OnlyPoints d draft) (complete : draft.failure? = none)
    (known : ∀ ref ∈ refs, ref.InScope d scope inner) : Qualifies d scope inner (draft.text d) := by
  induction cites with
  | nil => exact .of_notMem List.not_mem_nil
  | @step step refs rest apart _ ih =>
    obtain ⟨here, later⟩ := List.forall_mem_cons.mp points
    rw [text_cons]
    exact .append (.of_notMem (here apart)) (ih later ((failure?_cons _ _).mp complete).2 known)
  | reference r _ ih =>
    obtain ⟨-, later⟩ := List.forall_mem_append.mp points
    obtain ⟨first, second⟩ := (failure?_append _ _).mp complete
    have one : r.InScope d scope inner := known r List.mem_cons_self
    have others := ih later second fun ref cited => known ref (List.mem_cons_of_mem r cited)
    rw [text_append]
    exact .append (one.qualifies first) others

end References

namespace Source

variable (s : Source) (base : Entity)

/-- The aliases of the tables that lead to the related rows. -/
def tableAliases : List String :=
  s.relatedAlias :: match s.relation with
    | .belongsToMany _ _ => [s.pivotAlias]
    | .hasManyThrough _ _ => [s.throughAlias]
    | _ => []

def aliases : List String :=
  s.tableAliases ++ if s.localization.isSome then [s.satelliteAlias] else []

theorem tables_name : ∀ name ∈ s.tableAliases, s.tables.Names name := by
  have named (keyword table name : String) (known : keyword ∈ tableKeywords) {front back : Draft} :
      (front ++ tableAs keyword table name ++ back).Names name :=
    ⟨keyword, known, table, List.infix_append front _ back⟩
  have first (keyword table name : String) (known : keyword ∈ tableKeywords) {back : Draft} :
      (tableAs keyword table name ++ back).Names name :=
    ⟨keyword, known, table, (List.prefix_append _ _).isInfix⟩
  have alone (keyword table name : String) (known : keyword ∈ tableKeywords) :
      (tableAs keyword table name).Names name := ⟨keyword, known, table, List.infix_rfl⟩
  unfold tableAliases tables
  cases s.relation with
  | belongsToMany related p =>
    simp only [List.forall_mem_cons, List.append_assoc]
    refine ⟨?_, first _ _ _ (by decide), List.forall_mem_nil _⟩
    rw [← List.append_assoc]
    exact named _ _ _ (by decide)
  | hasManyThrough related t =>
    simp only [List.forall_mem_cons, List.append_assoc]
    refine ⟨first _ _ _ (by decide), ?_, List.forall_mem_nil _⟩
    rw [← List.append_assoc]
    exact named _ _ _ (by decide)
  | belongsTo | hasOne | hasMany | morphOne | morphMany =>
    exact List.forall_mem_singleton.mpr (alone _ _ _ (by decide))

/-- A source introduces all of its aliases, that of the satellite in a locale. -/
theorem fromClause_names {locale : Option String} (joined : s.localization.isSome = true → locale.isSome = true) :
    ∀ name ∈ s.aliases, (s.fromClause locale).Names name := by
  refine List.forall_mem_append.mpr ⟨fun name known => ?_, ?_⟩
  · exact (s.tables_name name known).mono (List.prefix_append _ _).isInfix
  · split
    case isFalse => exact List.forall_mem_nil _
    case isTrue localized =>
      obtain ⟨l, found⟩ := Option.isSome_iff_exists.mp localized
      obtain ⟨locale, rfl⟩ := Option.isSome_iff_exists.mp (joined localized)
      have join : (l.join s.relatedAlias s.related.primaryKey s.satelliteAlias locale).Names s.satelliteAlias :=
        ⟨" LEFT JOIN ", by decide, l.satellite, ⟨[], _, rfl⟩⟩
      refine List.forall_mem_singleton.mpr (join.mono ?_)
      unfold fromClause
      rw [found]
      exact (List.suffix_append _ _).isInfix

theorem body_names {locale : Option String} (joined : s.localization.isSome = true → locale.isSome = true)
    (filter : Option Filter) (link : Link) : ∀ name ∈ s.aliases, (s.body locale base filter link).Names name := by
  intro name known
  refine (s.fromClause_names joined name known).mono ?_
  exact ((List.prefix_append _ _).trans (List.prefix_append _ _)).isInfix

theorem owner_known : s.ownerColumn.1 ∈ s.tableAliases := by
  unfold ownerColumn tableAliases
  cases s.relation <;> simp

theorem class_known {table column value : String} (tested : s.morphTest base = some (table, column, value)) :
    table ∈ s.tableAliases := by
  unfold morphTest at tested
  unfold tableAliases
  cases relation : s.relation with
  | belongsToMany related p =>
    rw [relation] at tested
    obtain ⟨m, -, same⟩ := Option.map_eq_some_iff.mp tested
    obtain ⟨rfl, -⟩ := Prod.mk.inj same
    exact List.mem_cons_of_mem _ List.mem_cons_self
  | _ => simp_all

section InScope

variable {s base} {d : Dialect} {scope : String → Prop} {inner : List Char → Prop}
  (known : ∀ name ∈ s.aliases, scope name)
include known

theorem table_inScope {name : String} (listed : name ∈ s.tableAliases) : scope name :=
  known name (List.mem_append_left _ listed)

theorem related_inScope : scope s.relatedAlias := table_inScope known List.mem_cons_self

theorem satellite_inScope (localized : s.localization.isSome = true) : scope s.satelliteAlias := by
  apply known
  unfold aliases
  rw [if_pos localized]
  exact List.mem_append_right _ (List.mem_singleton_self _)

theorem through_inScope {column : String} (undotted : Undotted column) :
    (Reference.through s.qualifier column).InScope d scope inner := by
  refine .localized undotted (related_inScope known) fun field => satellite_inScope known ?_
  unfold localizedFields at field
  cases found : s.localization with
  | none =>
    rw [found] at field
    exact absurd field List.not_mem_nil
  | some l => rfl

theorem mentioned_inScope {columns : List String} (undotted : ∀ x ∈ columns, Undotted x) :
    ∀ ref ∈ columns.map (Reference.through s.qualifier), ref.InScope d scope inner := by
  intro ref cited
  obtain ⟨x, mentioned, rfl⟩ := List.mem_map.mp cited
  exact through_inScope known (undotted x mentioned)

theorem order_inScope {terms : List OrderTerm} (undotted : ∀ t ∈ terms, Undotted t.column) :
    ∀ ref ∈ orderReferences s.qualifier terms, ref.InScope d scope inner := by
  intro ref cited
  obtain ⟨t, listed, rfl⟩ := List.mem_map.mp cited
  exact through_inScope known (undotted t listed)

theorem tables_inScope : ∀ ref ∈ s.tableReferences, ref.InScope d scope inner := by
  have related := related_inScope known
  have table {name : String} (listed : name ∈ s.tableAliases) := table_inScope known listed
  unfold tableReferences
  unfold tableAliases at table
  cases relation : s.relation with
  | belongsToMany e p =>
    rw [relation] at table
    have pivot : scope s.pivotAlias := table (List.mem_cons_of_mem _ List.mem_cons_self)
    exact List.forall_mem_cons.mpr ⟨related, List.forall_mem_singleton.mpr pivot⟩
  | hasManyThrough e t =>
    rw [relation] at table
    have through : scope s.throughAlias := table (List.mem_cons_of_mem _ List.mem_cons_self)
    exact List.forall_mem_cons.mpr ⟨through, List.forall_mem_singleton.mpr related⟩
  | belongsTo | hasOne | hasMany | morphOne | morphMany => exact List.forall_mem_nil _

theorem satelliteReferences_inScope (locale : Option String) :
    ∀ ref ∈ s.satelliteReferences locale, ref.InScope d scope inner := by
  unfold satelliteReferences
  cases found : s.localization with
  | none => exact List.forall_mem_nil _
  | some l =>
    have satellite := satellite_inScope known (found ▸ rfl)
    cases locale with
    | none => exact List.forall_mem_nil _
    | some locale =>
      refine List.forall_mem_cons.mpr ⟨related_inScope known, List.forall_mem_cons.mpr ⟨satellite, ?_⟩⟩
      exact List.forall_mem_singleton.mpr satellite

theorem tied_inScope {link : Link} (linked : ∀ baseAlias, link = .correlated baseAlias → scope baseAlias) :
    ∀ ref ∈ s.tiedReferences base link, ref.InScope d scope inner := by
  have owner : scope s.ownerColumn.1 := table_inScope known s.owner_known
  have ties : ∀ ref ∈ s.linkReferences link, ref.InScope d scope inner := by
    cases link with
    | correlated baseAlias =>
      exact List.forall_mem_cons.mpr ⟨owner, List.forall_mem_singleton.mpr (linked baseAlias rfl)⟩
    | keys values =>
      cases values with
      | nil => exact List.forall_mem_nil _
      | cons value rest => exact List.forall_mem_singleton.mpr owner
  refine List.forall_mem_append.mpr ⟨List.forall_mem_append.mpr ⟨ties, ?_⟩, ?_⟩
  · cases tested : s.morphTest base with
    | none => exact List.forall_mem_nil _
    | some test =>
      exact List.forall_mem_singleton.mpr (table_inScope known (s.class_known base tested))
  · split
    · exact List.forall_mem_singleton.mpr (related_inScope known)
    · exact List.forall_mem_nil _

/-- The rows of a source are read by its own aliases, and by that of the owner's table if they are correlated
with it. -/
theorem rows_inScope {link : Link} (linked : ∀ baseAlias, link = .correlated baseAlias → scope baseAlias)
    (locale : Option String) {filter : Option Filter}
    (undotted : ∀ x ∈ (filter.map Filter.mentions).getD [], Undotted x) :
    ∀ ref ∈ s.rowReferences base locale link filter, ref.InScope d scope inner := by
  simp only [rowReferences, List.forall_mem_append]
  exact ⟨⟨⟨tables_inScope known, satelliteReferences_inScope known locale⟩, tied_inScope known linked⟩,
    mentioned_inScope known undotted⟩

/-- Columns of a satellite are selected only if the source has one. -/
theorem columns_inScope {columns : Columns}
    (localized : s.localization.isSome = true ∨ columns.localized = []) :
    ∀ ref ∈ columns.references s.relatedAlias s.satelliteAlias, ref.InScope d scope inner := by
  refine List.forall_mem_append.mpr ⟨?_, ?_⟩
  · intro ref cited
    obtain ⟨x, -, rfl⟩ := List.mem_map.mp cited
    exact related_inScope known
  · intro ref cited
    obtain ⟨x, listed, rfl⟩ := List.mem_map.mp cited
    rcases localized with some | none
    · exact satellite_inScope known some
    · exact absurd (none ▸ listed) List.not_mem_nil

end InScope

end Source

theorem Columns.localized_of_resolve {e : Entity} {selection : ColumnSelection} {columns : Columns}
    (resolved : Columns.resolve e selection none = .ok columns) : columns.localized = [] := by
  refine of_resolve (P := fun c => c.localized = []) rfl (fun c column none => ?_) resolved
  unfold insert
  split <;> exact none

theorem RelationRequest.localized_of_projection {r : RelationRequest} {s : Source} {columns : Columns}
    (projected : r.projection s = .ok columns) :
    s.localization.isSome = true ∨ columns.localized = [] := by
  cases found : s.localization with
  | some l => exact .inl rfl
  | none =>
    unfold projection at projected
    split at projected
    · rw [found] at projected
      exact .inr (Columns.localized_of_resolve projected)
    · exact absurd projected (by simp)

theorem Source.locale_of_resolve {ctx : Context} {base : Entity} {name : String} {localized : Bool} {s : Source}
    (resolved : Source.resolve ctx base name localized = .ok s) (some : s.localization.isSome = true) :
    ctx.locale.isSome = true := by
  obtain ⟨-, -, -, wanted⟩ := Source.resolve_eq_ok_iff.mp resolved
  rw [wanted, localization?] at some
  split at some
  case isTrue asked => exact (Bool.and_eq_true _ _ ▸ asked).2
  case isFalse => exact absurd some (by simp)

end EagerLoad
