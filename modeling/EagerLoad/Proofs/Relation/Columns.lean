import EagerLoad.Proofs.Relation.Declared
import EagerLoad.Proofs.Sql.Items

/-! # Resolved columns

The columns of a selection are the requested ones, each where it is first asked for, the localized apart from the
others. All writers of columns give out the same ones under the same names, which are read back from their texts. -/
namespace EagerLoad

open Sql Sql.Draft

namespace Columns

variable {e : Entity} {selection : ColumnSelection} {localization : Option Localization} {c : Columns}

/-- What a selection asks for, repetitions included. All columns are the key, the declared columns, the timestamps
and the fields of a localization. -/
def asked (e : Entity) (selection : ColumnSelection) (localization : Option Localization) : List String :=
  match selection with
  | .columns names => names
  | .all => e.primaryKey :: e.columns ++ (if e.timestamps then ["created_at", "updated_at"] else []) ++
      (localization.map (·.fields)).getD []

/-- The columns that are given out, with the aliases that they are read from. -/
def shown (c : Columns) (mainAlias satelliteAlias : String) : List Shown :=
  (c.main.map fun column => ⟨column, mainAlias, column⟩) ++
    c.localized.map fun column => ⟨column, satelliteAlias, column⟩

theorem requested_all : requested e .all localization = distinct (asked e .all localization) := by
  cases localization with
  | none => simp [requested, asked, Entity.allColumns]
  | some l => simp [requested, asked, Entity.allColumns, distinct, List.foldl_append]

theorem mem_requested {x : String} :
    x ∈ requested e selection localization ↔ x ∈ asked e selection localization := by
  cases selection with
  | columns names => rfl
  | all => rw [requested_all, mem_distinct]

/-- What is left of the requested columns is left of all that is asked for. -/
theorem distinct_requested (keep : String → Bool) :
    distinct ((requested e selection localization).filter keep) =
      ((asked e selection localization).filter keep).eraseDups := by
  rw [← distinct_eq_eraseDups]
  cases selection with
  | columns names => rfl
  | all => rw [requested_all, filter_distinct, distinct_of_nodup (nodup_distinct _)]

/-- Taking up columns one by one puts the localized ones apart, if they can be read. -/
theorem foldl_insert (localized : Bool) (names : List String) (c : Columns) :
    names.foldl (insert e localized) c =
      ⟨(names.filter fun x => !e.localizedFields.contains x).foldl addNew c.main,
        if localized then (names.filter e.localizedFields.contains).foldl addNew c.localized
        else c.localized⟩ := by
  induction names generalizing c with
  | nil => simp
  | cons column rest ih =>
    rw [List.foldl_cons, ih, insert]
    by_cases own : column ∈ e.localizedFields
    · cases localized <;> simp [own]
    · simp [own]

theorem main_eq_of_resolve (resolved : resolve e selection localization = .ok c) :
    c.main = ((asked e selection localization).filter fun x => !e.localizedFields.contains x).eraseDups := by
  obtain ⟨-, rfl⟩ := resolve_eq_ok_iff.mp resolved
  rw [foldl_insert, ← distinct_requested, distinct]

theorem localized_eq_of_resolve (resolved : resolve e selection localization = .ok c) :
    c.localized = if localization.isSome then
      ((asked e selection localization).filter e.localizedFields.contains).eraseDups else [] := by
  obtain ⟨-, rfl⟩ := resolve_eq_ok_iff.mp resolved
  rw [foldl_insert, ← distinct_requested, distinct]

theorem resolve_fails_iff : (∃ error, resolve e selection localization = .error error) ↔
    ∃ column ∈ asked e selection localization, Identifier.isValid column = false := by
  have valid : (∃ c, resolve e selection localization = .ok c) ↔
      ∀ column ∈ asked e selection localization, Identifier.isValid column = true := by
    simp only [resolve_eq_ok_iff, exists_and_left, exists_eq', and_true, mem_requested, Identifier.isValid,
      Option.isNone_iff_eq_none]
  cases found : resolve e selection localization with
  | ok c =>
    have all := valid.mp ⟨c, found⟩
    simp only [reduceCtorEq, exists_false, false_iff, not_exists, not_and, Bool.not_eq_false]
    exact all
  | error error =>
    refine iff_of_true ⟨error, rfl⟩ ?_
    by_contra none
    have all : ∀ column ∈ asked e selection localization, Identifier.isValid column = true := by
      simpa using none
    obtain ⟨c, ok⟩ := valid.mpr all
    exact absurd (found.symm.trans ok) (by simp)

/-! ## What the writers give out -/

section Writers

variable {d : Dialect} {mainAlias satelliteAlias source column : String} {f : Fragment}

/-- The tokens of a reference. -/
def referenceItem (source column : String) : List Token :=
  [.name source.toList, .run ['.'], .name column.toList]

private theorem comma_notMem_reference (source column : String) : .comma ∉ referenceItem source column := by
  simp [referenceItem, Token.comma]

private theorem valid_of_qualified (complete : (qualified source column).failure? = none) :
    Identifier.fault? source = none ∧ Identifier.fault? column = none :=
  (failure?_qualified source column).mp complete

private theorem listed_qualified (complete : (qualified source column).failure? = none) :
    Listed d.quoteMark ((qualified source column).text d) [referenceItem source column] := by
  obtain ⟨validSource, validColumn⟩ := valid_of_qualified complete
  exact .single (.qualified validSource validColumn) (comma_notMem_reference source column)

private theorem listed_pair (complete : (pair source column).failure? = none) :
    Listed d.quoteMark ((pair source column).text d)
      [[.literal column.toList], referenceItem source column] := by
  have reference : (qualified source column).failure? = none := ((failure?_append _ _).mp complete).2
  have key : Lexed d.quoteMark ('\x27' :: (column.toList ++ ['\x27'])) [.literal column.toList] :=
    .quoted rfl (.inl rfl) (valid_of_qualified reference).2
  have known : isQuote d.quoteMark = true := by simp [isQuote, isNameQuote_quoteMark]
  have whole := (Listed.single key (by simp [Token.comma])).append known (listed_qualified reference)
  have shape : (pair source column).text d = '\x27' :: (column.toList ++ ['\x27']) ++ ", ".toList ++
      (qualified source column).text d := by
    simp [pair, Step.sql]
  rw [shape]
  exact whole

private theorem listed_renamed
    (complete : (qualified source column ++ [.text " AS ", .name column] : Draft).failure? = none) :
    Listed d.quoteMark ((qualified source column ++ [.text " AS ", .name column] : Draft).text d)
      [referenceItem source column ++ [.run " AS ".toList, .name column.toList]] := by
  obtain ⟨validSource, validColumn⟩ := valid_of_qualified ((failure?_append _ _).mp complete).1
  have known : isQuote d.quoteMark = true := by simp [isQuote, isNameQuote_quoteMark]
  have reference : Lexed d.quoteMark ((qualified source column).text d) (referenceItem source column) :=
    .qualified validSource validColumn
  have whole := reference.join known (.name validColumn) (List.cons_ne_nil ' ' ['A', 'S', ' '])
    (by simp [isQuote, isNameQuote])
  refine .single ?_ (by simp [referenceItem, Token.comma])
  simpa [Step.sql] using whole

private theorem mapM_map_some {f : α → β} {g : β → Option γ} {h : α → γ} (each : ∀ x, g (f x) = some (h x))
    (items : List α) : (items.map f).mapM g = some (items.map h) := by
  have pure : g ∘ f = fun x => Pure.pure (h x) := funext each
  rw [List.mapM_map, pure, List.mapM_pure]
  rfl

private theorem entries?_pairs (entries : List Shown) :
    Shown.entries? (entries.flatMap fun x => [[.literal x.column.toList], referenceItem x.source x.column]) =
      some (entries.map fun x => ⟨x.column, x.source, x.column⟩) := by
  induction entries with
  | nil => rfl
  | cons x rest ih =>
    simp only [List.flatMap_cons, List.cons_append, List.nil_append, referenceItem, Shown.entries?] at ih ⊢
    rw [ih]
    simp

theorem flatObject_eq (c : Columns) (d : Dialect) (source : String) :
    c.flatObject d source = c.object d source source := by
  simp [flatObject, object, names]

/-- An object that can be written gives out the columns. -/
theorem object_shown (written : (c.object d mainAlias satelliteAlias).compile d = .ok f) :
    objectShown? d f.sql = some (c.shown mainAlias satelliteAlias) := by
  obtain ⟨complete, rfl⟩ := (compile_eq_ok_iff _ _ _).mp written
  have shape : c.object d mainAlias satelliteAlias = [.text d.objectFunction, .text "("] ++
      separated ", " ((c.shown mainAlias satelliteAlias).map fun x => pair x.source x.column) ++
        [.text ")"] := by
    rw [object, shown, List.map_append, List.map_map, List.map_map]
    rfl
  have named : (c.shown mainAlias satelliteAlias).map (fun x => (⟨x.column, x.source, x.column⟩ : Shown)) =
      c.shown mainAlias satelliteAlias := by
    rw [shown, List.map_append, List.map_map, List.map_map]
    rfl
  rw [shape] at complete ⊢
  generalize c.shown mainAlias satelliteAlias = entries at complete named ⊢
  have pairs := (failure?_separated _ _).mp ((failure?_append _ _).mp ((failure?_append _ _).mp complete).1).2
  have unquoted : ∀ c ∈ d.objectFunction.toList, isQuote c = false := by
    cases d <;> simp [Dialect.objectFunction, isQuote, isNameQuote]
  rw [objectShown?]
  by_cases some : entries = []
  · subst some
    rw [arguments_empty unquoted]
    · rfl
    · change Draft.text d _ = _
      simp [Step.sql, separated]
  · have listed : Listed d.quoteMark
        ((separated ", " (entries.map fun x => pair x.source x.column)).text d)
        (entries.flatMap fun x => [[.literal x.column.toList], referenceItem x.source x.column]) :=
      .separated (fun x known => listed_pair (pairs _ (List.mem_map_of_mem known))) some
    rw [listed.arguments unquoted, Option.bind_some, entries?_pairs, named]
    change Draft.text d _ = _
    simp [Step.sql]

/-- A select list that can be written gives out the columns. -/
theorem selectList_shown (written : (c.selectList mainAlias satelliteAlias).compile d = .ok f) :
    listShown? d f.sql = some (c.shown mainAlias satelliteAlias) := by
  obtain ⟨complete, rfl⟩ := (compile_eq_ok_iff _ _ _).mp written
  let entries : List (Draft × List Token) :=
    (c.main.map fun column => (qualified mainAlias column, referenceItem mainAlias column)) ++
      c.localized.map fun column => (qualified satelliteAlias column ++ [.text " AS ", .name column],
        referenceItem satelliteAlias column ++ [.run " AS ".toList, .name column.toList])
  have shape : c.items mainAlias satelliteAlias = entries.map (·.1) := by
    rw [items, List.map_append, List.map_map, List.map_map]
    rfl
  have shown : (entries.map (·.2)).mapM Shown.item? = some (c.shown mainAlias satelliteAlias) := by
    have plain (column : String) : Shown.item? (referenceItem mainAlias column) =
        some ⟨column, mainAlias, column⟩ := by
      simp [referenceItem, Shown.item?]
    have renamed (column : String) : Shown.item? (referenceItem satelliteAlias column ++
        [.run " AS ".toList, .name column.toList]) = some ⟨column, satelliteAlias, column⟩ := by
      simp [referenceItem, Shown.item?]
    have items : entries.map (·.2) = c.main.map (referenceItem mainAlias) ++
        c.localized.map fun column => referenceItem satelliteAlias column ++
          [.run " AS ".toList, .name column.toList] := by
      rw [List.map_append, List.map_map, List.map_map]
      rfl
    rw [items, List.mapM_append, mapM_map_some plain, mapM_map_some renamed]
    rfl
  have each := (failure?_separated _ _).mp complete
  rw [listShown?, selectList, shape]
  by_cases none : entries = []
  · rw [none] at shown ⊢
    exact shown
  · have listed : Listed d.quoteMark ((separated ", " (entries.map (·.1))).text d)
        (entries.flatMap fun x => [x.2]) := by
      refine .separated (fun x known => ?_) none
      have complete : x.1.failure? = Option.none := each x.1 (shape ▸ List.mem_map_of_mem known)
      obtain known | known := List.mem_append.mp known
      · obtain ⟨column, -, rfl⟩ := List.mem_map.mp known
        exact listed_qualified complete
      · obtain ⟨column, -, rfl⟩ := List.mem_map.mp known
        exact listed_renamed complete
    have apart : ([Token.comma].intercalate (entries.flatMap fun x => [x.2])).isEmpty = false := by
      obtain ⟨first, rest, begins, -⟩ := listed.lexed.begins
      rw [begins]
      rfl
    rw [listed.lexed.whole, Option.bind_some, apart, if_neg Bool.false_ne_true, listed.splitOn,
      ← List.map_eq_flatMap, shown]

private theorem object_complete (valid : ∀ x ∈ c.names, Identifier.fault? x = none)
    (main : Identifier.fault? mainAlias = none) (satellite : Identifier.fault? satelliteAlias = none) :
    (c.object d mainAlias satelliteAlias).failure? = none := by
  simp only [object, failure?_append, failure?_cons, failure?_nil, Step.failure?, failure?_separated, and_true,
    true_and]
  intro draft found
  obtain found | found := List.mem_append.mp found
  · obtain ⟨x, known, rfl⟩ := List.mem_map.mp found
    simp [pair, qualified, Step.failure?, main, valid x (List.mem_append_left _ known)]
  · obtain ⟨x, known, rfl⟩ := List.mem_map.mp found
    simp [pair, qualified, Step.failure?, satellite, valid x (List.mem_append_right _ known)]

/-- Whether a draft can be written under valid aliases, and a reader finds the columns wherever it is written. -/
structure Exposes (d : Dialect) (draft : Draft) (read : String → Option (List Shown)) (aliases : List String)
    (shown : List Shown) : Prop where
  written : (∀ name ∈ aliases, Identifier.isValid name = true) → ∃ f, draft.compile d = .ok f
  shown : ∀ f, draft.compile d = .ok f → read f.sql = some shown

private theorem exposes_of_complete {draft : Draft} {read : String → Option (List Shown)} {aliases : List String}
    {shown : List Shown} (complete : (∀ name ∈ aliases, Identifier.fault? name = none) → draft.failure? = none)
    (reads : ∀ {f}, draft.compile d = .ok f → read f.sql = some shown) : Exposes d draft read aliases shown where
  written valid :=
    ⟨draft.fragment d, (compile_eq_ok_iff _ _ _).mpr
      ⟨complete fun name known => Option.isNone_iff_eq_none.mp (valid name known), rfl⟩⟩
  shown _ := reads

end Writers

/-- Whether columns are those of a selection: the requested ones that are not localized, and the localized ones if
they can be read, each once and in order. All writers give out these and no others. -/
structure Exact (e : Entity) (selection : ColumnSelection) (localization : Option Localization) (c : Columns) :
    Prop where
  main : c.main = ((asked e selection localization).filter fun x => !e.localizedFields.contains x).eraseDups
  localized : c.localized = if localization.isSome then
    ((asked e selection localization).filter e.localizedFields.contains).eraseDups else []
  once : c.names.Nodup
  apart : c.main.Disjoint c.localized
  own : ∀ column ∈ c.main, column ∉ e.localizedFields
  names : ∀ mainAlias satelliteAlias, (c.shown mainAlias satelliteAlias).map (·.name) = c.names
  object : ∀ d mainAlias satelliteAlias, Exposes d (c.object d mainAlias satelliteAlias) (objectShown? d)
    [mainAlias, satelliteAlias] (c.shown mainAlias satelliteAlias)
  flatObject : ∀ d source, Exposes d (c.flatObject d source) (objectShown? d) [source] (c.shown source source)
  selectList : ∀ d mainAlias satelliteAlias, Exposes d (c.selectList mainAlias satelliteAlias) (listShown? d)
    [mainAlias, satelliteAlias] (c.shown mainAlias satelliteAlias)

theorem exact_of_resolve (resolved : resolve e selection localization = .ok c) :
    Exact e selection localization c := by
  have main := main_eq_of_resolve resolved
  have localized := localized_eq_of_resolve resolved
  have own : ∀ column ∈ c.main, column ∉ e.localizedFields := main_of_resolve resolved
  have apart : c.main.Disjoint c.localized := by
    intro column here there
    rw [localized, ← distinct_eq_eraseDups] at there
    split at there
    · exact own column here (List.contains_iff_mem.mp (List.mem_filter.mp ((mem_distinct _ _).mp there)).2)
    · exact List.not_mem_nil there
  have mainOnce : c.main.Nodup := by
    rw [main, ← distinct_eq_eraseDups]
    exact nodup_distinct _
  have localizedOnce : c.localized.Nodup := by
    rw [localized, ← distinct_eq_eraseDups]
    split
    · exact nodup_distinct _
    · exact List.nodup_nil
  have valid : ∀ x ∈ c.names, Identifier.fault? x = none := fun x known =>
    (resolve_eq_ok_iff.mp resolved).1 x ((mem_names_resolve resolved x).mp known).1
  have once : c.names.Nodup := by
    refine List.nodup_append.mpr ⟨mainOnce, localizedOnce, ?_⟩
    rintro x here _ there rfl
    exact apart here there
  refine ⟨main, localized, once, apart, own, fun mainAlias satelliteAlias => ?_,
    fun d mainAlias satelliteAlias => ?_, fun d source => ?_, fun d mainAlias satelliteAlias => ?_⟩
  · simp [shown, Columns.names, Function.comp_def]
  · refine exposes_of_complete (fun aliases => ?_) object_shown
    exact object_complete valid (aliases mainAlias (by simp)) (aliases satelliteAlias (by simp))
  · rw [flatObject_eq]
    refine exposes_of_complete (fun aliases => ?_) object_shown
    exact object_complete valid (aliases source (by simp)) (aliases source (by simp))
  · refine exposes_of_complete (fun aliases => ?_) selectList_shown
    exact selectList_complete_of_valid valid (aliases mainAlias (by simp))
      fun _ => aliases satelliteAlias (by simp)

/-- A selection cannot be resolved exactly if one of the columns that it asks for is no valid name. Otherwise it
resolves to the columns asked for, in whose order they are given out. -/
theorem resolve_exact (e : Entity) (selection : ColumnSelection) (localization : Option Localization) :
    ((∃ error, resolve e selection localization = .error error) ↔
      ∃ column ∈ asked e selection localization, Identifier.isValid column = false) ∧
    ∀ c, resolve e selection localization = .ok c → Exact e selection localization c :=
  ⟨resolve_fails_iff, fun _ => exact_of_resolve⟩

end Columns
end EagerLoad
