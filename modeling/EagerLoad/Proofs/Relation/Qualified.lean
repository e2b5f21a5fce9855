import EagerLoad.Proofs.Relation.Aliases
import EagerLoad.Proofs.Relation.Worded

/-! # Aliases in scope

A subquery refers to the aliases of its source, to that of a derived table if it has one, and to that of its
owner's table. A keyed statement refers to the first only. -/
namespace EagerLoad

open Sql Sql.Draft

/-- The columns that a filter mentions and those that it orders by. -/
def filterColumns (filter : Option Filter) : List String :=
  (filter.map fun f => f.mentions ++ f.order.map OrderTerm.column).getD []

namespace Subquery

section Columns

variable {filter : Option Filter} (undotted : ∀ x ∈ filterColumns filter, Undotted x)
include undotted

theorem undotted_mentions : ∀ x ∈ (filter.map Filter.mentions).getD [], Undotted x := by
  cases filter with
  | none => exact List.forall_mem_nil _
  | some f => exact (List.forall_mem_append.mp undotted).1

theorem undotted_order : ∀ t ∈ orderOf filter, Undotted t.column := by
  cases filter with
  | none => exact List.forall_mem_nil _
  | some f => exact List.forall_mem_map.mp (List.forall_mem_append.mp undotted).2

end Columns

/-- The terms of the outer order name selected columns. -/
theorem projectedOrder_known {order terms : List OrderTerm} {columns : Columns}
    (projected : projectedOrder order columns = some terms) : ∀ t ∈ terms, t.column ∈ columns.names := by
  unfold projectedOrder at projected
  split at projected
  · exact absurd projected (by simp)
  · clear * - projected
    induction order generalizing terms with
    | nil =>
      obtain rfl := Option.some.inj projected
      exact List.forall_mem_nil _
    | cons term rest ih =>
      rw [List.mapM_cons] at projected
      obtain ⟨first, here, projected⟩ := Option.bind_eq_some_iff.mp projected
      obtain ⟨others, later, same⟩ := Option.bind_eq_some_iff.mp projected
      obtain rfl := Option.some.inj same
      refine List.forall_mem_cons.mpr ⟨?_, ih later⟩
      dsimp only at here
      split at here
      case isTrue listed =>
        obtain rfl := Option.some.inj here
        simpa using listed
      case isFalse => exact absurd here (by simp)

section InScope

variable {ctx : Context} {base : Entity} {s : Source} {columns : Columns} {filter : Option Filter}
  {baseAlias : String} {d : Dialect} {scope : String → Prop} {inner : List Char → Prop}
  (known : ∀ name ∈ s.aliases, scope name) (tied : scope baseAlias)
  (undotted : ∀ x ∈ filterColumns filter, Undotted x)
include known tied undotted

theorem body_inScope : ∀ ref ∈ s.bodyReferences base ctx.locale baseAlias filter, ref.InScope d scope inner := by
  change ∀ ref ∈ s.rowReferences base ctx.locale (.correlated baseAlias) filter, _
  apply Source.rows_inScope known
  · rintro _ ⟨⟩
    exact tied
  · exact undotted_mentions undotted

/-- The subquery of a relation reads what it selects by the aliases of its source, and a derived table by its
own. -/
theorem references_inScope (localized : s.localization.isSome = true ∨ columns.localized = [])
    (valid : ∀ x ∈ columns.names, Identifier.fault? x = none) (shape : Shape)
    (derived : shape = .many → collection ctx base s columns filter (.correlated baseAlias) =
      derivedCollection ctx base s columns filter (.correlated baseAlias) → scope s.rowsAlias) :
    ∀ ref ∈ references ctx base s columns filter baseAlias shape, ref.InScope d scope inner := by
  have body : ∀ ref ∈ s.bodyReferences base ctx.locale baseAlias filter, ref.InScope d scope inner :=
    body_inScope known tied undotted
  have selected : ∀ ref ∈ columns.references s.relatedAlias s.satelliteAlias, ref.InScope d scope inner :=
    Source.columns_inScope known localized
  have ordered : ∀ ref ∈ orderReferences s.qualifier (orderOf filter), ref.InScope d scope inner :=
    Source.order_inScope known (undotted_order undotted)
  cases shape with
  | one =>
    exact List.forall_mem_append.mpr ⟨List.forall_mem_append.mpr ⟨selected, body⟩, ordered⟩
  | many =>
    change ∀ ref ∈ collectionReferences ctx base s columns filter baseAlias, _
    unfold collectionReferences
    split
    case isTrue =>
      exact List.forall_mem_append.mpr ⟨forall_arrayReferences ctx.dialect selected ordered, body⟩
    case isFalse needed =>
      have rows : scope s.rowsAlias := derived rfl (if_neg needed)
      have row : ∀ ref ∈ columns.names.map (Reference.at s.rowsAlias), ref.InScope d scope inner := by
        intro ref cited
        obtain ⟨x, -, rfl⟩ := List.mem_map.mp cited
        exact rows
      have outer : ∀ ref ∈ orderReferences (.ofTable s.rowsAlias)
          ((projectedOrder (orderOf filter) columns).getD []), ref.InScope d scope inner := by
        cases projected : projectedOrder (orderOf filter) columns with
        | none => exact List.forall_mem_nil _
        | some terms =>
          intro ref cited
          obtain ⟨t, listed, rfl⟩ := List.mem_map.mp cited
          exact .ofTable (undotted_of_valid (valid _ (projectedOrder_known projected t listed))) rows
      have array := forall_arrayReferences ctx.dialect row outer
      simp only [derivedReferences, List.forall_mem_append]
      exact ⟨⟨⟨array, selected⟩, body⟩, ordered⟩

end InScope

/-- The rows of a derived table get an alias. -/
theorem derivedCollection_introduces {d : Dialect} (ctx : Context) (base : Entity) (s : Source)
    (columns : Columns) {filter : Option Filter} (link : Link) (free : rawsOf filter = [])
    (complete : (derivedCollection ctx base s columns filter link).failure? = none) :
    Introduces d ((derivedCollection ctx base s columns filter link).text d) s.rowsAlias := by
  obtain ⟨_, -, parts, -⟩ := derivedCollection_text (d := d) ctx base s columns filter link
  obtain ⟨-, rows, -⟩ := parts complete
  have guarded := derivedRows_guarded (d := d) ctx base s columns link free
  have selects : Draft.text d (derivedRows ctx base s columns link filter) = "SELECT ".toList ++
      (columns.selectList s.relatedAlias s.satelliteAlias ++ s.body ctx.locale base filter link ++
        (s.orderClause (orderOf filter) ++ limitDraft filter)).text d := by
    simp only [derivedRows, List.cons_append, text_cons, Step.sql]
  refine .rows ?_ (guarded rows).balanced ?_
  · rw [selects]
    exact List.prefix_append _ _
  · have table : .text " FROM (SELECT " :: (columns.selectList s.relatedAlias s.satelliteAlias ++
        s.body ctx.locale base filter link ++ (s.orderClause (orderOf filter) ++ limitDraft filter)) ++
          [.text ") AS ", .name s.rowsAlias] <:+: derivedCollection ctx base s columns filter link := by
      unfold derivedCollection limitDraft
      simp only [← List.cons_append, List.append_assoc]
      exact (List.suffix_append _ _).isInfix
    have opening : " FROM (SELECT ".toList = " FROM (".toList ++ "SELECT ".toList := by decide
    have written := text_within (d := d) table
    rw [text_append, text_cons, Step.sql, opening, List.append_assoc _ "SELECT ".toList, ← selects] at written
    simpa [Step.sql] using written

end Subquery

/-- Whether all references of a fragment are to aliases that it introduces itself or to that of its owner's
table. -/
def Correlated (d : Dialect) (baseAlias : String) (text : List Char) : Prop :=
  Qualifies d (fun name => Introduces d text name ∨ name = baseAlias) (fun _ => False) text

/-- Whether all references of a statement are to aliases that it introduces itself. -/
def SelfContained (d : Dialect) (text : List Char) : Prop :=
  Qualifies d (Introduces d text) (fun _ => False) text

/-- A source whose rows a draft reads introduces its aliases there. -/
theorem Source.aliases_introduced {d : Dialect} {ctx : Context} {base : Entity} {name : String}
    {localized : Bool} {s : Source} (resolved : Source.resolve ctx base name localized = .ok s)
    {filter : Option Filter} {link : Link} {draft : Draft} (complete : draft.failure? = none)
    (reads : s.body ctx.locale base filter link <:+: draft) {text : List Char}
    (numbers : Numbered (draft.text d) text) : ∀ name ∈ s.aliases, Introduces d text name := by
  intro name known
  have names := s.body_names base (locale_of_resolve resolved) filter link name known
  exact (names.mono reads).introduces complete numbers

namespace Subquery

section Fragments

variable {d : Dialect} {ctx : Context} {base : Entity} {baseAlias : String}

theorem consults_rawless : ctx.Consults .rawless := fun _ _ _ _ => trivial

private theorem correlated_of_cites {refs : List Reference} {draft : Draft} (cites : Cites refs draft)
    (written : Written .rawless draft) (complete : draft.failure? = none)
    (known : ∀ ref ∈ refs, ref.InScope d (fun name => Introduces d (draft.text d) name ∨ name = baseAlias)
      fun _ => False) : Correlated d baseAlias (draft.text d) :=
  cites.qualifies (written.onlyPoints complete) complete known

theorem relation_correlated {r : RelationRequest} (free : rawsOf r.filter = [])
    (undotted : ∀ x ∈ filterColumns r.filter, Undotted x)
    (complete : (relation ctx base baseAlias r).failure? = none) :
    Correlated d baseAlias ((relation ctx base baseAlias r).text d) := by
  obtain ⟨s, columns, shape, resolved, projected, valid, cites, selects⟩ := relation_cites complete
  have written := relation_written ctx base baseAlias consults_rawless r (by simp [free])
  have reads := (rows_read ctx base s columns r.filter baseAlias shape).trans selects
  have introduced := Source.aliases_introduced resolved complete reads (.refl (Draft.text d _))
  refine correlated_of_cites cites written complete ?_
  refine references_inScope (fun name known => .inl (introduced name known)) (.inr rfl) undotted
    (RelationRequest.localized_of_projection projected) valid shape ?_
  rintro rfl derived
  have within : derivedCollection ctx base s columns r.filter (.correlated baseAlias) <:+:
      relation ctx base baseAlias r := derived ▸ selects
  have rows := derivedCollection_introduces (d := d) ctx base s columns (.correlated baseAlias) free
    (complete_within within complete)
  exact .inl (rows.mono (text_within within))

theorem count_correlated {c : CountRequest} (free : rawsOf c.filter = [])
    (undotted : ∀ x ∈ filterColumns c.filter, Undotted x)
    (complete : (count ctx base baseAlias c).failure? = none) :
    Correlated d baseAlias ((count ctx base baseAlias c).text d) := by
  obtain ⟨s, resolved, cites, reads⟩ := count_cites complete
  have written := count_written ctx base baseAlias consults_rawless c (by simp [free])
  have introduced := Source.aliases_introduced resolved complete reads (.refl (Draft.text d _))
  refine correlated_of_cites cites written complete ?_
  exact body_inScope (fun name known => .inl (introduced name known)) (.inr rfl) undotted

theorem aggregate_correlated {a : AggregateRequest} (free : rawsOf a.filter = [])
    (undotted : ∀ x ∈ filterColumns a.filter, Undotted x)
    (complete : (aggregate ctx base baseAlias a).failure? = none) :
    Correlated d baseAlias ((aggregate ctx base baseAlias a).text d) := by
  obtain ⟨s, resolved, cites, reads⟩ := aggregate_cites complete
  have written := aggregate_written ctx base baseAlias consults_rawless a (by simp [free])
  have introduced := Source.aliases_introduced resolved complete reads (.refl (Draft.text d _))
  have known : ∀ name ∈ s.aliases, Introduces d _ name ∨ name = baseAlias :=
    fun name listed => .inl (introduced name listed)
  refine correlated_of_cites cites written complete (List.forall_mem_cons.mpr ⟨?_, ?_⟩)
  · exact Source.related_inScope known
  · exact body_inScope known (.inr rfl) undotted

theorem search_correlated {name : String} {columns : List String} {pattern : String}
    (complete : (search ctx base baseAlias name columns pattern).failure? = none) :
    Correlated d baseAlias ((search ctx base baseAlias name columns pattern).text d) := by
  obtain ⟨s, resolved, cites, reads⟩ := search_cites complete
  have written := search_written ctx base baseAlias consults_rawless name columns pattern
  have introduced := Source.aliases_introduced resolved complete reads (.refl (Draft.text d _))
  have known : ∀ name ∈ s.aliases, Introduces d _ name ∨ name = baseAlias :=
    fun name listed => .inl (introduced name listed)
  refine correlated_of_cites cites written complete (List.forall_mem_append.mpr ⟨?_, ?_⟩)
  · exact body_inScope known (.inr rfl) (List.forall_mem_nil _)
  · intro ref cited
    obtain ⟨x, -, rfl⟩ := List.mem_map.mp cited
    exact Source.related_inScope known

end Fragments
end Subquery

namespace Keyed

variable {d : Dialect} (ctx : Context) (base : Entity) (s : Source) (keys : List DbValue)

theorem ownerItem_cites : Cites [.at s.ownerColumn.1 s.ownerColumn.2] (ownerItem s) :=
  Cites.followed (qualified_cites _ _) (by simp)

theorem grouped_cites {value : Draft} {refs : List Reference} (cites : Cites refs value)
    (filter : Option Filter) : Cites ([.at s.ownerColumn.1 s.ownerColumn.2] ++ refs ++
        s.rowReferences base ctx.locale (.keys keys) filter ++ [.at s.ownerColumn.1 s.ownerColumn.2])
      (grouped ctx base s value filter keys) := by
  have item : Cites _ (.text "SELECT " :: ownerItem s) := .step (by simp) (ownerItem_cites s)
  have named : Cites _ (.text ", " :: value ++ [.text " AS ", .name valueAlias]) :=
    .step (by simp) (cites.followed (by simp))
  have owner : Cites [.at s.ownerColumn.1 s.ownerColumn.2] (.text " GROUP BY " :: s.owner) :=
    .step (by simp) (qualified_cites _ _)
  have all := ((item.append named).append (s.rows_cite base ctx.locale (.keys keys) filter)).append owner
  rwa [← List.append_assoc (.text "SELECT " :: ownerItem s)] at all

theorem relation_cites (filter : Option Filter) (columns : Columns) :
    Cites ([.at s.ownerColumn.1 s.ownerColumn.2] ++ columns.references s.relatedAlias s.satelliteAlias ++
        s.rowReferences base ctx.locale (.keys keys) filter ++
        orderReferences s.qualifier (Subquery.orderOf filter))
      (.text "SELECT " :: ownerItem s ++
        (if columns.isEmpty then [] else .text ", " :: columns.selectList s.relatedAlias s.satelliteAlias) ++
        s.body ctx.locale base filter (.keys keys) ++ s.orderClause (Subquery.orderOf filter)) := by
  have item : Cites _ (.text "SELECT " :: ownerItem s) := .step (by simp) (ownerItem_cites s)
  refine ((item.append ?_).append (s.rows_cite base _ _ filter)).append (s.orderClause_cites _)
  split
  case isTrue none =>
    simp only [Columns.isEmpty, Bool.and_eq_true, List.isEmpty_iff] at none
    rw [Columns.references, none.1, none.2]
    exact .nil
  case isFalse => exact .step (by simp) (columns.selectList_cites _ _)

section Statements

variable {ctx base s keys}

private theorem selfContained_of_cites {refs : List Reference} {draft : Draft} {statement : Statement}
    (cites : Cites refs draft) (written : Written .rawless draft)
    (done : Statement.ofDraft d draft = .ok statement)
    (known : ∀ ref ∈ refs, ref.InScope d (Introduces d statement.sql.toList) fun _ => False) :
    SelfContained d statement.sql.toList := by
  have complete := ((ofDraft_eq_ok_iff _ _ _).mp done).1
  have numbered := (cites.qualifies (written.onlyPoints complete) complete known).numbered (.of_ofDraft done)
  refine numbered.mono (fun _ introduced => introduced) ?_
  rintro piece ⟨text, none, -⟩
  exact none

private theorem rows_selfContained {filter : Option Filter} {scope : String → Prop}
    (known : ∀ name ∈ s.aliases, scope name) (undotted : ∀ x ∈ filterColumns filter, Undotted x) :
    ∀ ref ∈ s.rowReferences base ctx.locale (.keys keys) filter, ref.InScope d scope fun _ => False := by
  apply Source.rows_inScope known
  · rintro _ ⟨⟩
  · exact Subquery.undotted_mentions undotted

theorem relation_selfContained {r : RelationRequest} {columns : ColumnSelection} {statement : Statement}
    (free : rawsOf r.filter = []) (undotted : ∀ x ∈ filterColumns r.filter, Undotted x)
    (done : Statement.ofDraft d (relation ctx base r columns keys) = .ok statement) :
    SelfContained d statement.sql.toList := by
  have complete := ((ofDraft_eq_ok_iff _ _ _).mp done).1
  obtain ⟨s, resolved, whole⟩ := Source.failure?_andThen.mp complete
  obtain ⟨projected, projection, -⟩ := RelationRequest.failure?_withProjection.mp whole
  have written : Written .rawless (relation ctx base r columns keys) :=
    relation_written keys Subquery.consults_rawless r columns (by simp [free])
  have cites := relation_cites ctx base s keys r.filter projected
  have reads : s.body ctx.locale base r.filter (.keys keys) <:+: relation ctx base r columns keys := by
    refine .trans ?_ (Source.infix_andThen resolved _)
    refine .trans ?_ (RelationRequest.infix_withProjection projection _)
    exact List.infix_append _ _ _
  have known := Source.aliases_introduced resolved complete reads (.of_ofDraft done)
  have owner : Introduces d statement.sql.toList s.ownerColumn.1 := Source.table_inScope known s.owner_known
  refine selfContained_of_cites
    (Source.andThen_cites resolved (RelationRequest.withProjection_cites projection cites)) written done ?_
  simp only [List.forall_mem_append]
  refine ⟨⟨⟨List.forall_mem_singleton.mpr owner, ?_⟩, rows_selfContained known undotted⟩, ?_⟩
  · exact Source.columns_inScope known (RelationRequest.localized_of_projection projection)
  · exact Source.order_inScope known (Subquery.undotted_order undotted)

private theorem grouped_selfContained {refs : List Reference} {draft : Draft} {filter : Option Filter}
    {statement : Statement} {name : String} (resolved : Source.resolve ctx base name false = .ok s)
    (cites : Cites ([.at s.ownerColumn.1 s.ownerColumn.2] ++ refs ++
      s.rowReferences base ctx.locale (.keys keys) filter ++ [.at s.ownerColumn.1 s.ownerColumn.2]) draft)
    (values : ∀ ref ∈ refs, ∃ column, ref = .at s.relatedAlias column)
    (undotted : ∀ x ∈ filterColumns filter, Undotted x)
    (reads : s.body ctx.locale base filter (.keys keys) <:+: draft)
    (written : Written .rawless draft) (done : Statement.ofDraft d draft = .ok statement) :
    SelfContained d statement.sql.toList := by
  have complete := ((ofDraft_eq_ok_iff _ _ _).mp done).1
  have known := Source.aliases_introduced resolved complete reads (.of_ofDraft done)
  have owner : Introduces d statement.sql.toList s.ownerColumn.1 := Source.table_inScope known s.owner_known
  refine selfContained_of_cites cites written done ?_
  simp only [List.forall_mem_append]
  refine ⟨⟨⟨List.forall_mem_singleton.mpr owner, ?_⟩, rows_selfContained known undotted⟩,
    List.forall_mem_singleton.mpr owner⟩
  intro ref cited
  obtain ⟨column, rfl⟩ := values ref cited
  exact Source.related_inScope known

theorem count_selfContained {c : CountRequest} {statement : Statement}
    (free : rawsOf c.filter = []) (undotted : ∀ x ∈ filterColumns c.filter, Undotted x)
    (done : Statement.ofDraft d (count ctx base c keys) = .ok statement) :
    SelfContained d statement.sql.toList := by
  have complete := ((ofDraft_eq_ok_iff _ _ _).mp done).1
  obtain ⟨s, resolved, -⟩ := Source.failure?_andThen.mp complete
  have written : Written .rawless (count ctx base c keys) :=
    count_written keys Subquery.consults_rawless c (by simp [free])
  have value : Cites [] [.text "COUNT(*)"] := .plain (by simp)
  have cites := grouped_cites ctx base s keys value c.filter
  refine grouped_selfContained resolved (Source.andThen_cites resolved cites)
    (List.forall_mem_nil _) undotted ?_ written done
  refine .trans ?_ (Source.infix_andThen resolved _)
  exact List.infix_append _ _ _

theorem aggregate_selfContained {a : AggregateRequest} {statement : Statement}
    (free : rawsOf a.filter = []) (undotted : ∀ x ∈ filterColumns a.filter, Undotted x)
    (done : Statement.ofDraft d (aggregate ctx base a keys) = .ok statement) :
    SelfContained d statement.sql.toList := by
  have complete := ((ofDraft_eq_ok_iff _ _ _).mp done).1
  obtain ⟨s, resolved, -⟩ := Source.failure?_andThen.mp complete
  have written : Written .rawless (aggregate ctx base a keys) :=
    aggregate_written keys Subquery.consults_rawless a (by simp [free])
  have value := Subquery.aggregateCall_cites ctx.dialect s a
  have required : Cites [] [.require s.relatedAlias, .require a.column] := .plain (by simp)
  have cites := required.append (grouped_cites ctx base s keys value a.filter)
  refine grouped_selfContained resolved (Source.andThen_cites resolved cites)
    (fun ref cited => ⟨a.column, List.mem_singleton.mp cited⟩) undotted ?_ written done
  refine .trans ?_ (Source.infix_andThen resolved _)
  exact List.IsInfix.trans (List.infix_append _ _ _) (List.suffix_append _ _).isInfix

end Statements
end Keyed
end EagerLoad
