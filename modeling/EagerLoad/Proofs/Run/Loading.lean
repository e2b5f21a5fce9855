import EagerLoad.Proofs.Plan.Lookups
import EagerLoad.Proofs.Run.Attaching
import EagerLoad.Proofs.Run.Attempt

/-! # Loading subqueries one by one

Every load succeeds and attaches the value that the database holds, whatever was loaded before. After
all of them the rows carry a value for every relation, count and aggregate. -/
namespace EagerLoad

open Sql.Draft

namespace Database

variable (db : Database) (p : Plan) (c : Compiler)

/-- The value that a relation is loaded as. -/
def relationEntry (r : RelationRequest) : String × (Row → Json) :=
  (r.label, fun row => Fallback.relationValue ((r.shape p.entity).toOption.getD .one)
    (Subquery.limitOf r.filter) (db.objects p c r row))

def countEntry (count : CountRequest) : String × (Row → Json) :=
  (count.label, fun row =>
    .int (db.owned count.label (row.key? (p.keyOf count.relation))).length)

def aggregateEntry (a : AggregateRequest) : String × (Row → Json) :=
  (a.label, fun row => db.total a (db.owned a.label (row.key? (p.keyOf a.relation))))

/-- What is known while the subqueries of a plan are loaded: the rows carry the values attached so
far, and the memo finds what it found at first. -/
structure Loading (added : List (String × (Row → Json))) (l : Loaded) (s : State ε σ) : Prop where
  rows : List.Forall₂ (Row.Carries (p.outputs c (Plan.basePart p.keys)) added) db.rows l.rows
  labels : ∀ entry ∈ added, p.isSubqueryLabel entry.1 = true
  memo : Memo.Alike c.registry p.entity s.memo c.memo

end Database

namespace Fallback

open Database

variable {db : Database} {o : Optimizer ε σ} {p : Plan} {timeout : Option Duration} {memo : Memo}
  {added : List (String × (Row → Json))} {l : Loaded} {s : State ε σ}

theorem keyOf_selected {c : Compiler} (complete : (p.unsplitDraft c).failure? = none)
    {name : String} (known : name ∈ relationNames p) :
    p.keyOf name ∈ p.outputs c (Plan.basePart p.keys) := by
  obtain ⟨own, resolved⟩ := Plan.resolve_of_unsplit complete
  have key : p.keyOf name ∈ p.keys := Plan.mem_keys.mpr ⟨name, known, rfl⟩
  exact (Plan.mem_outputs_basePart resolved (List.ne_nil_of_mem key) _).mpr (.inr key)

theorem keyOf_apart (apart : ∀ key ∈ p.keys, p.isSubqueryLabel key = false)
    (labels : ∀ entry ∈ added, p.isSubqueryLabel entry.1 = true) {name : String}
    (known : name ∈ relationNames p) : added.lookup (p.keyOf name) = none := by
  rw [List.lookup_eq_none_iff]
  intro entry found
  have label := labels entry found
  rw [bne_iff_ne]
  intro same
  rw [← same, apart _ (Plan.mem_keys.mpr ⟨name, known, rfl⟩)] at label
  exact Bool.false_ne_true label

/-- The context of a later moment finds what the first one found. -/
theorem contextNow_returns (sound : o.registry.Sound)
    (alike : Memo.Alike o.registry p.entity s.memo memo) :
    Returns (contextNow o p) s fun ctx s' =>
      ctx.Alike (p.context (o.compiler memo)) ∧ s' = s := by
  have context := Plan.context_alike (c := o.compiler memo) sound alike
  exact Returns.bind_get (Returns.pure ⟨context, rfl⟩)

theorem fetchKeyed_returns {draft : Sql.Draft} {post : List Row → Prop}
    (complete : draft.failure? = none) (written : Written (p.finds (o.compiler memo)) draft)
    (answered : Answers o timeout draft post)
    (alike : Memo.Alike o.registry p.entity s.memo memo) :
    Returns (fetchDraft o timeout draft) s fun rows s' =>
      post rows ∧ Memo.Alike o.registry p.entity s'.memo memo := by
  refine (fetchDraft_returns complete answered s).mono fun rows s' fetched => ?_
  obtain ⟨holds, memo⟩ := fetched
  refine ⟨holds, ?_⟩
  rw [memo]
  exact Plan.alike_follow written alike

section Steps

variable (complete : (p.unsplitDraft (o.compiler memo)).failure? = none) (sound : o.registry.Sound)
  (apart : ∀ key ∈ p.keys, p.isSubqueryLabel key = false)
  (loading : db.Loading p (o.compiler memo) added l s)
include complete apart loading

theorem collectKeys_loading {name : String} (known : name ∈ relationNames p) :
    Rows.collectKeys l.rows (p.keyOf name) = db.keys (p.keyOf name) := by
  have selected := keyOf_selected complete known
  have unattached := keyOf_apart apart loading.labels known
  have same := loading.rows.imp fun _ _ each => (each.get?_key selected unattached).symm
  exact (Rows.collectKeys_congr same).symm

/-- Attaching the values of a label keeps what is known, if the memo still finds the same. -/
theorem loading_attach {name label : String} (known : name ∈ relationNames p)
    (labelled : p.isSubqueryLabel label = true) {groups : List (String × α)} {absent : α}
    {value : α → Json} {held : Row → Json} {statements : Nat} {s' : State ε σ}
    (same : ∀ row ∈ db.rows,
      value (((row.key? (p.keyOf name)).bind fun k => groups.lookup k).getD absent) = held row)
    (alike : Memo.Alike o.registry p.entity s'.memo memo) :
    db.Loading p (o.compiler memo) ((label, held) :: added)
      ⟨attach (p.keyOf name) label groups absent value l.rows, statements⟩ s' where
  rows := attach_carries loading.rows (keyOf_selected complete known)
    (keyOf_apart apart loading.labels known) same
  labels := by
    intro entry found
    obtain rfl | found := List.mem_cons.mp found
    · exact labelled
    · exact loading.labels entry found
  memo := alike

include sound

/-- A relation is loaded as the value that the database holds for it. -/
theorem loadRelation_returns {r : RelationRequest} (known : r ∈ p.relations)
    (declared : r.Declared o.registry p.entity)
    (plain : Keyed.ownerAlias ∉ p.relatedColumns (o.compiler memo) r)
    (compares : db.ComparesText r.label (p.keyOf r.name))
    (answered : Answers o timeout (Keyed.relation (p.context (o.compiler memo)) p.entity r r.columns
      (db.keys (p.keyOf r.name))) fun rows => rows = db.keyedRows p (o.compiler memo) r) :
    Returns (loadRelation o p timeout l r) s
      (db.Loading p (o.compiler memo) (db.relationEntry p (o.compiler memo) r :: added)) := by
  obtain ⟨named, labelled⟩ := Plan.relation_named known
  have subquery := Plan.relation_complete_of_unsplit complete known
  obtain ⟨source, -, shape, resolved, -, shaped, -⟩ := Subquery.relation_parts subquery
  obtain ⟨relation, registered, -⟩ := Source.resolve_eq_ok_iff.mp resolved
  have keys := collectKeys_loading complete apart loading named
  unfold loadRelation
  refine bind_compileStep (Plan.baseKey_of_unsplit complete named).1 ?_
  refine bind_compileStep shaped ?_
  dsimp only
  rw [keys]
  have value : relationEntry db p (o.compiler memo) r = (r.label, fun row =>
      relationValue shape (Subquery.limitOf r.filter) (db.objects p (o.compiler memo) r row)) := by
    rw [relationEntry, shaped]
    rfl
  rw [value]
  split
  · rename_i empty
    refine Returns.pure (loading_attach complete apart loading named labelled ?_ loading.memo)
    intro row found
    rw [objects, key?_of_keys_isEmpty empty found]
    rfl
  · have selection := declaredSelection_eq declared relation registered
    refine bind_compileStep selection ?_
    dsimp only
    rw [if_neg Bool.false_ne_true]
    refine Returns.bind (contextNow_returns sound loading.memo) fun ctx _ now => ?_
    obtain ⟨alike, rfl⟩ := now
    rw [Keyed.relation_congr alike]
    have looked := Plan.context_consults (p := p) (c := o.compiler memo) sound
    have written : Written (p.finds (o.compiler memo)) (Keyed.relation (p.context (o.compiler memo))
        p.entity r r.columns (db.keys (p.keyOf r.name))) :=
      Keyed.relation_written _ looked r r.columns fun _ _ => trivial
    refine Returns.bind (fetchKeyed_returns (Keyed.relation_complete _ subquery) written answered
      loading.memo) fun rows _ fetched => ?_
    obtain ⟨rfl, kept⟩ := fetched
    refine Returns.pure (loading_attach complete apart loading named labelled ?_ kept)
    intro row found
    cases keyed : row.key? (p.keyOf r.name) with
    | none => simp [objects, keyed, owned]
    | some text =>
      have group := lookup_keyedRows compares plain found keyed
      simp only [Option.bind_some, group]

omit sound in
/-- One value for every owner is loaded as the value that the database holds. -/
private theorem loadValues_returns (sound : o.registry.Sound) {name label : String}
    (draft : Context → List DbValue → Sql.Draft) (value : List Row → Json)
    (named : name ∈ relationNames p) (labelled : p.isSubqueryLabel label = true)
    (congr : ∀ ctx, ctx.Alike (p.context (o.compiler memo)) →
      draft ctx (db.keys (p.keyOf name)) =
        draft (p.context (o.compiler memo)) (db.keys (p.keyOf name)))
    (keyed : (draft (p.context (o.compiler memo)) (db.keys (p.keyOf name))).failure? = none)
    (written : Written (p.finds (o.compiler memo))
      (draft (p.context (o.compiler memo)) (db.keys (p.keyOf name))))
    (compares : db.ComparesText label (p.keyOf name))
    (answered : Answers o timeout
      (draft (p.context (o.compiler memo)) (db.keys (p.keyOf name)))
      (db.Groups label (p.keyOf name) value)) :
    Returns (loadValues o p timeout name label (value []) draft l) s
      (db.Loading p (o.compiler memo)
        ((label, fun row => value (db.owned label (row.key? (p.keyOf name)))) :: added)) := by
  have keys := collectKeys_loading complete apart loading named
  unfold loadValues
  refine bind_compileStep (Plan.baseKey_of_unsplit complete named).1 ?_
  dsimp only
  rw [keys]
  split
  · rename_i empty
    refine Returns.pure (loading_attach complete apart loading named labelled ?_ loading.memo)
    intro row found
    rw [key?_of_keys_isEmpty empty found]
    rfl
  · refine Returns.bind (contextNow_returns sound loading.memo) fun ctx _ now => ?_
    obtain ⟨alike, rfl⟩ := now
    rw [congr ctx alike]
    refine Returns.bind (fetchKeyed_returns keyed written answered loading.memo)
      fun rows _ fetched => ?_
    obtain ⟨groups, kept⟩ := fetched
    refine Returns.pure (loading_attach complete apart loading named labelled ?_ kept)
    intro row found
    cases owner : row.key? (p.keyOf name) with
    | none => rfl
    | some text => exact groups.lookup compares found owner

theorem loadCount_returns {count : CountRequest} (known : count ∈ p.counts)
    (compares : db.ComparesText count.label (p.keyOf count.relation))
    (answered : Answers o timeout (Keyed.count (p.context (o.compiler memo)) p.entity count
      (db.keys (p.keyOf count.relation)))
      (db.Groups count.label (p.keyOf count.relation) fun related => .int related.length)) :
    Returns (loadCount o p timeout l count) s
      (db.Loading p (o.compiler memo) (db.countEntry p count :: added)) := by
  obtain ⟨named, labelled⟩ := Plan.count_named known
  have subquery := Plan.count_complete_of_unsplit complete known
  have looked := Plan.context_consults (p := p) (c := o.compiler memo) sound
  exact loadValues_returns complete apart loading sound
    (fun ctx keys => Keyed.count ctx p.entity count keys) (fun related => .int related.length) named
    labelled (fun ctx alike => Keyed.count_congr alike _ _ count) (Keyed.count_complete _ subquery)
    (Keyed.count_written _ looked count fun _ _ => trivial) compares answered

theorem loadAggregate_returns {a : AggregateRequest} (known : a ∈ p.aggregates)
    (compares : db.ComparesText a.label (p.keyOf a.relation))
    (answered : Answers o timeout (Keyed.aggregate (p.context (o.compiler memo)) p.entity a
      (db.keys (p.keyOf a.relation))) (db.Groups a.label (p.keyOf a.relation) (db.total a))) :
    Returns (loadAggregate o p timeout l a) s
      (db.Loading p (o.compiler memo) (db.aggregateEntry p a :: added)) := by
  obtain ⟨named, labelled⟩ := Plan.aggregate_named known
  have subquery := Plan.aggregate_complete_of_unsplit complete known
  have looked := Plan.context_consults (p := p) (c := o.compiler memo) sound
  have loaded := loadValues_returns complete apart loading sound
    (fun ctx keys => Keyed.aggregate ctx p.entity a keys) (db.total a) named labelled
    (fun ctx alike => Keyed.aggregate_congr alike _ _ a) (Keyed.aggregate_complete _ subquery)
    (Keyed.aggregate_written _ looked a fun _ _ => trivial) compares answered
  rwa [db.total_nil] at loaded

end Steps

/-- What the subqueries of a plan are loaded as. -/
def entries (db : Database) (p : Plan) (c : Compiler) : List (String × (Row → Json)) :=
  p.relations.map (db.relationEntry p c) ++ p.counts.map (db.countEntry p) ++
    p.aggregates.map (db.aggregateEntry p)

section Load

variable (complete : (p.unsplitDraft (o.compiler memo)).failure? = none) (sound : o.registry.Sound)
  (answered : db.AnsweredBy o timeout p (o.compiler memo))
include complete sound answered

/-- The base rows are loaded with the keys, and with nothing attached. -/
theorem loadBase_returns (start : s.memo = memo) :
    Returns (loadBase o p timeout p.keys) s fun rows s' =>
      db.Loading p (o.compiler memo) [] ⟨rows, 1⟩ s' := by
  have written : Written (p.finds (o.compiler memo)) (p.baseOnlyDraft (o.compiler memo) p.keys) :=
    Plan.draft_finds sound (List.nil_subset _)
  have alike : Memo.Alike o.registry p.entity s.memo memo := start ▸ Memo.Alike.refl _ _ _
  have fetched := fetchKeyed_returns (Plan.baseOnly_keys_complete complete) written answered.base alike
  unfold loadBase
  refine Returns.bind_get ?_
  rw [start]
  refine fetched.mono fun rows s' both => ?_
  obtain ⟨shows, kept⟩ := both
  exact ⟨shows.imp fun _ _ each x => each x (by simp), by simp, kept⟩

variable (apart : ∀ key ∈ p.keys, p.isSubqueryLabel key = false)
  (declared : ∀ r ∈ p.relations, r.Declared o.registry p.entity)
  (plain : ∀ r ∈ p.relations, Keyed.ownerAlias ∉ p.relatedColumns (o.compiler memo) r)
include apart declared plain

/-- The fallback loads the base rows with all their subqueries, without the keys that are not asked
for. -/
theorem load_returns {own : Columns}
    (resolved : Columns.resolve p.entity p.columns (p.localization? (o.compiler memo)) = .ok own)
    (start : s.memo = memo) :
    Returns (load o p timeout) s fun loaded _ => ∃ shown,
      List.Forall₂ (Row.Carries (p.outputs (o.compiler memo) (Plan.basePart p.keys))
        (entries db p (o.compiler memo)).reverse) db.rows shown ∧
      loaded.rows = shown.map fun row =>
        (p.keys.filter fun key => !own.names.contains key).foldl Row.remove row := by
  have helpers : helperColumns p (o.compiler memo) p.keys =
      .ok (p.keys.filter fun key => !own.names.contains key) :=
    map_eq_ok_iff.mpr ⟨own, resolved, rfl⟩
  have relations : ∀ r ∈ p.relations, ∀ added l (s : State ε σ),
      db.Loading p (o.compiler memo) added l s → Returns (loadRelation o p timeout l r) s
        (db.Loading p (o.compiler memo) (db.relationEntry p (o.compiler memo) r :: added)) :=
    fun r known _ _ _ loading => loadRelation_returns complete sound apart loading known
      (declared r known) (plain r known) (answered.relations r known).1
      (answered.relations r known).2
  have counts : ∀ count ∈ p.counts, ∀ added l (s : State ε σ),
      db.Loading p (o.compiler memo) added l s → Returns (loadCount o p timeout l count) s
        (db.Loading p (o.compiler memo) (db.countEntry p count :: added)) :=
    fun count known _ _ _ loading => loadCount_returns complete sound apart loading known
      (answered.counts count known).1 (answered.counts count known).2
  have aggregates : ∀ a ∈ p.aggregates, ∀ added l (s : State ε σ),
      db.Loading p (o.compiler memo) added l s → Returns (loadAggregate o p timeout l a) s
        (db.Loading p (o.compiler memo) (db.aggregateEntry p a :: added)) :=
    fun a known _ _ _ loading => loadAggregate_returns complete sound apart loading known
      (answered.aggregates a known).1 (answered.aggregates a known).2
  unfold load
  refine bind_compileStep (Plan.writable_of_unsplit complete).baseKeys (Returns.bind_get ?_)
  dsimp only
  rw [start]
  refine Returns.bind (loadBase_returns complete sound answered start) fun base _ loading => ?_
  refine bind_compileStep helpers ?_
  refine Returns.bind (Returns.foldlM relations loading) fun withRelations _ loading => ?_
  refine Returns.bind (Returns.foldlM counts loading) fun withCounts _ loading => ?_
  refine Returns.bind (Returns.foldlM aggregates loading) fun all _ loading => ?_
  refine Returns.bind (Returns.lift (q := fun _ _ => True) trivial) fun _ _ _ => ?_
  refine Returns.pure ⟨all.rows, ?_, rfl⟩
  simpa [entries] using loading.rows

end Load

end Fallback
end EagerLoad
