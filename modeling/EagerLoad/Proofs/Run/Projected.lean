import EagerLoad.Proofs.Plan.Projected
import EagerLoad.Proofs.Run.Assembled

/-! # What the fallback asks of related tables

Whether loading succeeds or not, it sends the statement for the base rows and statements that serve what the
plan asks for. The one for a relation selects the owner's key and the columns that the request comes down to,
and what is attached has no other fields. -/
namespace EagerLoad

/-- Whether an attempt sends nothing but exchanges of a kind, also if it fails. -/
def SendsOnly (good : Exchange → Prop) (x : JournaledAttempt ε σ α) : Prop :=
  ∀ s : Journaled ε σ, ∃ sent, Journaled.exchanges (x.run s).2 = s.exchanges ++ sent ∧ ∀ e ∈ sent, good e

namespace SendsOnly

variable {good : Exchange → Prop} {x : JournaledAttempt ε σ β} {next : β → JournaledAttempt ε σ α}

theorem silent {x : JournaledAttempt ε σ α}
    (same : ∀ s : Journaled ε σ, Journaled.exchanges (x.run s).2 = s.exchanges) : SendsOnly good x :=
  fun s => ⟨[], by rw [same, List.append_nil], fun _ none => absurd none List.not_mem_nil⟩

theorem pure (a : α) : SendsOnly good (Pure.pure a : JournaledAttempt ε σ α) := silent fun _ => rfl

theorem bind (first : SendsOnly good x) (rest : ∀ b, SendsOnly good (next b)) :
    SendsOnly good (x >>= next) := by
  intro s
  obtain ⟨sent, exchanges, each⟩ := first s
  rw [attempt_bind, run_bind]
  cases (x.run s).1 with
  | error e => exact ⟨sent, exchanges, each⟩
  | ok b =>
    obtain ⟨later, more, all⟩ := rest b (x.run s).2
    rw [exchanges, List.append_assoc] at more
    exact ⟨sent ++ later, more, List.forall_mem_append.mpr ⟨each, all⟩⟩

theorem mono {weaker : Exchange → Prop} (h : SendsOnly good x) (imp : ∀ e, good e → weaker e) :
    SendsOnly weaker x := by
  intro s
  obtain ⟨sent, exchanges, each⟩ := h s
  exact ⟨sent, exchanges, fun e here => imp e (each e here)⟩

theorem bind_compileStep {step : Except CompileError β} (rest : ∀ b, step = .ok b → SendsOnly good (next b)) :
    SendsOnly good (Fallback.compileStep step >>= next) := by
  cases step with
  | error e => exact silent fun _ => rfl
  | ok b => exact rest b rfl

theorem foldlM {items : List β} {step : α → β → JournaledAttempt ε σ α}
    (each : ∀ item ∈ items, ∀ a, SendsOnly good (step a item)) (a : α) : SendsOnly good (items.foldlM step a) := by
  induction items generalizing a with
  | nil => exact pure a
  | cons item rest ih =>
    rw [List.foldlM_cons]
    exact bind (each item List.mem_cons_self a) fun b =>
      ih (fun other found => each other (List.mem_cons_of_mem item found)) b

end SendsOnly

namespace Fallback

variable (o : Optimizer ε σ) (p : Plan) (timeout : Option Duration) {good : Exchange → Prop}

theorem bind_contextNow_only {next : Context → JournaledAttempt ε σ α}
    (rest : ∀ memo, SendsOnly good (next (p.context (o.compiler memo)))) :
    SendsOnly good (contextNow o.journaled p >>= next) :=
  fun s => rest s.memo s

theorem fetchDraft_only {draft : Sql.Draft}
    (only : ∀ statement answer, Statement.ofDraft o.executor.dialect draft = .ok statement →
      good ⟨statement, answer⟩) :
    SendsOnly good (fetchDraft o.journaled timeout draft) := by
  unfold fetchDraft
  refine .bind (.silent fun _ => rfl) fun _ => .bind_compileStep fun statement written => ?_
  have fetched : SendsOnly good (ExceptT.lift (o.journaled.fetch statement timeout)) := by
    intro s
    refine ⟨_, o.fetch_exchanges statement timeout s, fun e here => ?_⟩
    obtain rfl := List.mem_singleton.mp here
    exact only statement _ written
  refine .bind fetched fun answer => ?_
  cases answer with
  | ok rows => exact .pure rows
  | error e => exact .silent fun _ => rfl

theorem loadRelation_only (r : RelationRequest)
    (only : ∀ keys e, keys ≠ [] → (Request.relation r).Asks o p keys e.statement → good e) (l : Loaded) :
    SendsOnly good (loadRelation o.journaled p timeout l r) := by
  unfold loadRelation
  refine .bind_compileStep fun key _ => .bind_compileStep fun shape _ => ?_
  dsimp only
  split
  case isTrue => exact .pure _
  case isFalse keyed =>
    have some : Rows.collectKeys l.rows key ≠ [] := by simpa using keyed
    refine .bind_compileStep fun selection selected => ?_
    have rest : SendsOnly good (do
        let ctx ← contextNow o.journaled p
        let related ← fetchDraft o.journaled timeout
          (Keyed.relation ctx p.entity r selection.1 (Rows.collectKeys l.rows key))
        return (⟨attach key r.label (groupRows related) [] (relationValue shape (Subquery.limitOf r.filter)) l.rows,
          l.statements + 1⟩ : Loaded)) :=
      bind_contextNow_only o p fun memo => .bind (fetchDraft_only o timeout fun statement answer written =>
        only _ _ some ⟨memo, selection.1, selection.2, selected, written⟩) fun related => .pure _
    split
    · exact .bind (.silent fun _ => rfl) fun _ => rest
    · exact rest

theorem loadValues_only {q : Request} {absent : Json} {draft : Context → List DbValue → Sql.Draft}
    (asks : ∀ memo keys statement, Statement.ofDraft o.executor.dialect
      (draft (p.context (o.compiler memo)) keys) = .ok statement → q.Asks o p keys statement)
    (only : ∀ keys e, keys ≠ [] → q.Asks o p keys e.statement → good e) (l : Loaded) :
    SendsOnly good (loadValues o.journaled p timeout q.name q.label absent draft l) := by
  unfold loadValues
  refine .bind_compileStep fun key _ => ?_
  dsimp only
  split
  case isTrue => exact .pure _
  case isFalse keyed =>
    have some : Rows.collectKeys l.rows key ≠ [] := by simpa using keyed
    exact bind_contextNow_only o p fun memo => .bind (fetchDraft_only o timeout fun statement answer written =>
      only _ _ some (asks memo _ statement written)) fun related => .pure _

/-- Loading sends statements for the base rows and statements that serve requests for some keys, and no others. -/
theorem load_keyed : SendsOnly (fun e => (∃ memo, p.baseOnly (o.compiler memo) p.keys = .ok e.statement) ∨
    ∃ q ∈ requests p, ∃ keys, keys ≠ [] ∧ q.Asks o p keys e.statement) (load o.journaled p timeout) := by
  have served (q) (listed : q ∈ requests p) (keys) (e : Exchange) (some : keys ≠ [])
      (asks : q.Asks o p keys e.statement) :
      (∃ memo, p.baseOnly (o.compiler memo) p.keys = .ok e.statement) ∨
        ∃ q ∈ requests p, ∃ keys, keys ≠ [] ∧ q.Asks o p keys e.statement := .inr ⟨q, listed, keys, some, asks⟩
  have relation (r) (known : r ∈ p.relations) : Request.relation r ∈ requests p :=
    List.mem_append_left _ (List.mem_append_left _ (List.mem_map_of_mem known))
  have count (c) (known : c ∈ p.counts) : Request.count c ∈ requests p :=
    List.mem_append_left _ (List.mem_append_right _ (List.mem_map_of_mem known))
  have aggregate (a) (known : a ∈ p.aggregates) : Request.aggregate a ∈ requests p :=
    List.mem_append_right _ (List.mem_map_of_mem known)
  unfold load
  refine .bind_compileStep fun keys keyed => ?_
  obtain rfl := keys_of_baseKeys keyed
  refine .bind (.silent fun _ => rfl) fun s => ?_
  refine .bind (fun s => fetchDraft_only o timeout (fun _ _ written => .inl ⟨s.memo, written⟩) s) fun base => ?_
  refine .bind_compileStep fun helpers _ => ?_
  refine .bind (.foldlM (fun r known => loadRelation_only o p timeout r (served _ (relation r known))) _) fun l => ?_
  refine .bind (.foldlM (fun c known => loadValues_only (q := .count c) o p timeout
    (fun memo _ _ written => ⟨memo, written⟩) (served _ (count c known))) _) fun l => ?_
  refine .bind (.foldlM (fun a known => loadValues_only (q := .aggregate a) o p timeout
    (fun memo _ _ written => ⟨memo, written⟩) (served _ (aggregate a known))) _) fun l => ?_
  exact .bind (.silent fun _ => rfl) fun _ => .pure _

theorem load_only : SendsOnly (fun e => (∃ memo, p.baseOnly (o.compiler memo) p.keys = .ok e.statement) ∨
    ∃ q ∈ requests p, ∃ keys, q.Asks o p keys e.statement) (load o.journaled p timeout) :=
  (load_keyed o p timeout).mono fun _ sent => sent.imp_right fun ⟨q, listed, keys, _, asks⟩ =>
    ⟨q, listed, keys, asks⟩

end Fallback

theorem Json.mem_insertSorted {name : String} {value : Json} {fields : List (String × Json)}
    {f : String × Json} (found : f ∈ insertSorted name value fields) : f = (name, value) ∨ f ∈ fields := by
  induction fields with
  | nil => exact .inl (List.mem_singleton.mp found)
  | cons first rest ih =>
    obtain ⟨n, v⟩ := first
    rw [insertSorted] at found
    split at found
    · exact (List.mem_cons.mp found).imp_right (List.mem_cons_of_mem _)
    · split at found
      · exact List.mem_cons.mp found
      · rcases List.mem_cons.mp found with rfl | later
        · exact .inr List.mem_cons_self
        · exact (ih later).imp_right (List.mem_cons_of_mem _)

/-- An object that is made of a row has no fields but the columns of the row. -/
theorem Row.toObject_fields (row : Row) : ∃ fields, row.toObject = .obj fields ∧ fields ⊆ row := by
  have all (row : Row) (sorted : List (String × Json)) (f : String × Json)
      (found : f ∈ row.foldl (fun sorted f => Json.insertSorted f.1 f.2 sorted) sorted) :
      f ∈ sorted ∨ f ∈ row := by
    induction row generalizing sorted with
    | nil => exact .inl found
    | cons first rest ih =>
      rcases ih _ found with early | later
      · rcases Json.mem_insertSorted early with rfl | before
        · exact .inr List.mem_cons_self
        · exact .inl before
      · exact .inr (List.mem_cons_of_mem _ later)
  exact ⟨_, rfl, fun f found => (all row [] f found).resolve_left List.not_mem_nil⟩

/-- Whether related objects have no fields but some. -/
def Json.Within (names : List String) : Json → Prop
  | .arr items => ∀ item ∈ items, ∃ fields, item = .obj fields ∧ ∀ f ∈ fields, f.1 ∈ names
  | .obj fields => ∀ f ∈ fields, f.1 ∈ names
  | value => value = .null

namespace Fallback

variable {names : List String} {answer : List Row}

theorem objectsOf_within (only : ∀ row ∈ answer, row.map (·.1) ⊆ Keyed.ownerAlias :: names)
    (key : Option String) {object : Json} (listed : object ∈ objectsOf answer key) :
    ∃ fields, object = .obj fields ∧ ∀ f ∈ fields, f.1 ∈ names := by
  obtain ⟨row, owned, rfl⟩ := List.mem_map.mp listed
  have known : row ∈ answer := by
    cases key with
    | none => exact absurd owned List.not_mem_nil
    | some text => exact List.mem_of_mem_filter owned
  obtain ⟨fields, object, subset⟩ := (row.remove Keyed.ownerAlias).toObject_fields
  refine ⟨fields, object, fun f found => ?_⟩
  obtain ⟨column, other⟩ := List.mem_filter.mp (subset found)
  have named := only row known (List.mem_map_of_mem column)
  exact (List.mem_cons.mp named).resolve_left (by simpa using other)

/-- The value of a relation has no fields but the columns that were answered. -/
theorem relationValue_within (only : ∀ row ∈ answer, row.map (·.1) ⊆ Keyed.ownerAlias :: names)
    (shape : Shape) (limit : Option Nat) (key : Option String) :
    (relationValue shape limit (objectsOf answer key)).Within names := by
  cases shape with
  | many =>
    cases limit with
    | none => exact fun object listed => objectsOf_within only key listed
    | some n => exact fun object listed => objectsOf_within only key (List.mem_of_mem_take listed)
  | one =>
    rw [relationValue]
    cases objects : objectsOf answer key with
    | nil => rfl
    | cons first rest =>
      obtain ⟨fields, rfl, within⟩ := objectsOf_within only key (objects ▸ List.mem_cons_self)
      exact within

/-- What a statement for a relation selects, and what its answers are attached as. -/
structure Projects (o : Optimizer ε σ) (p : Plan) (r : RelationRequest) (names : List String) (s : Source)
    (columns : Columns) (statement : Statement) : Prop where
  source : ∃ memo, Source.resolve (p.context (o.compiler memo)) p.entity r.name true = .ok s
  narrows : r.Narrows names s columns
  /-- The statement selects the owner's key and the columns. -/
  selects : ∃ f, statement = .ofFragment o.executor.dialect f ∧ f.Selects o.executor.dialect s.table
    (Keyed.ownerItem s :: columns.items s.relatedAlias s.satelliteAlias)
  /-- An answer with these columns is attached without any others. -/
  attaches : ∀ answer : List Row, (∀ row ∈ answer, row.map (·.1) ⊆ Keyed.ownerAlias :: columns.names) →
    ∀ key, ((Request.relation r).value p.entity answer key).Within columns.names

theorem projects_of_asks {o : Optimizer ε σ} {p : Plan} {r : RelationRequest} (listed : r.IsListed)
    {keys : List DbValue} {statement : Statement} (asks : (Request.relation r).Asks o p keys statement) :
    ∃ names s columns, r.selection = .ok (.columns names) ∧ Projects o p r names s columns statement := by
  obtain ⟨memo, selection, dropped, kept, written⟩ := asks
  obtain ⟨s, columns, f, resolved, projected, rfl, selects⟩ := Keyed.relation_selects written
  obtain ⟨names, asked, narrows⟩ := RelationRequest.narrows listed kept resolved projected
  exact ⟨names, s, columns, asked, ⟨memo, resolved⟩, narrows, ⟨f, rfl, selects⟩,
    fun answer only key => relationValue_within only _ _ key⟩

/-- Loading sends what its requests ask for, for listed columns no others if one of them is declared, and
attaches what it is answered. -/
theorem load_projects (o : Optimizer ε σ) (p : Plan) (timeout : Option Duration) (s : State ε σ) :
    (∀ e ∈ sent o p timeout s, (∃ memo, p.baseOnly (o.compiler memo) p.keys = .ok e.statement) ∨
      ∃ q ∈ requests p, ∃ keys, q.Asks o p keys e.statement) ∧
    (∀ r keys statement, r.IsListed → (Request.relation r).Asks o p keys statement →
      ∃ names s columns, r.selection = .ok (.columns names) ∧ Projects o p r names s columns statement) ∧
    ∀ loaded, ((load o p timeout).run s).1 = .ok loaded →
      ∃ own base services, Serving o p (sent o p timeout s) own base services ∧
        loaded.rows = base.map fun row => (helpers p own).foldl Row.remove (putAll p services row) := by
  refine ⟨?_, fun r keys statement listed asks => projects_of_asks listed asks,
    fun loaded loads => load_serving o p timeout s loads⟩
  obtain ⟨all, exchanges, each⟩ := load_only o p timeout s.opened
  rw [sent, exchanges]
  exact each

end Fallback

namespace Wall

/-- A column that users do not have. -/
def author : RelationRequest := { name := "author", kind := .single, columns := .columns ["nickname"] }

def posts : Plan :=
  { entity :=
      { type := "Post", table := "posts", relations := [("author", .belongsTo "User" "author_id" "id")] }
    columns := .columns ["title"]
    relations := [author] }

def baseRows : List Row := [[("title", .str "On rows"), ("author_id", .int 7)]]

def authorRows : List Row :=
  [[("__owner_key", .int 7), ("id", .int 7), ("name", .str "Ann"), ("password", .str "s3cret")]]

def optimizer : Optimizer Unit Unit :=
  { config := {}
    registry := Registry.register [] { type := "User", table := "users", columns := ["name", "password"] }
    executor := ⟨.sqlite, fun statement _ _ =>
      { answer := .ok (if statement.bindings.isEmpty then baseRows else authorRows), next := () }⟩
    store := none }

def start : State Unit Unit := { executor := (), store := () }

def users : Statement :=
  ⟨"SELECT \"author_rel\".\"id\" AS \"__owner_key\", \"author_rel\".\"id\", \"author_rel\".\"name\", " ++
      "\"author_rel\".\"password\" FROM \"users\" AS \"author_rel\" WHERE \"author_rel\".\"id\" IN (?)",
    [.int64 7]⟩

def loaded : Loaded :=
  ⟨[[("title", .str "On rows"),
    ("author", .obj [("id", .int 7), ("name", .str "Ann"), ("password", .str "s3cret")])]], 2⟩

theorem loads : ((Fallback.load optimizer posts none).run start).1 = .ok loaded := by
  rfl

theorem asks : (Fallback.Request.relation author).Asks optimizer posts [.int64 7] users :=
  ⟨[], .all, true, by decide, by decide +kernel⟩

theorem sends_users : users ∈ (Fallback.sent optimizer posts none start).map Exchange.statement := by
  decide +kernel

end Wall

open Wall in
theorem Fallback.load_projects_wall :
    author.IsListed ∧ (Request.relation author).Asks optimizer posts [.int64 7] users ∧
      ((load optimizer posts none).run start).1 = .ok loaded ∧
      (∃ e ∈ sent optimizer posts none start, e.statement = users ∧
        ((∃ memo, posts.baseOnly (optimizer.compiler memo) posts.keys = .ok e.statement) ∨
          ∃ q ∈ requests posts, ∃ keys, q.Asks optimizer posts keys e.statement)) ∧
      (∃ names s columns, author.selection = .ok (.columns names) ∧
        Projects optimizer posts author names s columns users) ∧
      ∃ own base services, Serving optimizer posts (sent optimizer posts none start) own base services ∧
        loaded.rows = base.map fun row => (helpers posts own).foldl Row.remove (putAll posts services row) := by
  obtain ⟨only, projects, attached⟩ := load_projects optimizer posts none start
  have listed : author.IsListed := .inr ⟨_, rfl⟩
  obtain ⟨e, known, same⟩ := List.mem_map.mp sends_users
  exact ⟨listed, asks, loads, ⟨e, known, same, only e known⟩, projects author _ _ listed asks,
    attached loaded loads⟩

/-- Whether relations with listed columns are loaded with no others. -/
def Fallback.Discreet (o : Optimizer ε σ) (p : Plan) : Prop :=
  ∀ r ∈ p.relations, ∀ names, r.selection = .ok (.columns names) →
    ∀ memo selection dropped s columns, Fallback.declaredSelection o.registry p.entity r = .ok (selection, dropped) →
      Source.resolve (p.context (o.compiler memo)) p.entity r.name true = .ok s →
      RelationRequest.projection { r with columns := selection } s = .ok columns → columns.names ⊆ names

open Wall in
/-- No column is asked for that users have, and all of them are loaded. -/
theorem Fallback.not_discreet_wall : ¬Discreet optimizer posts := by
  intro discreet
  have subset := discreet author List.mem_cons_self ["nickname"] (by decide) [] .all true
    ⟨"author", .belongsTo "User" "author_id" "id",
      { type := "User", table := "users", columns := ["name", "password"] }, none⟩
    ⟨["id", "name", "password"], []⟩ (by decide) (by rfl) (by decide)
  exact absurd (subset (List.mem_cons_of_mem _ (List.mem_cons_of_mem _ List.mem_cons_self))) (by decide)

end EagerLoad
