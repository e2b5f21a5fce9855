import EagerLoad.Proofs.Plan.Keys
import EagerLoad.Proofs.Row.Groups
import EagerLoad.Proofs.Run.Complete

/-! # What the fallback is answered

The fallback sends a statement for the base rows, and then one for each relation, count and aggregate, in
this order, for the keys that the rows have by then. What it is answered is attached to every row under the
label of the request, by the key that the row has by then. -/
namespace EagerLoad

namespace Rows

/-- Whether some row has a value in a column that is not null. -/
def hasValue (rows : List Row) (column : String) : Bool :=
  rows.any fun row => (row.get? column).any fun value => !value.isNull

variable {column : String}

theorem isSome_key? (row : Row) :
    (row.key? column).isSome = (row.get? column).any fun value => !value.isNull := by
  unfold Row.key?
  cases row.get? column with
  | none => rfl
  | some value => cases value <;> rfl

theorem collectFrom_eq_nil {rows : List Row} (unkeyed : ∀ row ∈ rows, row.key? column = none)
    (seen : List String) : collectFrom column seen rows = [] := by
  induction rows with
  | nil => rfl
  | cons row rest ih =>
    rw [collectFrom, unkeyed row List.mem_cons_self]
    exact ih fun other later => unkeyed other (List.mem_cons_of_mem row later)

/-- There are keys to bind exactly if the column has a value. -/
theorem isEmpty_collectKeys (rows : List Row) (column : String) :
    (collectKeys rows column).isEmpty = !hasValue rows column := by
  cases some : hasValue rows column with
  | true =>
    obtain ⟨row, known, value⟩ := List.any_eq_true.mp some
    rw [← isSome_key?] at value
    obtain ⟨text, keyed⟩ := Option.isSome_iff_exists.mp value
    obtain ⟨-, -, _, -, -, bound⟩ := exists_mem_collectKeys known keyed
    exact List.isEmpty_eq_false_iff.mpr (List.ne_nil_of_mem bound)
  | false =>
    have unkeyed : ∀ row ∈ rows, row.key? column = none := by
      intro row known
      have value := List.any_eq_false.mp some row known
      rw [← isSome_key?] at value
      simpa using value
    rw [collectKeys, collectFrom_eq_nil unkeyed]
    rfl

end Rows

/-- An attempt with a journal. -/
abbrev JournaledAttempt (ε σ α : Type) :=
  Attempt (ε × List Exchange) (σ × List (String × String)) α

/-- What an attempt that succeeds sends. -/
def Sends (x : JournaledAttempt ε σ α) (post : α → List Exchange → Prop) : Prop :=
  ∀ (s : Journaled ε σ) a, (x.run s).1 = .ok a →
    ∃ sent, Journaled.exchanges (x.run s).2 = s.exchanges ++ sent ∧ post a sent

namespace Sends

variable {x : JournaledAttempt ε σ β} {next : β → JournaledAttempt ε σ α}
  {post : α → List Exchange → Prop}

theorem pure {a : α} (h : post a []) : Sends (Pure.pure a : JournaledAttempt ε σ α) post := by
  intro s b same
  obtain rfl : a = b := Except.ok.inj same
  exact ⟨[], (List.append_nil _).symm, h⟩

theorem bind {mid : β → List Exchange → Prop} (first : Sends x mid)
    (rest : ∀ b sent, mid b sent → Sends (next b) fun a later => post a (sent ++ later)) :
    Sends (x >>= next) post := by
  intro s a same
  rw [attempt_bind, run_bind] at same ⊢
  cases found : (x.run s).1 with
  | error e =>
    rw [found] at same
    exact nomatch same
  | ok b =>
    rw [found] at same
    obtain ⟨sent, exchanges, holds⟩ := first s b found
    obtain ⟨later, more, all⟩ := rest b sent holds (x.run s).2 a same
    rw [exchanges, List.append_assoc] at more
    exact ⟨sent ++ later, more, all⟩

theorem bind_silent (first : Sends x fun _ sent => sent = []) (rest : ∀ b, Sends (next b) post) :
    Sends (x >>= next) post := by
  refine bind first fun b sent none => ?_
  subst none
  exact rest b

theorem bind_compileStep {step : Except CompileError β} (rest : ∀ b, step = .ok b → Sends (next b) post) :
    Sends (Fallback.compileStep step >>= next) post := by
  cases step with
  | error e => exact fun _ _ same => nomatch same
  | ok b => exact rest b rfl

theorem lift {x : Run (ε × List Exchange) (σ × List (String × String)) α}
    (h : ∀ s : Journaled ε σ,
      ∃ sent, Journaled.exchanges (x s).2 = s.exchanges ++ sent ∧ post (x s).1 sent) :
    Sends (ExceptT.lift x) post := by
  intro s a same
  obtain rfl : (x s).1 = a := Except.ok.inj same
  exact h s

theorem lift_silent {x : Run (ε × List Exchange) (σ × List (String × String)) α}
    (silent : ∀ s : Journaled ε σ, Journaled.exchanges (x s).2 = s.exchanges) :
    Sends (ExceptT.lift x) fun _ sent => sent = [] :=
  lift fun s => ⟨[], by rw [silent, List.append_nil], rfl⟩

theorem mono {x : JournaledAttempt ε σ α} {weaker : α → List Exchange → Prop} (h : Sends x post)
    (imp : ∀ a sent, post a sent → weaker a sent) : Sends x weaker := by
  intro s a same
  obtain ⟨sent, exchanges, holds⟩ := h s a same
  exact ⟨sent, exchanges, imp a sent holds⟩

/-- What every step of a loop adds to, the whole loop adds all of its items to. -/
theorem foldlM (invariant : List γ → α → List Exchange → Prop) (entry : β → γ) {items : List β}
    {step : α → β → JournaledAttempt ε σ α}
    (each : ∀ item ∈ items, ∀ added a sent, invariant added a sent →
      Sends (step a item) fun b later => invariant (added ++ [entry item]) b (sent ++ later))
    {added : List γ} {a : α} {sent : List Exchange} (h : invariant added a sent) :
    Sends (items.foldlM step a) fun b later =>
      invariant (added ++ items.map entry) b (sent ++ later) := by
  induction items generalizing added a sent with
  | nil =>
    refine pure ?_
    rw [List.map_nil, List.append_nil, List.append_nil]
    exact h
  | cons item rest ih =>
    rw [List.foldlM_cons]
    refine bind (each item List.mem_cons_self added a sent h) fun b here holds => ?_
    have later := ih (fun other found => each other (List.mem_cons_of_mem item found)) holds
    refine later.mono fun c more all => ?_
    rw [List.map_cons, List.append_cons, ← List.append_assoc]
    exact all

end Sends

namespace Fallback

/-- The rows of an answer that are for a key. -/
def rowsOf (answer : List Row) : Option String → List Row
  | none => []
  | some text => answer.filter fun row => row.key? Keyed.ownerAlias = some text

/-- The related objects for a key. -/
def objectsOf (answer : List Row) (key : Option String) : List Json :=
  (rowsOf answer key).map fun row => (row.remove Keyed.ownerAlias).toObject

/-- The value for a key, of the last row if there are several. -/
def valueOf? (answer : List Row) (key : Option String) : Option Json :=
  (rowsOf answer key).getLast?.map fun row => (row.get? Keyed.valueAlias).getD .null

theorem bind_lookup_groupRows (answer : List Row) (key : Option String) :
    (key.bind fun text => (groupRows answer).lookup text).getD [] = objectsOf answer key := by
  cases key with
  | none => rfl
  | some text => exact lookup_groupRows answer text

theorem bind_lookup_groupValues (answer : List Row) (key : Option String) :
    (key.bind fun text => (groupValues answer).lookup text) = valueOf? answer key := by
  cases key with
  | none => rfl
  | some text => exact lookup_groupValues answer text

/-- What is loaded by a statement of its own. -/
inductive Request where
  | relation (r : RelationRequest)
  | count (c : CountRequest)
  | aggregate (a : AggregateRequest)

namespace Request

/-- The relation that is followed. -/
def name : Request → String
  | relation r => r.name
  | count c => c.relation
  | aggregate a => a.relation

def label : Request → String
  | relation r => r.label
  | count c => c.label
  | aggregate a => a.label

/-- Whether a statement is the one that is sent for some keys. -/
def Asks (o : Optimizer ε σ) (p : Plan) (keys : List DbValue) (statement : Statement) : Request → Prop
  | relation r => ∃ memo columns dropped,
    declaredSelection o.registry p.entity r = .ok (columns, dropped) ∧
    Statement.ofDraft o.executor.dialect
      (Keyed.relation (p.context (o.compiler memo)) p.entity r columns keys) = .ok statement
  | count c => ∃ memo, Statement.ofDraft o.executor.dialect
      (Keyed.count (p.context (o.compiler memo)) p.entity c keys) = .ok statement
  | aggregate a => ∃ memo, Statement.ofDraft o.executor.dialect
      (Keyed.aggregate (p.context (o.compiler memo)) p.entity a keys) = .ok statement

/-- The value for a key: what an answer has for it, or the value of nothing. -/
def value (base : Entity) (answer : List Row) (key : Option String) : Request → Json
  | relation r => relationValue ((r.shape base).toOption.getD .many) (Subquery.limitOf r.filter)
      (objectsOf answer key)
  | count _ => (valueOf? answer key).getD (.int 0)
  | aggregate _ => (valueOf? answer key).getD .null

/-- Attaches the value for the key that a row has. -/
def put (p : Plan) (answer : List Row) (q : Request) (row : Row) : Row :=
  row.set q.label (q.value p.entity answer (row.key? (p.keyOf q.name)))

end Request

/-- All that a plan has loaded, in order. -/
def requests (p : Plan) : List Request :=
  p.relations.map .relation ++ p.counts.map .count ++ p.aggregates.map .aggregate

theorem names_requests (p : Plan) : (requests p).map Request.name = relationNames p := by
  simp only [requests, relationNames, List.map_append, List.map_map]
  rfl

theorem labels_requests (p : Plan) : (requests p).map Request.label = p.labels := by
  simp only [requests, Plan.labels, List.map_append, List.map_map]
  rfl

theorem isSubqueryLabel_label {p : Plan} {q : Request} (asked : q ∈ requests p) :
    p.isSubqueryLabel q.label = true := by
  rw [← Plan.mem_labels, ← labels_requests]
  exact List.mem_map_of_mem asked

/-- A request with the statement that served it and the answer, or without if there were no keys. -/
structure Service where
  request : Request
  reply : Option (Statement × List Row)

namespace Service

def answer (s : Service) : List Row := s.reply.elim [] Prod.snd

def exchange? (s : Service) : Option Exchange :=
  s.reply.map fun sent => ⟨sent.1, .ok sent.2⟩

def put (p : Plan) (s : Service) (row : Row) : Row := s.request.put p s.answer row

/-- Whether a request is served as it is due for some rows: by a statement for their keys, if they have any. -/
def Due (o : Optimizer ε σ) (p : Plan) (rows : List Row) (s : Service) : Prop :=
  match s.reply with
  | none => Rows.hasValue rows (p.keyOf s.request.name) = false
  | some (statement, _) =>
    Rows.hasValue rows (p.keyOf s.request.name) = true ∧
      s.request.Asks o p (Rows.collectKeys rows (p.keyOf s.request.name)) statement

end Service

/-- What a row has become after some services. -/
def putAll (p : Plan) (services : List Service) (row : Row) : Row :=
  services.foldl (fun row s => s.put p row) row

/-- Whether requests are served in order, each as it is due for what the rows have become by then. -/
inductive Serves (o : Optimizer ε σ) (p : Plan) : List Row → List Service → Prop where
  | done {rows : List Row} : Serves o p rows []
  | next {rows : List Row} {s : Service} {rest : List Service} (due : s.Due o p rows)
      (others : Serves o p (rows.map (s.put p)) rest) : Serves o p rows (s :: rest)

section Serves

variable {o : Optimizer ε σ} {p : Plan} {rows : List Row} {services : List Service}

theorem map_putAll_cons (rows : List Row) (s : Service) (rest : List Service) :
    rows.map (putAll p (s :: rest)) = (rows.map (s.put p)).map (putAll p rest) := by
  rw [List.map_map]
  rfl

theorem putAll_append (before after : List Service) (row : Row) :
    putAll p (before ++ after) row = putAll p after (putAll p before row) :=
  List.foldl_append

theorem Serves.append_singleton {s : Service} (serves : Serves o p rows services)
    (due : s.Due o p (rows.map (putAll p services))) : Serves o p rows (services ++ [s]) := by
  induction serves with
  | done =>
    have same : ∀ rows : List Row, rows.map (putAll p []) = rows := List.map_id
    rw [same] at due
    exact .next due .done
  | next first _ ih =>
    rw [map_putAll_cons] at due
    exact .next first (ih due)

theorem Serves.due {before after : List Service} {s : Service}
    (serves : Serves o p rows (before ++ s :: after)) : s.Due o p (rows.map (putAll p before)) := by
  induction before generalizing rows with
  | nil =>
    cases serves with
    | next due _ =>
      have same : rows.map (putAll p []) = rows := List.map_id rows
      rw [same]
      exact due
  | cons first rest ih =>
    cases serves with
    | next _ others =>
      rw [map_putAll_cons]
      exact ih others

end Serves

theorem keyOf_of_baseKey {p : Plan} {name key : String} (known : baseKey p.entity name = .ok key) :
    key = p.keyOf name := by
  rw [baseKey] at known
  rw [Plan.keyOf]
  cases declared : p.entity.relation? name with
  | none =>
    rw [declared] at known
    cases known
  | some r =>
    rw [declared] at known
    exact (Except.ok.inj known).symm

theorem keys_of_baseKeys {p : Plan} {keys : List String} (known : baseKeys p = .ok keys) :
    keys = p.keys := by
  obtain ⟨each, found, rfl⟩ := map_eq_ok_iff.mp known
  have same : each = (relationNames p).map p.keyOf := by
    rw [mapM_eq_ok_iff] at found
    clear known
    generalize relationNames p = names at found ⊢
    induction found with
    | nil => rfl
    | cons here _ ih => rw [List.map_cons, keyOf_of_baseKey here, ← ih]
  rw [Plan.keys, same]

variable (o : Optimizer ε σ) (p : Plan) (timeout : Option Duration)

theorem fetchDraft_sends (draft : Sql.Draft) :
    Sends (fetchDraft o.journaled timeout draft) fun rows sent => ∃ statement,
      Statement.ofDraft o.executor.dialect draft = .ok statement ∧ sent = [⟨statement, .ok rows⟩] := by
  unfold fetchDraft
  refine .bind_silent (.lift_silent fun _ => rfl) fun _ => ?_
  refine .bind_compileStep fun statement written => ?_
  have fetched : Sends (ExceptT.lift (o.journaled.fetch statement timeout)) fun answer sent =>
      sent = [⟨statement, answer⟩] :=
    .lift fun s => ⟨_, o.fetch_exchanges statement timeout s, rfl⟩
  refine .bind fetched fun answer sent same => ?_
  subst same
  cases answer with
  | ok rows => exact .pure ⟨statement, written, rfl⟩
  | error e => exact fun _ _ same => nomatch same

theorem contextNow_sends : Sends (contextNow o.journaled p) fun ctx sent =>
    sent = [] ∧ ∃ memo, ctx = p.context (o.compiler memo) := by
  refine .bind_silent (.lift_silent fun _ => rfl) fun s => ?_
  exact .pure ⟨rfl, s.memo, rfl⟩

/-- What loading has come to: the requests are served, and their statements are counted with the first. -/
def Progress (base : List Row) (served : List Request) (l : Loaded) (sent : List Exchange) : Prop :=
  ∃ services, services.map Service.request = served ∧ services.filterMap Service.exchange? = sent ∧
    Serves o p base services ∧ l.rows = base.map (putAll p services) ∧ l.statements = sent.length + 1

section Steps

variable {o p timeout} {base : List Row} {served : List Request} {l : Loaded} {sent : List Exchange}
  (progress : Progress o p base served l sent)
include progress

theorem Progress.next {s : Service} (due : s.Due o p l.rows) :
    Progress o p base (served ++ [s.request])
      ⟨l.rows.map (s.put p), l.statements + s.exchange?.toList.length⟩ (sent ++ s.exchange?.toList) := by
  obtain ⟨services, rfl, rfl, serves, rows, statements⟩ := progress
  refine ⟨services ++ [s], List.map_append, ?_, serves.append_singleton (rows ▸ due), ?_, ?_⟩
  · rw [List.filterMap_append]
    cases found : s.exchange? <;> simp [found]
  · rw [rows, List.map_map]
    refine List.map_congr_left fun row _ => ?_
    rw [putAll_append]
    rfl
  · rw [statements, List.length_append]
    exact Nat.add_right_comm _ _ _

variable {q : Request}

theorem Progress.unkeyed (keyless : Rows.hasValue l.rows (p.keyOf q.name) = false) :
    Progress o p base (served ++ [q]) ⟨l.rows.map (q.put p []), l.statements⟩ (sent ++ []) :=
  progress.next (s := ⟨q, none⟩) keyless

theorem Progress.keyed {answer : List Row} {statement : Statement}
    (known : Rows.hasValue l.rows (p.keyOf q.name) = true)
    (asks : q.Asks o p (Rows.collectKeys l.rows (p.keyOf q.name)) statement) :
    Progress o p base (served ++ [q]) ⟨l.rows.map (q.put p answer), l.statements + 1⟩
      (sent ++ [⟨statement, .ok answer⟩]) :=
  progress.next (s := ⟨q, some (statement, answer)⟩) ⟨known, asks⟩

theorem loadRelation_serves (r : RelationRequest) :
    Sends (loadRelation o.journaled p timeout l r) fun loaded later =>
      Progress o p base (served ++ [.relation r]) loaded (sent ++ later) := by
  unfold loadRelation
  refine .bind_compileStep fun key keyed => ?_
  obtain rfl := keyOf_of_baseKey keyed
  refine .bind_compileStep fun shape shaped => ?_
  have attached (answer : List Row) : attach (p.keyOf r.name) r.label (groupRows answer) []
      (relationValue shape (Subquery.limitOf r.filter)) l.rows =
        l.rows.map ((Request.relation r).put p answer) := by
    have value (key : Option String) : (Request.relation r).value p.entity answer key =
        relationValue shape (Subquery.limitOf r.filter)
          ((key.bind fun text => (groupRows answer).lookup text).getD []) := by
      rw [Request.value, shaped, bind_lookup_groupRows]
      rfl
    unfold attach Request.put
    simp only [value]
    rfl
  dsimp only
  rw [Rows.isEmpty_collectKeys]
  cases some : Rows.hasValue l.rows (p.keyOf r.name) with
  | false =>
    have nothing := attached []
    rw [show groupRows [] = [] from rfl] at nothing
    rw [nothing]
    exact .pure (progress.unkeyed (q := .relation r) some)
  | true =>
    refine .bind_compileStep fun selection selected => ?_
    have rest : Sends (do
        let ctx ← contextNow o.journaled p
        let related ← fetchDraft o.journaled timeout
          (Keyed.relation ctx p.entity r selection.1 (Rows.collectKeys l.rows (p.keyOf r.name)))
        return (⟨attach (p.keyOf r.name) r.label (groupRows related) []
          (relationValue shape (Subquery.limitOf r.filter)) l.rows, l.statements + 1⟩ : Loaded))
        fun loaded later => Progress o p base (served ++ [.relation r]) loaded (sent ++ later) := by
      refine .bind (contextNow_sends o p) fun ctx none context => ?_
      obtain ⟨rfl, memo, rfl⟩ := context
      refine .bind (fetchDraft_sends o timeout _) fun related later one => ?_
      obtain ⟨statement, written, rfl⟩ := one
      rw [attached]
      exact .pure (progress.keyed (q := .relation r) some ⟨memo, selection.1, selection.2, selected, written⟩)
    split
    · exact .bind_silent (.lift_silent fun _ => rfl) fun _ => rest
    · exact rest

theorem loadValues_serves {absent : Json} {draft : Context → List DbValue → Sql.Draft}
    (value : ∀ answer key, q.value p.entity answer key = (valueOf? answer key).getD absent)
    (asks : ∀ memo keys statement, Statement.ofDraft o.executor.dialect
      (draft (p.context (o.compiler memo)) keys) = .ok statement → q.Asks o p keys statement) :
    Sends (loadValues o.journaled p timeout q.name q.label absent draft l) fun loaded later =>
      Progress o p base (served ++ [q]) loaded (sent ++ later) := by
  unfold loadValues
  refine .bind_compileStep fun key keyed => ?_
  obtain rfl := keyOf_of_baseKey keyed
  have attached (answer : List Row) : attach (p.keyOf q.name) q.label (groupValues answer) absent id l.rows =
      l.rows.map (q.put p answer) := by
    unfold attach Request.put
    simp only [value, bind_lookup_groupValues]
    rfl
  dsimp only
  rw [Rows.isEmpty_collectKeys]
  cases some : Rows.hasValue l.rows (p.keyOf q.name) with
  | false =>
    have nothing := attached []
    rw [show groupValues [] = [] from rfl] at nothing
    rw [nothing]
    exact .pure (progress.unkeyed some)
  | true =>
    refine .bind (contextNow_sends o p) fun ctx none context => ?_
    obtain ⟨rfl, memo, rfl⟩ := context
    refine .bind (fetchDraft_sends o timeout _) fun rows later one => ?_
    obtain ⟨statement, written, rfl⟩ := one
    rw [attached]
    exact .pure (progress.keyed some (asks memo _ statement written))

end Steps

/-- The columns that are selected only as keys. -/
def helpers (p : Plan) (own : Columns) : List String :=
  p.keys.filter fun key => !own.names.contains key

/-- What loading gives: the base rows with what was put into them, without the columns that were selected
only as keys. -/
def Gathers (loaded : Loaded) (sent : List Exchange) : Prop :=
  ∃ memo own statement base services,
    p.baseOnly (o.compiler memo) p.keys = .ok statement ∧
    Columns.resolve p.entity p.columns (p.localization? (o.compiler memo)) = .ok own ∧
    services.map Service.request = requests p ∧
    sent = ⟨statement, .ok base⟩ :: services.filterMap Service.exchange? ∧
    Serves o p base services ∧
    loaded.rows = base.map (fun row => (helpers p own).foldl Row.remove (putAll p services row)) ∧
    loaded.statements = sent.length

theorem load_gathers : Sends (load o.journaled p timeout) (Gathers o p) := by
  unfold load
  refine .bind_compileStep fun keys keyed => ?_
  obtain rfl := keys_of_baseKeys keyed
  -- The base statement and the columns to remove are compiled with what is known at the start.
  have rest (memo : Memo) : Sends (do
      let base ← fetchDraft o.journaled timeout (p.baseOnlyDraft (o.compiler memo) p.keys)
      let helpers ← compileStep (helperColumns p (o.compiler memo) p.keys)
      let loaded ← p.relations.foldlM (loadRelation o.journaled p timeout) ⟨base, 1⟩
      let loaded ← p.counts.foldlM (loadCount o.journaled p timeout) loaded
      let loaded ← p.aggregates.foldlM (loadAggregate o.journaled p timeout) loaded
      ExceptT.lift (Run.note .fallbackLoaded)
      return { loaded with rows := loaded.rows.map fun row => helpers.foldl Row.remove row })
      (Gathers o p) := by
    refine .bind (fetchDraft_sends o timeout _) fun base first one => ?_
    obtain ⟨statement, written, rfl⟩ := one
    refine .bind_compileStep fun helpers removed => ?_
    obtain ⟨own, resolved, rfl⟩ := map_eq_ok_iff.mp removed
    have start : Progress o p base [] ⟨base, 1⟩ [] :=
      ⟨[], rfl, rfl, .done, (List.map_id base).symm, rfl⟩
    refine .bind (.foldlM (Progress o p base) Request.relation
      (fun r _ _ _ _ progress => loadRelation_serves progress r) start) fun l related progress => ?_
    refine .bind (.foldlM (Progress o p base) Request.count
      (fun c _ _ _ _ progress => loadValues_serves (q := .count c) progress (fun _ _ => rfl)
        fun memo _ _ written => ⟨memo, written⟩) progress) fun l counted progress => ?_
    refine .bind (.foldlM (Progress o p base) Request.aggregate
      (fun a _ _ _ _ progress => loadValues_serves (q := .aggregate a) progress (fun _ _ => rfl)
        fun memo _ _ written => ⟨memo, written⟩) progress) fun l total progress => ?_
    refine .bind_silent (.lift_silent fun _ => rfl) fun _ => .pure ?_
    obtain ⟨services, asked, exchanges, serves, rows, statements⟩ := progress
    refine ⟨memo, own, statement, base, services, written, resolved, asked, ?_, serves, ?_, ?_⟩
    · rw [exchanges]
      simp
    · rw [rows, List.map_map]
      rfl
    · rw [statements]
      simp
  exact fun s => rest s.memo s

end Fallback
end EagerLoad
