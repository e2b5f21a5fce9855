import EagerLoad.Sql.Draft

/-! # Writing drafts

A draft fails exactly if one of its steps does, and what is written of two drafts is written of one
after the other. -/
namespace EagerLoad.Sql.Draft

theorem failure?_eq_none_iff (draft : Draft) :
    draft.failure? = none ↔ ∀ step ∈ draft, step.failure? = none := by
  rw [failure?, List.findSome?_eq_none_iff]

@[simp] theorem failure?_nil : failure? [] = none := rfl

@[simp] theorem failure?_cons (step : Step) (rest : Draft) :
    failure? (step :: rest) = none ↔ step.failure? = none ∧ failure? rest = none := by
  simp [failure?_eq_none_iff]

@[simp] theorem failure?_append (a b : Draft) :
    failure? (a ++ b) = none ↔ failure? a = none ∧ failure? b = none := by
  simp only [failure?_eq_none_iff, List.mem_append, or_imp, forall_and]

theorem failure?_separated (separator : String) (drafts : List Draft) :
    failure? (separated separator drafts) = none ↔ ∀ draft ∈ drafts, failure? draft = none := by
  induction drafts with
  | nil => simp [separated]
  | cons draft rest ih =>
    cases rest with
    | nil => simp [separated]
    | cons next rest =>
      rw [separated, failure?_append, failure?_cons, ih]
      · simp [Step.failure?]
      · simp

def values (draft : Draft) : List DbValue := draft.flatMap Step.bindings

@[simp] theorem values_nil : values [] = [] := rfl

@[simp] theorem values_cons (step : Step) (rest : Draft) :
    values (step :: rest) = step.bindings ++ values rest := rfl

@[simp] theorem values_append (a b : Draft) : values (a ++ b) = values a ++ values b := by
  simp [values]

@[simp] theorem bindings_fragment (d : Dialect) (draft : Draft) :
    (draft.fragment d).bindings = draft.values := rfl

theorem values_flatMap (f : α → Draft) (items : List α) :
    values (items.flatMap f) = items.flatMap fun item => (f item).values := by
  simp [values, List.flatMap_assoc]

theorem values_map (f : α → Draft) (bound : α → List DbValue) (items : List α)
    (h : ∀ item ∈ items, (f item).values = bound item) :
    (items.map f).flatMap values = items.flatMap bound := by
  induction items with
  | nil => rfl
  | cons item rest ih =>
    rw [List.map_cons, List.flatMap_cons, List.flatMap_cons, h item (by simp),
      ih fun other found => h other (by simp [found])]

theorem values_separated (separator : String) (drafts : List Draft) :
    values (separated separator drafts) = drafts.flatMap values := by
  induction drafts with
  | nil => rfl
  | cons draft rest ih =>
    cases rest with
    | nil => simp [separated]
    | cons next rest =>
      rw [separated, values_append, values_cons, ih]
      · rfl
      · simp

@[simp] theorem values_bindList (bound : List DbValue) : values (bindList bound) = bound := by
  rw [bindList, values_separated, List.flatMap_map]
  simp [Step.bindings]

@[simp] theorem values_qualified (table column : String) : values (qualified table column) = [] :=
  rfl

@[simp] theorem values_column (qualifier : Option String) (name : String) :
    values (column qualifier name) = [] := by
  unfold column
  split <;> rfl

section Pieces

variable {motive : Draft → Prop}

/-- What holds of drafts, and then of two with a separator between them, holds of all of them. -/
theorem holds_separated {separator : String} {drafts : List Draft} (nil : motive [])
    (join : ∀ {a b}, motive a → motive b → motive (a ++ .text separator :: b))
    (each : ∀ draft ∈ drafts, motive draft) : motive (separated separator drafts) := by
  induction drafts with
  | nil => exact nil
  | cons draft rest ih =>
    have here := each draft List.mem_cons_self
    have there := ih fun other found => each other (List.mem_cons_of_mem draft found)
    cases rest with
    | nil => exact here
    | cons next others => exact join here there

theorem holds_flatMap {f : α → Draft} {items : List α} (nil : motive [])
    (append : ∀ {a b}, motive a → motive b → motive (a ++ b)) (each : ∀ item ∈ items, motive (f item)) :
    motive (items.flatMap f) := by
  induction items with
  | nil => exact nil
  | cons item rest ih =>
    have there := ih fun other found => each other (List.mem_cons_of_mem item found)
    exact append (each item List.mem_cons_self) there

theorem holds_andThen {x : Except CompileError α} {next : α → Draft} (fails : ∀ e, motive [.fail e])
    (each : ∀ a, x = .ok a → motive (next a)) : motive (andThen x next) := by
  cases x with
  | ok a => exact each a rfl
  | error e => exact fails e

end Pieces

def text (d : Dialect) (draft : Draft) : List Char := (draft.fragment d).sql.toList

@[simp] theorem text_nil (d : Dialect) : text d [] = [] := rfl

@[simp] theorem text_cons (d : Dialect) (step : Step) (rest : Draft) :
    text d (step :: rest) = (step.sql d).toList ++ text d rest := by
  simp [text, fragment]

@[simp] theorem text_append (d : Dialect) (a b : Draft) : text d (a ++ b) = text d a ++ text d b := by
  simp [text, fragment]

theorem text_bindList (d : Dialect) (values : List DbValue) :
    text d (bindList values) = (", ".intercalate (values.map fun _ => "?")).toList := by
  induction values with
  | nil => rfl
  | cons value rest ih =>
    cases rest with
    | nil => simp [bindList, separated, Step.sql]
    | cons next others =>
      have later : text d (bindList (value :: next :: others)) =
          "?".toList ++ ", ".toList ++ text d (bindList (next :: others)) := by
        simp [bindList, separated, Step.sql]
      rw [later, ih]
      simp only [List.map_cons, String.intercalate_cons_cons, String.toList_append]

theorem fragment_append (d : Dialect) (a b : Draft) :
    fragment d (a ++ b) = (a.fragment d).append (b.fragment d) := by
  simp [fragment, Fragment.append]

theorem sql_append (d : Dialect) (a b : Draft) :
    ((a ++ b).fragment d).sql = (a.fragment d).sql ++ (b.fragment d).sql := by
  rw [fragment_append, Fragment.append]

theorem sql_cons (d : Dialect) (step : Step) (rest : Draft) :
    (fragment d (step :: rest)).sql = step.sql d ++ (rest.fragment d).sql := by
  simp [fragment]

theorem fragment_silent {d : Dialect} {silent : Draft}
    (quiet : ∀ step ∈ silent, step.sql d = "" ∧ step.bindings = []) (draft : Draft) :
    fragment d (silent ++ draft) = fragment d draft := by
  induction silent with
  | nil => rfl
  | cons step rest ih =>
    obtain ⟨sql, bindings⟩ := quiet step List.mem_cons_self
    rw [List.cons_append, ← ih fun other later => quiet other (List.mem_cons_of_mem _ later)]
    simp [fragment, sql, bindings]

theorem sql_separated (d : Dialect) (separator : String) (drafts : List Draft) :
    ((separated separator drafts).fragment d).sql =
      separator.intercalate (drafts.map fun draft => (draft.fragment d).sql) := by
  induction drafts with
  | nil => rfl
  | cons draft rest ih =>
    cases rest with
    | nil => simp [separated]
    | cons next rest =>
      rw [List.map_cons] at ih
      rw [List.map_cons, List.map_cons, String.intercalate_cons_cons, ← ih, separated]
      · simp [Draft.fragment, String.append_assoc, Step.sql]
      · simp

theorem sql_qualified (d : Dialect) (table column : String) :
    ((qualified table column).fragment d).sql = d.qualified table column := by
  simp [fragment, qualified, Dialect.qualified, Step.sql, String.append_assoc]

/-- The table and the name that a column is read by. One with a point names its own table. -/
def referred (table column : String) : String × String :=
  match Text.splitFirst? '.' column.toList with
  | some (table, column) => (String.ofList table, String.ofList column)
  | none => (table, column)

theorem column_eq_qualified (table name : String) :
    column (some table) name = qualified (referred table name).1 (referred table name).2 := by
  unfold column referred
  cases Text.splitFirst? '.' name.toList <;> rfl

theorem compile_eq_ok_iff (d : Dialect) (draft : Draft) (f : Fragment) :
    draft.compile d = .ok f ↔ draft.failure? = none ∧ draft.fragment d = f := by
  unfold compile
  cases draft.failure? <;> simp

theorem ofDraft_eq_ok_iff (d : Dialect) (draft : Draft) (s : Statement) :
    Statement.ofDraft d draft = .ok s ↔
      draft.failure? = none ∧ Statement.ofFragment d (draft.fragment d) = s := by
  unfold Statement.ofDraft compile
  cases draft.failure? <;> simp [Except.map]

theorem failure?_andThen {x : Except CompileError α} {next : α → Draft} :
    (andThen x next).failure? = none ↔ ∃ a, x = .ok a ∧ (next a).failure? = none := by
  cases x with
  | ok a => simp [andThen]
  | error e => simp [andThen, Step.failure?]

end EagerLoad.Sql.Draft
