import EagerLoad.Proofs.Sql.Draft

/-! # What is left without values

A redacted step binds a fixed value in place of each of its own and writes the same text. So drafts that
are the same once they are redacted fail alike, and become statements of the same text. -/
namespace EagerLoad

/-- What stands in place of every value. -/
def DbValue.hidden : DbValue := .text ""

def Fragment.redacted (f : Fragment) : Fragment := ⟨f.sql, f.bindings.map fun _ => .hidden⟩

def Statement.redacted (s : Statement) : Statement := ⟨s.sql, s.bindings.map fun _ => .hidden⟩

theorem except_map_map (x : Except ε α) (f : α → β) (g : β → γ) :
    (x.map f).map g = x.map fun a => g (f a) := by
  cases x <;> rfl

namespace Sql

def Step.redacted : Step → Step
  | bind _ => bind .hidden
  | raw sql bindings => raw sql (bindings.map fun _ => .hidden)
  | fragment f => fragment f.redacted
  | step => step

namespace Step

theorem failure?_redacted (step : Step) : step.redacted.failure? = step.failure? := by
  cases step <;> simp [redacted, failure?]

theorem sql_redacted (d : Dialect) (step : Step) : step.redacted.sql d = step.sql d := by
  cases step <;> rfl

theorem bindings_redacted (step : Step) :
    step.redacted.bindings = step.bindings.map fun _ => .hidden := by
  cases step <;> rfl

end Step

namespace Draft

def redacted (draft : Draft) : Draft := draft.map Step.redacted

@[simp] theorem redacted_nil : redacted [] = [] := rfl

@[simp] theorem redacted_cons (step : Step) (rest : Draft) :
    redacted (step :: rest) = step.redacted :: redacted rest := rfl

@[simp] theorem redacted_append (a b : Draft) : redacted (a ++ b) = redacted a ++ redacted b :=
  List.map_append

@[simp] theorem redacted_qualified (table column : String) :
    redacted (qualified table column) = qualified table column := rfl

@[simp] theorem redacted_column (qualifier : Option String) (name : String) :
    redacted (column qualifier name) = column qualifier name := by
  unfold column
  split <;> rfl

theorem redacted_separated (separator : String) (drafts : List Draft) :
    redacted (separated separator drafts) = separated separator (drafts.map redacted) := by
  induction drafts with
  | nil => rfl
  | cons draft rest ih =>
    cases rest with
    | nil => rfl
    | cons next others =>
      rw [separated, redacted_append, redacted_cons, ih]
      · rfl
      · simp

theorem redacted_bindList (values : List DbValue) :
    redacted (bindList values) = bindList (values.map fun _ => .hidden) := by
  rw [bindList, redacted_separated, bindList, List.map_map, List.map_map]
  rfl

theorem redacted_andThen (x : Except CompileError α) (next : α → Draft) :
    redacted (andThen x next) = andThen x fun a => (next a).redacted := by
  cases x <;> rfl

theorem redacted_ite (p : Prop) [Decidable p] (a b : Draft) :
    redacted (if p then a else b) = if p then redacted a else redacted b :=
  apply_ite redacted p a b

theorem redacted_within (before after : Draft) {a b : Draft} (same : a.redacted = b.redacted) :
    (before ++ a ++ after).redacted = (before ++ b ++ after).redacted := by
  rw [redacted_append, redacted_append, same, ← redacted_append, ← redacted_append]

/-- A result may be redacted before what goes on with it, if that comes to the same. -/
theorem andThen_mapped {x : Except CompileError α} {y : Except CompileError β} {f : α → β}
    {next : α → Draft} {next' : β → Draft} (same : y = x.map f)
    (h : ∀ a, (next' (f a)).redacted = (next a).redacted) :
    redacted (andThen y next') = redacted (andThen x next) := by
  subst same
  cases x with
  | ok a => exact h a
  | error e => rfl

theorem failure?_redacted (draft : Draft) : draft.redacted.failure? = draft.failure? := by
  rw [failure?, failure?, redacted, List.findSome?_map]
  exact congrArg (List.findSome? · draft) (funext Step.failure?_redacted)

theorem fragment_redacted (d : Dialect) (draft : Draft) :
    draft.redacted.fragment d = (draft.fragment d).redacted := by
  have text : (draft.map Step.redacted).map (Step.sql d) = draft.map (Step.sql d) := by
    rw [List.map_map]
    exact List.map_congr_left fun step _ => step.sql_redacted d
  have values : (draft.map Step.redacted).flatMap Step.bindings =
      (draft.flatMap Step.bindings).map fun _ => .hidden := by
    rw [List.flatMap_map, List.map_flatMap]
    exact congrArg (List.flatMap · draft) (funext Step.bindings_redacted)
  rw [fragment, fragment, Fragment.redacted, redacted, text, values]

theorem compile_redacted (d : Dialect) (draft : Draft) :
    draft.redacted.compile d = (draft.compile d).map Fragment.redacted := by
  rw [compile, compile, failure?_redacted, fragment_redacted]
  cases draft.failure? <;> rfl

end Draft

theorem ofDraft_redacted (d : Dialect) (draft : Draft) :
    Statement.ofDraft d draft.redacted = (Statement.ofDraft d draft).map Statement.redacted := by
  rw [Statement.ofDraft, Statement.ofDraft, Draft.compile_redacted, except_map_map, except_map_map]
  rfl

/-- Drafts without their values are compiled alike. -/
theorem ofDraft_congr (d : Dialect) {a b : Draft} (same : a.redacted = b.redacted) :
    (Statement.ofDraft d a).map Statement.redacted =
      (Statement.ofDraft d b).map Statement.redacted := by
  rw [← ofDraft_redacted, same, ofDraft_redacted]

theorem compile_congr (d : Dialect) {a b : Draft} (same : a.redacted = b.redacted) :
    (a.compile d).map Fragment.redacted = (b.compile d).map Fragment.redacted := by
  rw [← Draft.compile_redacted, same, Draft.compile_redacted]

end Sql
end EagerLoad
