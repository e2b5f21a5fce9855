import EagerLoad.Proofs.Sql.Draft

/-! # What is left without text

A wordless draft keeps the names, the values and the failures of a draft, not its text. Drafts that are
the same once they are wordless fail alike and become statements with the same values, on any dialect. -/
namespace EagerLoad

def Fragment.textless (f : Fragment) : Fragment := { f with sql := "" }

def Statement.textless (s : Statement) : Statement := { s with sql := "" }

namespace Sql

def Step.isText : Step → Bool
  | text _ => true
  | _ => false

namespace Draft

def wordless (draft : Draft) : Draft := draft.filter fun step => !step.isText

@[simp] theorem wordless_nil : wordless [] = [] := rfl

@[simp] theorem wordless_text (sql : String) (rest : Draft) :
    wordless (.text sql :: rest) = wordless rest := rfl

@[simp] theorem wordless_append (a b : Draft) : wordless (a ++ b) = wordless a ++ wordless b :=
  List.filter_append ..

theorem wordless_cons {step : Step} (rest : Draft) (h : step.isText = false) :
    wordless (step :: rest) = step :: wordless rest := by
  simp [wordless, h]

theorem wordless_separated (separator : String) (drafts : List Draft) :
    wordless (separated separator drafts) = (drafts.map wordless).flatten := by
  induction drafts with
  | nil => rfl
  | cons draft rest ih =>
    cases rest with
    | nil => simp [separated]
    | cons next others =>
      rw [separated, wordless_append, wordless_text, ih]
      · rfl
      · simp

theorem wordless_andThen_congr (x : Except CompileError α) {next other : α → Draft}
    (same : ∀ a, (next a).wordless = (other a).wordless) :
    wordless (andThen x next) = wordless (andThen x other) := by
  cases x with
  | ok a => exact same a
  | error e => rfl

theorem eq_text_of_isText {step : Step} (h : step.isText = true) : ∃ sql, step = .text sql := by
  cases step with
  | text sql => exact ⟨sql, rfl⟩
  | _ => cases h

theorem failure?_wordless (draft : Draft) : draft.wordless.failure? = draft.failure? := by
  induction draft with
  | nil => rfl
  | cons step rest ih =>
    cases worded : step.isText with
    | true =>
      obtain ⟨sql, rfl⟩ := eq_text_of_isText worded
      exact ih
    | false =>
      rw [wordless_cons _ worded, failure?, failure?, List.findSome?_cons, List.findSome?_cons,
        ← failure?, ← failure?, ih]

theorem values_wordless (draft : Draft) : draft.wordless.values = draft.values := by
  induction draft with
  | nil => rfl
  | cons step rest ih =>
    cases worded : step.isText with
    | true =>
      obtain ⟨sql, rfl⟩ := eq_text_of_isText worded
      exact ih
    | false => rw [wordless_cons _ worded, values_cons, values_cons, ih]

theorem fragment_textless (d e : Dialect) {a b : Draft} (same : a.values = b.values) :
    (a.fragment d).textless = (b.fragment e).textless := by
  rw [Fragment.textless, Fragment.textless, bindings_fragment, bindings_fragment, same]

end Draft

theorem ofFragment_textless (d e : Dialect) {f g : Fragment} (same : f.textless = g.textless) :
    (Statement.ofFragment d f).textless = (Statement.ofFragment e g).textless := by
  have values : f.bindings = g.bindings := by simpa [Fragment.textless] using same
  rw [Statement.textless, Statement.ofFragment, Statement.textless, Statement.ofFragment, values]

/-- Drafts that differ in nothing but text are compiled to the same values or fail with the same error. -/
theorem ofDraft_wordless (d e : Dialect) {a b : Draft} (same : a.wordless = b.wordless) :
    (Statement.ofDraft d a).map Statement.textless =
      (Statement.ofDraft e b).map Statement.textless := by
  have failure : a.failure? = b.failure? := by
    rw [← Draft.failure?_wordless, same, Draft.failure?_wordless]
  have values : a.values = b.values := by
    rw [← Draft.values_wordless, same, Draft.values_wordless]
  unfold Statement.ofDraft Draft.compile
  rw [failure]
  cases b.failure? with
  | some error => rfl
  | none => exact congrArg Except.ok (ofFragment_textless d e (Draft.fragment_textless d e values))

end Sql
end EagerLoad
