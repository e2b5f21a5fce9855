import EagerLoad.Proofs.Sql.Qualified

/-! # What stands in parentheses

No list of values and no group of conditions is empty if there is something in all parentheses, other than those
of a call without arguments. A word may open parentheses only if what is written next does not close them. -/
namespace EagerLoad.Sql

/-- The functions that may be called without arguments, for an empty object or array. -/
def emptyCalls : List String := ["json_build_object", "json_object", "JSON_OBJECT", "JSON_ARRAY"]

/-- The first character that is no blank. -/
def firstInk (text : List Char) : Option Char := text.find? fun c => !Text.isBlank c

/-- The last character that is no blank. -/
def lastInk (text : List Char) : Option Char := firstInk text.reverse

/-- Whether nothing but blanks stands in parentheses only after a function that may be called without
arguments. -/
def Filled (text : List Char) : Prop :=
  ∀ front back, text = front ++ '(' :: back → firstInk back = some ')' →
    ∃ call ∈ emptyCalls, call.toList <:+ front

/-- Whether a text is filled and others may follow it, because it does not end in an opening parenthesis. -/
structure Enclosed (text : List Char) : Prop where
  filled : Filled text
  closed : lastInk text ≠ some '('

section Ink

variable {a b text : List Char}

theorem firstInk_cons (c : Char) (rest : List Char) :
    firstInk (c :: rest) = if Text.isBlank c then firstInk rest else some c := by
  rw [firstInk, List.find?_cons]
  cases Text.isBlank c <;> rfl

theorem firstInk_append (a b : List Char) : firstInk (a ++ b) = (firstInk a).or (firstInk b) := List.find?_append

theorem lastInk_append (a b : List Char) : lastInk (a ++ b) = (lastInk b).or (lastInk a) := by
  rw [lastInk, List.reverse_append, firstInk_append, lastInk, lastInk]

/-- Blanks at the end of a text are not the last of it that counts. -/
theorem lastInk_of_blank {c : Char} (ink : Text.isBlank c = false) (blank : firstInk b = none) :
    lastInk (a ++ c :: b) = some c := by
  have none : lastInk b = none := by
    rw [lastInk, firstInk, List.find?_eq_none]
    intro x known
    exact List.find?_eq_none.mp blank x (List.mem_reverse.mp known)
  have one : lastInk [c] = some c := by simp [lastInk, firstInk, ink]
  rw [← List.singleton_append, ← List.append_assoc, lastInk_append, none, Option.none_or, lastInk_append, one]
  rfl

theorem firstInk_of_numbered (h : Numbered text b) (other : firstInk b ≠ some '$') : firstInk text = firstInk b := by
  induction h with
  | nil => rfl
  | keep c _ ih =>
    rw [firstInk_cons] at other
    rw [firstInk_cons, firstInk_cons]
    split
    case isTrue blank => exact ih (by simpa [blank] using other)
    case isFalse => rfl
  | sign => exact absurd rfl other

end Ink

namespace Filled

variable {a b text other : List Char}

/-- Where parentheses are empty is decided place by place. -/
theorem iff_places : Filled text ↔ ∀ n < text.length, text[n]? = some '(' →
    firstInk (text.drop (n + 1)) = some ')' → ∃ call ∈ emptyCalls, call.toList <:+ text.take n := by
  constructor
  · intro filled n _ opens closes
    obtain ⟨bound, here⟩ := List.getElem?_eq_some_iff.mp opens
    refine filled (text.take n) (text.drop (n + 1)) ?_ closes
    rw [← here, ← List.drop_eq_getElem_cons bound, List.take_append_drop]
  · rintro places front back rfl closes
    have known := places front.length (by simp) (by simp)
    rw [List.take_left, ← List.drop_drop, List.drop_left] at known
    exact known closes

instance (text : List Char) : Decidable (Filled text) := decidable_of_iff _ iff_places.symm

example : Filled "x IN (1) AND (JSON_ARRAY() IS NULL)".toList ∧ ¬Filled "x NOT IN ( )".toList ∧
    ¬Filled "y = 1 AND (())".toList := by
  decide +kernel

theorem of_notMem (free : '(' ∉ text) : Filled text := by
  rintro front back rfl
  exact absurd (List.mem_append_right _ List.mem_cons_self) free

/-- Texts may be joined unless the first opens parentheses that the second closes. -/
theorem append (ha : Filled a) (hb : Filled b) (apart : lastInk a = some '(' → firstInk b ≠ some ')') :
    Filled (a ++ b) := by
  intro front back shape closes
  obtain ⟨rest, rfl, rfl⟩ | ⟨rest, rfl, there⟩ := append_at shape
  · rw [firstInk_append] at closes
    cases ink : firstInk rest with
    | some c =>
      rw [ink, Option.some_or] at closes
      exact ha front rest rfl (ink.trans closes)
    | none =>
      rw [ink, Option.none_or] at closes
      exact absurd closes (apart (lastInk_of_blank (by decide) ink))
  · obtain ⟨call, known, ends⟩ := hb rest back there closes
    exact ⟨call, known, ends.trans (List.suffix_append _ _)⟩

/-- Numbering fills and empties no parentheses. -/
theorem numbered (h : Filled text) (numbers : Numbered text other) : Filled other := by
  rintro front back rfl closes
  obtain ⟨before, after, rfl, first, second⟩ := numbers.at_inv (by decide)
  have same := firstInk_of_numbered second (by simp [closes])
  obtain ⟨call, known, ⟨more, rfl⟩⟩ := h before after rfl (same.trans closes)
  obtain ⟨more', call', rfl, -, named⟩ := first.append_inv
  have plain : ∀ call ∈ emptyCalls, '?' ∉ call.toList := by decide
  rw [named.eq_of_notMem (plain call known)]
  exact ⟨call, known, List.suffix_append _ _⟩

/-- Lists of values and groups of conditions are opened after a blank or other parentheses. None is empty. -/
theorem listed (h : Filled text) {opening : String} (known : opening ∈ [" (", "(("]) {front back : List Char}
    (shape : text = front ++ opening.toList ++ back) : firstInk back ≠ some ')' := by
  intro closes
  obtain ⟨c, letters, other⟩ : ∃ c, opening.toList = [c, '('] ∧
      ∀ call ∈ emptyCalls, call.toList.getLast?.any (· != c) = true := by
    rcases List.mem_pair.mp known with rfl | rfl
    · exact ⟨' ', by decide, by decide⟩
    · exact ⟨'(', by decide, by decide⟩
  rw [letters] at shape
  obtain ⟨call, named, more, ends⟩ := h (front ++ [c]) back (by simpa using shape) closes
  obtain ⟨x, last, apart⟩ := (Option.any_eq_true _ _).mp (other call named)
  have same := congrArg List.getLast? ends
  rw [List.getLast?_append, last, Option.some_or, List.getLast?_concat] at same
  exact absurd (Option.some.inj same) (by simpa using apart)

end Filled

namespace Enclosed

variable {a b text : List Char}

instance (text : List Char) : Decidable (Enclosed text) :=
  decidable_of_iff (Filled text ∧ lastInk text ≠ some '(') ⟨fun h => ⟨h.1, h.2⟩, fun h => ⟨h.filled, h.closed⟩⟩

theorem of_notMem (free : '(' ∉ text) : Enclosed text where
  filled := .of_notMem free
  closed opens := free (List.mem_reverse.mp (List.mem_of_find?_eq_some opens))

theorem append (ha : Enclosed a) (hb : Enclosed b) : Enclosed (a ++ b) where
  filled := ha.filled.append hb.filled fun opens => absurd opens ha.closed
  closed opens := by
    rw [lastInk_append, Option.or_eq_some_iff] at opens
    exact opens.elim hb.closed fun earlier => ha.closed earlier.2

/-- Parentheses are opened before something that does not close them. -/
theorem opened {c : Char} (ha : Filled a) (hb : Enclosed b) (ink : firstInk b = some c) (other : c ≠ ')') :
    Enclosed (a ++ b) where
  filled := ha.append hb.filled fun _ closes => other (Option.some.inj (ink.symm.trans closes))
  closed opens := by
    rw [lastInk_append, Option.or_eq_some_iff] at opens
    obtain last | ⟨none, -⟩ := opens
    · exact hb.closed last
    · have blank := List.find?_eq_none.mp none c
      have known := List.mem_of_find?_eq_some ink
      exact absurd (List.find?_some ink) (blank (List.mem_reverse.mpr known))

end Enclosed

namespace Draft

variable {d : Dialect} {a b rest : Draft}

/-- Whether the text of a draft, if the draft can be completed, begins with something that closes no
parentheses. -/
def Inks (d : Dialect) (draft : Draft) : Prop :=
  draft.failure? = none → ∃ c, firstInk (draft.text d) = some c ∧ c ≠ ')'

/-- Whether the text of a draft, if the draft can be completed, is enclosed. -/
def Enclosing (d : Dialect) (draft : Draft) : Prop := draft.failure? = none → Enclosed (draft.text d)

namespace Inks

theorem append (h : Inks d a) (b : Draft) : Inks d (a ++ b) := by
  intro complete
  obtain ⟨c, ink, other⟩ := h ((failure?_append _ _).mp complete).1
  exact ⟨c, by rw [text_append, firstInk_append, ink, Option.some_or], other⟩

/-- A step that begins with a character of ink. -/
theorem step {step : Step} {c : Char} {text : List Char} (shape : (step.sql d).toList = c :: text)
    (ink : Text.isBlank c = false) (other : c ≠ ')') (rest : Draft) : Inks d (step :: rest) := by
  intro _
  refine ⟨c, ?_, other⟩
  rw [text_cons, shape, List.cons_append, firstInk_cons, ink]
  rfl

theorem word {sql : String} (ink : (firstInk sql.toList).any (· != ')') = true) (rest : Draft) :
    Inks d (.text sql :: rest) := by
  intro _
  obtain ⟨c, first, other⟩ := (Option.any_eq_true _ _).mp ink
  refine ⟨c, ?_, by simpa using other⟩
  rw [text_cons, firstInk_append, Step.sql, first, Option.some_or]

theorem silent {step : Step} (none : step.sql d = "") (later : Inks d rest) : Inks d (step :: rest) := by
  intro complete
  rw [text_cons, none]
  exact later ((failure?_cons _ _).mp complete).2

theorem name (identifier : String) (rest : Draft) : Inks d (.name identifier :: rest) := by
  have mark : Text.isBlank d.quoteMark = false ∧ d.quoteMark ≠ ')' := by
    cases d <;> simp only [Dialect.quoteMark] <;> decide
  exact step (by rw [Step.sql, Dialect.quote, String.toList_ofList]) mark.1 mark.2 rest

theorem bind (value : DbValue) (rest : Draft) : Inks d (.bind value :: rest) := by
  have sign : ((Step.bind value).sql d).toList = ['?'] := by simp [Step.sql]
  exact step sign (by decide) (by decide) rest

theorem qualified (table column : String) : Inks d (Draft.qualified table column) := name _ _

theorem column (qualifier : Option String) (column : String) : Inks d (Draft.column qualifier column) := by
  unfold Draft.column
  split
  · exact qualified _ _
  · exact qualified _ _
  · exact name _ _

theorem separated {drafts : List Draft} (some : drafts ≠ []) (each : ∀ draft ∈ drafts, Inks d draft)
    (separator : String) : Inks d (Draft.separated separator drafts) := by
  obtain ⟨draft, rest, rfl⟩ := List.exists_cons_of_ne_nil some
  have first := each draft List.mem_cons_self
  cases rest with
  | nil => exact first
  | cons next others =>
    rw [Draft.separated]
    · exact first.append _
    · simp

theorem andThen {x : Except CompileError α} {next : α → Draft} (each : ∀ a, x = .ok a → Inks d (next a)) :
    Inks d (Draft.andThen x next) :=
  holds_andThen (fun _ complete => absurd complete (by simp [Step.failure?])) each

end Inks

namespace Enclosing

theorem nil : Enclosing d [] := fun _ => .of_notMem List.not_mem_nil

theorem append (ha : Enclosing d a) (hb : Enclosing d b) : Enclosing d (a ++ b) := by
  intro complete
  obtain ⟨first, second⟩ := (failure?_append _ _).mp complete
  rw [text_append]
  exact (ha first).append (hb second)

theorem step {step : Step} (here : step.failure? = none → Enclosed (step.sql d).toList)
    (later : Enclosing d rest) : Enclosing d (step :: rest) := by
  intro complete
  obtain ⟨first, second⟩ := (failure?_cons _ _).mp complete
  rw [text_cons]
  exact (here first).append (later second)

theorem word {sql : String} (known : Enclosed sql.toList) (later : Enclosing d rest) :
    Enclosing d (.text sql :: rest) := step (fun _ => known) later

/-- Most words open no parentheses. -/
theorem plain {sql : String} (free : '(' ∉ sql.toList) (later : Enclosing d rest) :
    Enclosing d (.text sql :: rest) := word (.of_notMem free) later

/-- A word opens parentheses if what follows it does not close them. -/
theorem opened {sql : String} (known : Filled sql.toList) (inks : Inks d rest) (later : Enclosing d rest) :
    Enclosing d (.text sql :: rest) := by
  intro complete
  obtain ⟨-, second⟩ := (failure?_cons _ _).mp complete
  obtain ⟨c, ink, other⟩ := inks second
  rw [text_cons]
  exact .opened known (later second) ink other

theorem limit (e : Dialect) (limit offset : Option Nat) (later : Enclosing d rest) :
    Enclosing d (.text (e.limitOffset limit offset) :: rest) := by
  refine plain (fun found => ?_) later
  exact absurd (limitOffset_letters e limit offset '(' found) (by decide)

private theorem paren_notMem_name {name : String} (valid : Identifier.fault? name = none) :
    '(' ∉ name.toList := fun found => absurd (isAllowed_of_fault?_eq_none name valid '(' found) (by decide)

private theorem paren_notMem_quote {name : String} (valid : Identifier.fault? name = none) :
    '(' ∉ (d.quote name).toList := by
  intro found
  rcases mem_quote valid found with allowed | mark
  · exact absurd allowed (by decide)
  · cases d <;> exact absurd mark (by simp [Dialect.quoteMark])

theorem name (identifier : String) (later : Enclosing d rest) : Enclosing d (.name identifier :: rest) :=
  step (fun valid => .of_notMem (paren_notMem_quote (by simpa [Step.failure?] using valid))) later

theorem bind (value : DbValue) (later : Enclosing d rest) : Enclosing d (.bind value :: rest) :=
  step (fun _ => .of_notMem (by simp [Step.sql])) later

/-- Steps without text. -/
theorem quiet {silent : Draft} (none : ∀ step ∈ silent, step.sql d = "") : Enclosing d silent := by
  induction silent with
  | nil => exact nil
  | cons s rest ih =>
    refine step (fun _ => ?_) (ih fun next found => none next (List.mem_cons_of_mem _ found))
    rw [none s List.mem_cons_self]
    exact .of_notMem List.not_mem_nil

theorem separated {separator : String} {drafts : List Draft} (known : Enclosed separator.toList)
    (each : ∀ draft ∈ drafts, Enclosing d draft) : Enclosing d (Draft.separated separator drafts) :=
  holds_separated nil (fun here there => here.append (word known there)) each

theorem flatMap {f : α → Draft} {items : List α} (each : ∀ item ∈ items, Enclosing d (f item)) :
    Enclosing d (items.flatMap f) := holds_flatMap nil append each

theorem andThen {x : Except CompileError α} {next : α → Draft} (each : ∀ a, x = .ok a → Enclosing d (next a)) :
    Enclosing d (Draft.andThen x next) :=
  holds_andThen (fun _ complete => absurd complete (by simp [Step.failure?])) each

theorem qualified (table column : String) : Enclosing d (Draft.qualified table column) :=
  name _ (plain (by decide) (name _ nil))

theorem column (qualifier : Option String) (column : String) : Enclosing d (Draft.column qualifier column) := by
  unfold Draft.column
  split
  · exact qualified _ _
  · exact qualified _ _
  · exact name _ nil

/-- A list of values in parentheses, if there are any. -/
theorem bindList {sql : String} (known : Filled sql.toList) {values : List DbValue} (some : values ≠ []) :
    Enclosing d (.text sql :: (Draft.bindList values ++ [.text ")"])) := by
  have each : ∀ draft ∈ values.map (fun v => ([.bind v] : Draft)), Inks d draft ∧ Enclosing d draft := by
    intro draft found
    obtain ⟨value, -, rfl⟩ := List.mem_map.mp found
    exact ⟨.bind value _, .bind value .nil⟩
  have inks : Inks d (Draft.bindList values) :=
    .separated (by simpa using some) (fun draft found => (each draft found).1) _
  have listed : Enclosing d (Draft.bindList values) :=
    separated (.of_notMem (by decide)) fun draft found => (each draft found).2
  exact opened known (inks.append _) (listed.append (.plain (by decide) .nil))

/-- A column after a literal with its name, in which there are no parentheses. -/
theorem pair (source column : String) : Enclosing d (Columns.pair source column) := by
  intro complete
  obtain ⟨named, field⟩ := (failure?_qualified source column).mp ((failure?_append _ _).mp complete).2
  refine .of_notMem ?_
  simp [Columns.pair, Draft.qualified, Step.sql, paren_notMem_name field, paren_notMem_quote named,
    paren_notMem_quote field]

theorem filled_of_numbered {draft : Draft} {text : List Char} (h : Enclosing d draft)
    (complete : draft.failure? = none) (numbers : Numbered (draft.text d) text) : Filled text :=
  (h complete).filled.numbered numbers

theorem filled_of_ofDraft {draft : Draft} {s : Statement} (h : Enclosing d draft)
    (written : Statement.ofDraft d draft = .ok s) : Filled s.sql.toList :=
  h.filled_of_numbered ((ofDraft_eq_ok_iff _ _ _).mp written).1 (.of_ofDraft written)

end Enclosing
end Draft
end EagerLoad.Sql
