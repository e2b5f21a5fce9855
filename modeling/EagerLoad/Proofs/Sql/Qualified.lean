import EagerLoad.Proofs.Sql.WordedDraft
import EagerLoad.Proofs.Sql.Selecting

/-! # Points in SQL texts

Names have no points, and so a point in a text is that of a reference: it stands between a quoted table and a
quoted column. The numbering of placeholders changes nothing about that. -/
namespace EagerLoad.Sql

open Draft

/-- Whether every point of a text stands between the quoted alias of a table in scope and a quoted column, but
for the points within some inner texts. -/
def Qualifies (d : Dialect) (scope : String → Prop) (inner : List Char → Prop) (text : List Char) : Prop :=
  ∀ front back, text = front ++ '.' :: back →
    (∃ table column, scope table ∧ Identifier.isValid table = true ∧ Identifier.isValid column = true ∧
      (d.quote table).toList <:+ front ∧ (d.quote column).toList <+: back) ∨
    ∃ a b, inner (a ++ '.' :: b) ∧ a <:+ front ∧ b <+: back

/-- A character of joined texts is one of the first or one of the second. -/
theorem append_at {c : Char} {a b front back : List Char} (shape : a ++ b = front ++ c :: back) :
    (∃ rest, a = front ++ c :: rest ∧ back = rest ++ b) ∨
      ∃ rest, front = a ++ rest ∧ b = rest ++ c :: back := by
  rcases List.append_eq_append_iff.mp shape with ⟨rest, later, same⟩ | ⟨rest, earlier, same⟩
  · exact .inr ⟨rest, later, same⟩
  · cases rest with
    | nil => exact .inr ⟨[], by simpa using earlier.symm, by simpa using same.symm⟩
    | cons x rest =>
      obtain ⟨rfl, rfl⟩ := List.cons.inj same
      exact .inl ⟨rest, earlier, rfl⟩

namespace Qualifies

variable {d : Dialect} {scope : String → Prop} {inner : List Char → Prop} {a b text : List Char}

theorem mono {wider : String → Prop} {more : List Char → Prop} (h : Qualifies d scope inner text)
    (known : ∀ name, scope name → wider name) (within : ∀ piece, inner piece → more piece) :
    Qualifies d wider more text := by
  intro front back shape
  rcases h front back shape with ⟨table, column, listed, rest⟩ | ⟨a, b, listed, rest⟩
  · exact .inl ⟨table, column, known _ listed, rest⟩
  · exact .inr ⟨a, b, within _ listed, rest⟩

theorem of_notMem (free : '.' ∉ text) : Qualifies d scope inner text := by
  rintro front back rfl
  exact absurd (List.mem_append_right _ List.mem_cons_self) free

theorem append (ha : Qualifies d scope inner a) (hb : Qualifies d scope inner b) :
    Qualifies d scope inner (a ++ b) := by
  intro front back shape
  rcases append_at shape with ⟨rest, here, rfl⟩ | ⟨rest, rfl, there⟩
  · rcases ha front rest here with ⟨table, column, known, source, field, before, after⟩ |
      ⟨x, y, known, before, after⟩
    · exact .inl ⟨table, column, known, source, field, before, after.trans (List.prefix_append _ _)⟩
    · exact .inr ⟨x, y, known, before, after.trans (List.prefix_append _ _)⟩
  · rcases hb rest back there with ⟨table, column, known, source, field, before, after⟩ |
      ⟨x, y, known, before, after⟩
    · exact .inl ⟨table, column, known, source, field, before.trans (List.suffix_append _ _), after⟩
    · exact .inr ⟨x, y, known, before.trans (List.suffix_append _ _), after⟩

theorem within (known : inner text) : Qualifies d scope inner text := by
  rintro front back rfl
  exact .inr ⟨front, back, known, List.suffix_rfl, List.prefix_rfl⟩

end Qualifies

section Names

variable {d : Dialect} {name : String}

/-- A quoted name consists of allowed characters and quote marks. -/
theorem mem_quote (valid : Identifier.fault? name = none) {c : Char} (found : c ∈ (d.quote name).toList) :
    Identifier.isAllowed c = true ∨ c = d.quoteMark := by
  rw [quote_of_valid d name valid] at found
  rcases List.mem_cons.mp found with mark | found
  · exact .inr mark
  · rcases List.mem_append.mp found with letter | mark
    · exact .inl (isAllowed_of_fault?_eq_none name valid c letter)
    · exact .inr (List.mem_singleton.mp mark)

theorem notMem_quote (valid : Identifier.fault? name = none) {c : Char}
    (free : c = '.' ∨ c = '?') : c ∉ (d.quote name).toList := by
  intro found
  rcases mem_quote valid found with allowed | mark
  · rcases free with rfl | rfl <;> exact absurd allowed (by decide)
  · rcases free with rfl | rfl <;> cases d <;> exact absurd mark (by simp [Dialect.quoteMark])

end Names

theorem failure?_qualified (table column : String) : (qualified table column).failure? = none ↔
    Identifier.fault? table = none ∧ Identifier.fault? column = none := by
  simp [qualified, Step.failure?]

theorem Qualifies.reference {d : Dialect} {scope : String → Prop} {inner : List Char → Prop}
    {table column : String} (known : scope table) (complete : (qualified table column).failure? = none) :
    Qualifies d scope inner (text d (qualified table column)) := by
  obtain ⟨source, field⟩ := (failure?_qualified table column).mp complete
  have shape : text d (qualified table column) =
      (d.quote table).toList ++ '.' :: (d.quote column).toList := by
    simp [qualified, Step.sql]
  rw [shape]
  intro front back same
  -- The names have no points, so the one between them is the only one.
  have only : front = (d.quote table).toList ∧ back = (d.quote column).toList := by
    rcases append_at same with ⟨rest, here, -⟩ | ⟨rest, rfl, there⟩
    · have found : '.' ∈ (d.quote table).toList := by
        rw [here]
        exact List.mem_append_right _ List.mem_cons_self
      exact absurd found (notMem_quote source (.inl rfl))
    · cases rest with
      | nil =>
        obtain ⟨-, rfl⟩ := List.cons.inj there
        exact ⟨List.append_nil _, rfl⟩
      | cons c rest =>
        obtain ⟨-, later⟩ := List.cons.inj there
        have found : '.' ∈ (d.quote column).toList := by
          rw [later]
          exact List.mem_append_right _ List.mem_cons_self
        exact absurd found (notMem_quote field (.inl rfl))
  obtain ⟨rfl, rfl⟩ := only
  have valid {name : String} (none : Identifier.fault? name = none) : Identifier.isValid name = true := by
    rw [Identifier.isValid, none]
    rfl
  exact .inl ⟨table, column, known, valid source, valid field, List.suffix_rfl, List.prefix_rfl⟩

theorem Draft.complete_within {a b : Draft} (within : a <:+: b) (complete : b.failure? = none) :
    a.failure? = none := by
  obtain ⟨front, back, rfl⟩ := within
  exact ((failure?_append _ _).mp ((failure?_append _ _).mp complete).1).2

private theorem vocabulary_points : ∀ word ∈ vocabulary, '.' ∈ word.toList → word = "." := by
  decide +kernel

private theorem constants_pointless :
    ∀ lead ∈ leads, ∀ test ∈ constantTests, '.' ∉ lead.toList ∧ '.' ∉ test.toList := by
  decide +kernel

/-- Whether no step of a draft writes a point but those that write just that. -/
def Draft.OnlyPoints (d : Dialect) (draft : Draft) : Prop :=
  ∀ step ∈ draft, step ≠ .text "." → '.' ∉ (step.sql d).toList

/-- A draft without raw texts writes points by themselves only. -/
theorem Draft.Written.onlyPoints {d : Dialect} {draft : Draft} (written : Written .rawless draft)
    (complete : draft.failure? = none) : OnlyPoints d draft := by
  have one {step : Step} {rest : Draft} (here : step ≠ .text "." → '.' ∉ (step.sql d).toList)
      (later : OnlyPoints d rest) : OnlyPoints d (step :: rest) := List.forall_mem_cons.mpr ⟨here, later⟩
  induction written with
  | nil => exact List.forall_mem_nil _
  | word known _ ih =>
    refine one (fun other point => other ?_) (ih ((failure?_cons _ _).mp complete).2)
    rw [vocabulary_points _ known point]
  | limit e limit offset _ ih =>
    refine one (fun _ point => ?_) (ih ((failure?_cons _ _).mp complete).2)
    exact absurd (limitOffset_letters e limit offset '.' point) (by decide)
  | name identifier _ ih =>
    obtain ⟨here, later⟩ := (failure?_cons _ _).mp complete
    have valid : Identifier.fault? identifier = none := by simpa [Step.failure?] using here
    exact one (fun _ => notMem_quote valid (.inl rfl)) (ih later)
  | bind value _ ih => exact one (fun _ => by simp [Step.sql]) (ih ((failure?_cons _ _).mp complete).2)
  | @silent step rest h _ ih =>
    have nothing : step.sql d = "" := by
      cases step <;> first | rfl | exact absurd h (by simp [Step.isSilent])
    exact one (fun _ => by simp [nothing]) (ih ((failure?_cons _ _).mp complete).2)
  | consult _ _ ih => exact one (fun _ => by simp [Step.sql]) (ih ((failure?_cons _ _).mp complete).2)
  | pair source column _ ih =>
    obtain ⟨here, later⟩ := (failure?_append _ _).mp complete
    obtain ⟨named, field⟩ := (failure?_qualified source column).mp ((failure?_append _ _).mp here).2
    have letters : '.' ∉ column.toList := fun found =>
      absurd (isAllowed_of_fault?_eq_none column field '.' found) (by decide)
    have table : '.' ∉ (d.quote source).toList := notMem_quote named (.inl rfl)
    have quoted : '.' ∉ (d.quote column).toList := notMem_quote field (.inl rfl)
    refine List.forall_mem_append.mpr ⟨?_, ih later⟩
    simp [Columns.pair, Draft.qualified, Step.sql, letters, table, quoted]
  | raw _ h _ _ => exact absurd h id
  | constant follows known _ ih =>
    obtain ⟨lead, test⟩ := constants_pointless _ follows _ known
    have later := ((failure?_cons _ _).mp ((failure?_cons _ _).mp complete).2).2
    exact one (fun _ => lead) (one (fun _ => test) (ih later))

section Numbering

/-- Whether a text becomes another one by numbers in the place of some question marks. -/
inductive Numbered : List Char → List Char → Prop where
  | nil : Numbered [] []
  | keep (c : Char) {a b : List Char} : Numbered a b → Numbered (c :: a) (c :: b)
  | sign (n : Nat) {a b : List Char} :
      Numbered a b → Numbered ('?' :: a) ('$' :: (Nat.toDigits 10 n ++ b))

namespace Numbered

variable {a b text other : List Char}

theorem refl (text : List Char) : Numbered text text := by
  induction text with
  | nil => exact .nil
  | cons c rest ih => exact .keep c ih

theorem append {a' b' : List Char} (ha : Numbered a a') (hb : Numbered b b') :
    Numbered (a ++ b) (a' ++ b') := by
  induction ha with
  | nil => exact hb
  | keep c _ ih => exact .keep c ih
  | sign n _ ih =>
    rw [List.cons_append, List.cons_append, List.append_assoc]
    exact .sign n ih

theorem append_inv (h : Numbered (a ++ b) text) :
    ∃ a' b', text = a' ++ b' ∧ Numbered a a' ∧ Numbered b b' := by
  induction a generalizing text with
  | nil => exact ⟨[], text, rfl, .nil, h⟩
  | cons c rest ih =>
    cases h with
    | keep _ h =>
      obtain ⟨a', b', rfl, first, second⟩ := ih h
      exact ⟨c :: a', b', rfl, .keep c first, second⟩
    | sign n h =>
      obtain ⟨a', b', rfl, first, second⟩ := ih h
      exact ⟨'$' :: (Nat.toDigits 10 n ++ a'), b', by simp, .sign n first, second⟩

theorem eq_of_notMem (h : Numbered a text) (free : '?' ∉ a) : text = a := by
  induction h with
  | nil => rfl
  | keep c _ ih => rw [ih (List.not_mem_of_not_mem_cons free)]
  | sign => exact absurd List.mem_cons_self free

/-- What has no question marks stays as it is. -/
theorem infix_of_notMem (h : Numbered text other) (free : '?' ∉ a) (within : a <:+: text) :
    a <:+: other := by
  obtain ⟨front, back, rfl⟩ := within
  obtain ⟨before, _, rfl, first, -⟩ := h.append_inv
  obtain ⟨_, middle, rfl, -, second⟩ := first.append_inv
  rw [second.eq_of_notMem free]
  exact List.infix_append _ _ _

/-- A character that no placeholder is written with stood there before the numbering. -/
theorem at_inv {c : Char} (free : c ≠ '$' ∧ c.isDigit = false) {front back : List Char}
    (h : Numbered text (front ++ c :: back)) :
    ∃ before after, text = before ++ c :: after ∧ Numbered before front ∧ Numbered after back := by
  generalize shape : front ++ c :: back = whole at h
  induction h generalizing front with
  | nil => exact absurd shape (by simp)
  | @keep y a b h ih =>
    cases front with
    | nil =>
      obtain ⟨rfl, rfl⟩ := List.cons.inj shape
      exact ⟨[], a, rfl, .nil, h⟩
    | cons x rest =>
      obtain ⟨rfl, same⟩ := List.cons.inj shape
      obtain ⟨before, after, rfl, first, second⟩ := ih same
      exact ⟨x :: before, after, rfl, .keep x first, second⟩
  | @sign n a b h ih =>
    have absent : c ∉ '$' :: Nat.toDigits 10 n := by
      intro found
      rcases List.mem_cons.mp found with same | digit
      · exact free.1 same
      · have known : c.isDigit = true := Nat.isDigit_of_mem_toDigits (by omega) (by omega) digit
        exact absurd (free.2.symm.trans known) (by decide)
    rcases append_at (a := '$' :: Nat.toDigits 10 n) shape.symm with ⟨rest, here, -⟩ | ⟨rest, rfl, there⟩
    · exact absurd (here ▸ List.mem_append_right _ List.mem_cons_self) absent
    · obtain ⟨before, after, rfl, first, second⟩ := ih there.symm
      exact ⟨'?' :: before, after, rfl, .sign n first, second⟩

theorem of_numberFrom (r : Region) (i : Nat) (text : List Char) : Numbered text (numberFrom r i text) := by
  induction text generalizing r i with
  | nil => exact .nil
  | cons c rest ih =>
    rw [numberFrom]
    split
    case isTrue sign =>
      obtain ⟨-, rfl⟩ := sign
      exact .sign (i + 1) (ih r (i + 1))
    case isFalse => exact .keep c (ih _ i)

theorem ofFragment (d : Dialect) (f : Fragment) :
    Numbered f.sql.toList (Statement.ofFragment d f).sql.toList := by
  rw [toList_ofFragment, render]
  split
  · exact of_numberFrom .plain 0 _
  · exact refl _

end Numbered

theorem Qualifies.numbered {d : Dialect} {scope : String → Prop} {inner : List Char → Prop}
    {text other : List Char} (h : Qualifies d scope inner text) (numbers : Numbered text other) :
    Qualifies d scope (fun piece => ∃ text, inner text ∧ Numbered text piece) other := by
  rintro front back rfl
  obtain ⟨before, after, rfl, first, second⟩ := numbers.at_inv (by decide)
  rcases h before after rfl with ⟨table, column, known, source, field, ⟨x, rfl⟩, ⟨y, rfl⟩⟩ |
    ⟨a, b, known, ⟨x, rfl⟩, ⟨y, rfl⟩⟩
  · obtain ⟨x', table', rfl, -, quoted⟩ := first.append_inv
    obtain ⟨column', y', rfl, named, -⟩ := second.append_inv
    have valid {name : String} (valid : Identifier.isValid name = true) : '?' ∉ (d.quote name).toList :=
      notMem_quote (Option.isNone_iff_eq_none.mp valid) (.inr rfl)
    rw [quoted.eq_of_notMem (valid source), named.eq_of_notMem (valid field)]
    exact .inl ⟨table, column, known, source, field, List.suffix_append _ _, List.prefix_append _ _⟩
  · obtain ⟨x', a', rfl, -, left⟩ := first.append_inv
    obtain ⟨b', y', rfl, right, -⟩ := second.append_inv
    exact .inr ⟨a', b', ⟨_, known, left.append (.keep '.' right)⟩, List.suffix_append _ _, List.prefix_append _ _⟩

/-- Words and names write no question marks. -/
theorem Draft.question_notMem {d : Dialect} {draft : Draft} (complete : draft.failure? = none)
    (plain : ∀ step ∈ draft, (∃ name, step = .name name) ∨ '?' ∉ (step.sql d).toList) :
    '?' ∉ draft.text d := by
  induction draft with
  | nil => exact List.not_mem_nil
  | cons step rest ih =>
    obtain ⟨here, later⟩ := List.forall_mem_cons.mp plain
    obtain ⟨valid, others⟩ := (failure?_cons step rest).mp complete
    rw [text_cons, List.mem_append, not_or]
    refine ⟨?_, ih others later⟩
    rcases here with ⟨name, rfl⟩ | free
    · exact notMem_quote (by simpa [Step.failure?] using valid) (.inr rfl)
    · exact free

/-- Words and names of a draft stand in its text, whether placeholders are numbered there or not. -/
theorem Draft.infix_numbered {d : Dialect} {piece draft : Draft} (within : piece <:+: draft)
    (complete : draft.failure? = none)
    (plain : ∀ step ∈ piece, (∃ name, step = .name name) ∨ '?' ∉ (step.sql d).toList) {text : List Char}
    (numbers : Numbered (draft.text d) text) : piece.text d <:+: text :=
  numbers.infix_of_notMem (question_notMem (complete_within within complete) plain) (text_within within)

theorem Numbered.of_ofDraft {d : Dialect} {draft : Draft} {s : Statement}
    (done : Statement.ofDraft d draft = .ok s) : Numbered (draft.text d) s.sql.toList := by
  obtain ⟨-, rfl⟩ := (ofDraft_eq_ok_iff _ _ _).mp done
  exact .ofFragment d _

end Numbering
end EagerLoad.Sql
