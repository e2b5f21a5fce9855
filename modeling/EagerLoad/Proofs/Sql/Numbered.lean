import EagerLoad.Proofs.Sql.Draft
import EagerLoad.Proofs.Sql.Worded
import Mathlib.Data.List.Forall2

/-! # Reading numbered statements

Numbering changes a placeholder into a word with the same kind of start, so the tests of a statement are
found in its finished text too, each with its own placeholders numbered. -/
namespace EagerLoad.Sql

/-- A part of a text as it stands in a finished statement, after so many placeholders. -/
def render (d : Dialect) (i : Nat) (text : List Char) : List Char :=
  if d.numbersPlaceholders then numberFrom .plain i text else text

theorem toList_ofFragment (d : Dialect) (f : Fragment) :
    (Statement.ofFragment d f).sql.toList = render d 0 f.sql.toList := by
  unfold Statement.ofFragment render numberPlaceholders
  split <;> simp

section Numbering

variable {avoid : List Char} {r : Region} {text : List Char}

/-- Digits are read as the start of a word or within one. -/
theorem readOn_digits {digits : List Char} (h : ∀ c ∈ digits, c.isDigit = true) {fresh : Bool}
    (free : fresh = true → ∀ c ∈ digits, c ∉ avoid) (depth : Nat) (rest : List Char) :
    readOn avoid .plain depth fresh (digits ++ rest) =
      readOn avoid .plain depth (fresh && digits.isEmpty) rest := by
  induction digits generalizing fresh with
  | nil => simp
  | cons c digits ih =>
    have other (x : Char) (hx : x.isDigit = false) : c ≠ x := by
      rintro rfl
      exact absurd (h c List.mem_cons_self) (by simp [hx])
    have next : Region.plain.next isNameQuote c = .plain := by
      simp [Region.next, isNameQuote, other '\x27' rfl, other '\x22' rfl, other '\x60' rfl]
    have gap : ¬Region.plain.isGap depth c = true := by simp [Region.isGap, other ' ' rfl]
    have start : (fresh && avoid.contains c) = false := by
      cases fresh with
      | false => rfl
      | true => simpa using free rfl c List.mem_cons_self
    have tied : ¬(Region.plain.isLoose depth c || fresh && avoid.contains c) = true := by
      rw [start]
      simp [Region.isLoose, other ')' rfl]
    have level : Region.plain.depth depth c = depth := by
      simp [Region.depth, other '(' rfl, other ')' rfl]
    rw [List.cons_append, readOn, if_neg gap, if_neg tied, next, level,
      ih (fun x found => h x (List.mem_cons_of_mem c found)) (fun fresh => absurd fresh (by simp))]
    simp

/-- A sign is read as the start of a word or within one. -/
private theorem readOn_sign {sign : Char} (known : sign = '?' ∨ sign = '$') (free : sign ∉ avoid)
    (depth : Nat) (fresh : Bool) (rest : List Char) :
    readOn avoid .plain depth fresh (sign :: rest) = readOn avoid .plain depth false rest := by
  have gap : ¬Region.plain.isGap depth sign = true := by
    obtain rfl | rfl := known <;> simp [Region.isGap]
  have tied : ¬(Region.plain.isLoose depth sign || fresh && avoid.contains sign) = true := by
    obtain rfl | rfl := known <;> simp [Region.isLoose, free]
  have level : Region.plain.depth depth sign = depth := by
    obtain rfl | rfl := known <;> simp [Region.depth]
  have next : Region.plain.next isNameQuote sign = .plain := by
    obtain rfl | rfl := known <;> rfl
  rw [readOn, if_neg gap, if_neg tied, next, level]

/-- What may be read on may be so after numbering. -/
theorem readOn_numberFrom (question : '?' ∉ avoid) (dollar : '$' ∉ avoid) (unticked : '\x60' ∉ text)
    (i depth : Nat) (fresh : Bool) :
    readOn avoid r depth fresh (numberFrom r i text) = readOn avoid r depth fresh text := by
  induction text generalizing r i depth fresh with
  | nil => rfl
  | cons c rest ih =>
    rw [List.mem_cons, not_or] at unticked
    rw [numberFrom]
    split
    · rename_i sign
      obtain ⟨rfl, rfl⟩ := sign
      have digits : ∀ c ∈ Nat.toDigits 10 (i + 1), c.isDigit = true := fun c found =>
        Nat.isDigit_of_mem_toDigits (by omega) (by omega) found
      rw [readOn_sign (.inr rfl) dollar, readOn_digits digits (fun fresh => absurd fresh (by simp)),
        Bool.false_and, ih unticked.2, readOn_sign (.inl rfl) question]
    · rw [readOn, readOn, Region.next_isDoubleQuote r c (Ne.symm unticked.1)]
      split
      · rename_i gap
        simp only [Region.isGap, Bool.and_eq_true, beq_iff_eq] at gap
        obtain ⟨⟨rfl, -⟩, rfl⟩ := gap
        exact ih unticked.2 i depth true
      · split
        · rfl
        · exact ih unticked.2 i _ false

theorem numberFrom_append {a : List Char} (unticked : '\x60' ∉ a) (i : Nat) (b : List Char) :
    ∃ j, numberFrom r i (a ++ b) = numberFrom r i a ++ numberFrom (r.after a) j b := by
  induction a generalizing r i with
  | nil => exact ⟨i, rfl⟩
  | cons c rest ih =>
    rw [List.mem_cons, not_or] at unticked
    rw [List.cons_append, numberFrom, numberFrom, Region.after_cons]
    split
    · rename_i sign
      obtain ⟨rfl, rfl⟩ := sign
      obtain ⟨j, same⟩ := ih (r := .plain) unticked.2 (i + 1)
      exact ⟨j, by rw [same, List.cons_append, List.append_assoc]; rfl⟩
    · obtain ⟨j, same⟩ := ih (r := r.next isNameQuote c) unticked.2 i
      exact ⟨j, by rw [Region.next_isDoubleQuote r c (Ne.symm unticked.1), same]; rfl⟩

theorem numberFrom_of_notMem (h : '?' ∉ text) (i : Nat) : numberFrom r i text = text := by
  induction text generalizing r with
  | nil => rfl
  | cons c rest ih =>
    rw [List.mem_cons, not_or] at h
    rw [numberFrom, if_neg fun sign => h.1 sign.2.symm, ih h.2]

end Numbering

section Rendering

variable {d : Dialect} {avoid : List Char} {fresh ends : Bool} {a text : List Char}

theorem Worded.render (h : Worded avoid fresh text ends) (question : '?' ∉ avoid)
    (dollar : '$' ∉ avoid) (unticked : d.numbersPlaceholders = true → '\x60' ∉ text) (i : Nat) :
    Worded avoid fresh (render d i text) ends := by
  unfold Sql.render
  split
  · rename_i numbered
    rw [Worded, readOn_numberFrom question dollar (unticked numbered)]
    exact h
  · exact h

theorem after_of_closes {r r' : Region} {depth depth' : Nat} {text : List Char}
    (h : closes r depth text = some (r', depth')) : r.after text = r' := by
  induction text generalizing r depth with
  | nil => exact (Prod.mk.inj (Option.some.inj h)).1
  | cons c rest ih =>
    rw [closes] at h
    split at h
    · exact absurd h (by simp)
    · exact ih h

theorem render_append (balanced : Balanced a) (unticked : d.numbersPlaceholders = true → '\x60' ∉ a)
    (i : Nat) (b : List Char) : ∃ j, render d i (a ++ b) = render d i a ++ render d j b := by
  unfold render
  split
  · rename_i numbered
    obtain ⟨j, same⟩ := numberFrom_append (r := .plain) (unticked numbered) i b
    rw [after_of_closes balanced] at same
    exact ⟨j, same⟩
  · exact ⟨i, rfl⟩

theorem render_of_notMem (h : '?' ∉ text) (i : Nat) : render d i text = text := by
  unfold render
  split
  · exact numberFrom_of_notMem h i
  · rfl

theorem Ends.render (h : Ends text) (i : Nat) : Ends (render d i text) := by
  obtain rfl | ⟨k, known, rest, rfl⟩ := h
  · rw [render_of_notMem (by simp)]
    exact .inl rfl
  · have plain : ∀ k ∈ clauseWords, Balanced (' ' :: (k ++ [' '])) ∧ '\x60' ∉ ' ' :: (k ++ [' ']) ∧
        '?' ∉ ' ' :: (k ++ [' ']) := by decide
    obtain ⟨balanced, unticked, constant⟩ := plain k known
    obtain ⟨j, same⟩ := render_append (d := d) balanced (fun _ => unticked) i rest
    refine .inr ⟨k, known, Sql.render d j rest, ?_⟩
    have split : ' ' :: (k ++ ' ' :: rest) = ' ' :: (k ++ [' ']) ++ rest := by simp
    rw [split, same, render_of_notMem constant]
    simp

/-- What a part of a draft has become in a finished statement. -/
def Renders (d : Dialect) (text piece : List Char) : Prop := ∃ i, piece = render d i text

theorem joined_render {tests : List (List Char)}
    (worded : ∀ t ∈ tests, Worded testStarts true t false)
    (unticked : d.numbersPlaceholders = true → ∀ t ∈ tests, '\x60' ∉ t) (i : Nat) :
    ∃ pieces, List.Forall₂ (Renders d) tests pieces ∧ render d i (joined tests) = joined pieces := by
  induction tests generalizing i with
  | nil => exact ⟨[], .nil, render_of_notMem (by simp [joined, List.intercalate]) i⟩
  | cons t rest ih =>
    have later (j : Nat) := ih (fun u found => worded u (List.mem_cons_of_mem t found))
      (fun numbered u found => unticked numbered u (List.mem_cons_of_mem t found)) j
    cases rest with
    | nil => exact ⟨[render d i t], .cons ⟨i, rfl⟩ .nil, by simp [joined, List.intercalate]⟩
    | cons t' others =>
      have here := (worded t List.mem_cons_self).balanced
      have plain (numbered : d.numbersPlaceholders = true) : '\x60' ∉ t :=
        unticked numbered t List.mem_cons_self
      have split : joined (t :: t' :: others) = t ++ (" AND ".toList ++ joined (t' :: others)) := by
        rw [joined_cons]
        rfl
      obtain ⟨j, first⟩ := render_append (d := d) here plain i (" AND ".toList ++ joined (t' :: others))
      obtain ⟨k, second⟩ := render_append (d := d) (a := " AND ".toList) (by decide)
        (fun _ => by decide) j (joined (t' :: others))
      obtain ⟨pieces, each, same⟩ := later k
      obtain ⟨piece, pieces, head, tail, rfl⟩ := List.forall₂_cons_left_iff.mp each
      refine ⟨render d i t :: piece :: pieces, .cons ⟨i, rfl⟩ (.cons head tail), ?_⟩
      have between : render d j " AND ".toList = " AND ".toList := render_of_notMem (by decide) j
      rw [split, first, second, same, between, joined_cons]
      rfl

theorem worded_of_renders {tests pieces : List (List Char)}
    (worded : ∀ t ∈ tests, Worded testStarts true t false)
    (unticked : d.numbersPlaceholders = true → ∀ t ∈ tests, '\x60' ∉ t)
    (each : List.Forall₂ (Renders d) tests pieces) :
    ∀ piece ∈ pieces, Worded testStarts true piece false := by
  induction each with
  | nil => simp
  | @cons t piece tests pieces rendered _ ih =>
    obtain ⟨i, rfl⟩ := rendered
    intro other found
    obtain rfl | later := List.mem_cons.mp found
    · exact (worded t List.mem_cons_self).render (by decide) (by decide)
        (fun numbered => unticked numbered t List.mem_cons_self) i
    · exact ih (fun u known => worded u (List.mem_cons_of_mem t known))
        (fun numbered u known => unticked numbered u (List.mem_cons_of_mem t known)) other later

/-- In a finished statement, whose placeholders may be numbered, the WHERE holds the tests as they are
rendered there. -/
theorem Guarded.render {tests : List (List Char)} (h : Guarded tests text)
    (unticked : d.numbersPlaceholders = true → '\x60' ∉ text) (i : Nat) :
    ∃ pieces, List.Forall₂ (Renders d) tests pieces ∧ Guarded pieces (Sql.render d i text) := by
  obtain ⟨front, back, rfl, begins, worded, ends, absent⟩ := h
  simp only [List.mem_append, not_or] at unticked
  have clause : ∃ j pieces, List.Forall₂ (Renders d) tests pieces ∧
      Sql.render d i (front ++ whereText tests ++ back) =
        Sql.render d i front ++ whereText pieces ++ Sql.render d j back := by
    rw [List.append_assoc]
    obtain ⟨i', first⟩ := render_append (d := d) begins.balanced (fun n => (unticked n).1.1) i
      (whereText tests ++ back)
    rw [first]
    unfold whereText at unticked ⊢
    by_cases none : tests = []
    · subst none
      exact ⟨i', [], .nil, by simp⟩
    · simp only [if_neg none] at unticked ⊢
      rw [List.append_assoc]
      have calm (numbered : d.numbersPlaceholders = true) : '\x60' ∉ joined tests :=
        fun found => (unticked numbered).1.2 (List.mem_append_right _ found)
      obtain ⟨j, second⟩ := render_append (d := d) (a := " WHERE ".toList) (by decide)
        (fun _ => by decide) i' (joined tests ++ back)
      obtain ⟨k, third⟩ := render_append (d := d) (balanced_joined worded) calm j back
      obtain ⟨pieces, each, same⟩ := joined_render (d := d) worded
        (fun numbered t found ticked => calm numbered (mem_joined found ticked)) j
      have some : pieces ≠ [] := by
        rintro rfl
        cases each
        exact none rfl
      refine ⟨k, pieces, each, ?_⟩
      have keyword : Sql.render d i' " WHERE ".toList = " WHERE ".toList :=
        render_of_notMem (by decide) i'
      rw [second, third, same, keyword, if_neg some]
      simp
  obtain ⟨j, pieces, each, same⟩ := clause
  have between : ∀ t ∈ pieces, Worded testStarts true t false := by
    have calm (numbered : d.numbersPlaceholders = true) (t : List Char) (known : t ∈ tests) :
        '\x60' ∉ t := by
      have nonempty : tests ≠ [] := List.ne_nil_of_mem known
      have whole := (unticked numbered).1.2
      rw [whereText, if_neg nonempty] at whole
      exact fun ticked => whole (List.mem_append_right _ (mem_joined known ticked))
    exact fun piece found => worded_of_renders worded calm each piece found
  refine ⟨pieces, each, Sql.render d i front, Sql.render d j back, same, ?_, between, ends.render j, ?_⟩
  · exact begins.render (by decide) (by decide) (fun n => (unticked n).1.1) i
  · exact absent.render (by decide) (by decide) (fun n => (unticked n).2) j

end Rendering
end EagerLoad.Sql
