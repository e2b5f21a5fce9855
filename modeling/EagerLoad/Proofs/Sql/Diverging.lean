import EagerLoad.Proofs.Sql.Numbered

/-! # Texts that diverge

Two texts diverge at the first character in which they differ. If it is a question mark in neither, they
are different as finished statements too, whatever follows. -/
namespace EagerLoad.Sql

/-- Whether two texts differ somewhere, and have no question mark there. -/
def diverge : List Char → List Char → Bool
  | c :: x, d :: y => if c = d then diverge x y else c != '?' && d != '?'
  | _, _ => false

theorem diverge_comm (a b : List Char) : diverge a b = diverge b a := by
  induction a generalizing b with
  | nil => cases b <;> rfl
  | cons c x ih => cases b with
    | nil => rfl
    | cons d y =>
      rw [diverge, diverge]
      by_cases same : c = d
      · rw [if_pos same, if_pos same.symm, ih]
      · rw [if_neg same, if_neg (Ne.symm same), Bool.and_comm]

@[simp] theorem diverge_append (front a b : List Char) :
    diverge (front ++ a) (front ++ b) = diverge a b := by
  induction front with
  | nil => rfl
  | cons c front ih => rw [List.cons_append, List.cons_append, diverge, if_pos rfl, ih]

/-- What follows does not bring texts together again. -/
theorem diverge_more {a b : List Char} (h : diverge a b = true) (x y : List Char) :
    diverge (a ++ x) (b ++ y) = true := by
  induction a generalizing b with
  | nil => exact absurd h (by simp [diverge])
  | cons c a ih => cases b with
    | nil => exact absurd h (by simp [diverge])
    | cons d b =>
      rw [diverge] at h
      rw [List.cons_append, List.cons_append, diverge]
      split at h
      · rename_i same
        rw [if_pos same]
        exact ih h
      · rename_i other
        rw [if_neg other]
        exact h

theorem numberFrom_ne_of_diverge {a b : List Char} (h : diverge a b = true) (r : Region) (i : Nat) :
    numberFrom r i a ≠ numberFrom r i b := by
  induction a generalizing b r i with
  | nil => exact absurd h (by simp [diverge])
  | cons c a ih => cases b with
    | nil => exact absurd h (by simp [diverge])
    | cons d b =>
      rw [diverge] at h
      split at h
      · rename_i same
        rw [← same, numberFrom, numberFrom]
        split
        · intro equal
          exact ih h r (i + 1) (List.append_cancel_left (List.cons.inj equal).2)
        · intro equal
          exact ih h _ i (List.cons.inj equal).2
      · rename_i other
        simp only [Bool.and_eq_true, bne_iff_ne, ne_eq] at h
        rw [numberFrom, if_neg fun sign => h.1 sign.2, numberFrom, if_neg fun sign => h.2 sign.2]
        exact fun equal => other (List.cons.inj equal).1

theorem render_ne_of_diverge {a b : List Char} (h : diverge a b = true) (d : Dialect) (i : Nat) :
    render d i a ≠ render d i b := by
  unfold render
  split
  · exact numberFrom_ne_of_diverge h _ i
  · rintro rfl
    have never (c : List Char) : diverge c c = false := by
      have ends : diverge [] [] = false := rfl
      rw [← List.append_nil c, diverge_append, ends]
    exact absurd h (by simp [never])

theorem quoteMark_ne (d : Dialect) : d.quoteMark ≠ '?' ∧ d.quoteMark ≠ '(' ∧ d.quoteMark ≠ '_' := by
  cases d <;> simp [Dialect.quoteMark]

/-- A quoted name and a longer one diverge at the quote mark that ends the shorter, unless the longer goes
on with a mark. -/
theorem diverge_quote (d : Dialect) (name : String) {more : String} {c : Char} {rest : List Char}
    (shape : more.toList = c :: rest) (plain : c ≠ d.quoteMark) (known : c ≠ '?') (x y : List Char) :
    diverge ((d.quote name).toList ++ x) ((d.quote (name ++ more)).toList ++ y) = true := by
  simp only [Dialect.quote, String.toList_ofList, String.toList_append, shape, List.flatMap_append,
    List.flatMap_cons, if_neg plain, List.cons_append, List.append_assoc, diverge, if_true,
    diverge_append, List.nil_append, if_neg (Ne.symm plain)]
  simp [(quoteMark_ne d).1, known]

theorem diverge_quote_paren (d : Dialect) (name : String) (x y : List Char) :
    diverge ((d.quote name).toList ++ x) ('(' :: y) = true := by
  obtain ⟨question, paren, -⟩ := quoteMark_ne d
  rw [Dialect.quote, String.toList_ofList, List.cons_append, diverge, if_neg paren]
  simp [question]

namespace Draft

variable {d : Dialect}

/-- The parts after the first of some follow separators. -/
theorem text_separated_append {items : List Draft} (some : items ≠ []) (separator : String)
    (more : List Draft) :
    text d (separated separator (items ++ more)) = text d (separated separator items) ++
      more.flatMap fun item => separator.toList ++ text d item := by
  have cons (item : Draft) (rest : List Draft) : text d (separated separator (item :: rest)) =
      text d item ++ rest.flatMap fun item => separator.toList ++ text d item := by
    induction rest generalizing item with
    | nil => simp [separated]
    | cons next rest ih =>
      rw [separated, text_append, text_cons, ih next, List.flatMap_cons]
      · simp [Step.sql]
      · simp
  cases items with
  | nil => exact absurd rfl some
  | cons item rest =>
    rw [List.cons_append, cons, cons, List.flatMap_append, List.append_assoc]

/-- Whether two lists begin with items whose texts diverge, or only one of them has items. -/
def Diverging (d : Dialect) : List Draft → List Draft → Prop
  | a :: _, b :: _ => diverge (text d a) (text d b) = true
  | [], [] => False
  | _, _ => True

theorem Diverging.symm {a b : List Draft} (h : Diverging d a b) : Diverging d b a := by
  cases a with
  | nil => cases b with
    | nil => exact h
    | cons _ _ => trivial
  | cons _ _ => cases b with
    | nil => trivial
    | cons _ _ => exact (diverge_comm _ _).trans h

/-- Lists that go on differently diverge if what follows them does not begin like a separator. -/
theorem diverge_separated {items more other : List Draft} {separator : String} {x y : List Char}
    (some : items ≠ [] ∨ more ≠ [] ∧ other ≠ []) (diverging : Diverging d more other)
    (ends : ∀ z, diverge x (separator.toList ++ z) = true)
    (otherEnds : ∀ z, diverge y (separator.toList ++ z) = true) :
    diverge (text d (separated separator (items ++ more)) ++ x)
      (text d (separated separator (items ++ other)) ++ y) = true := by
  have head (item : Draft) (rest : List Draft) (z : List Char) :
      text d (separated separator (item :: rest)) ++ z =
        text d item ++ ((rest.flatMap fun item => separator.toList ++ text d item) ++ z) := by
    have shape := text_separated_append (d := d) (List.cons_ne_nil item []) separator rest
    rw [List.singleton_append] at shape
    rw [shape, List.append_assoc, separated]
  by_cases none : items = []
  · obtain ⟨someMore, someOther⟩ := some.resolve_left (absurd none ·)
    obtain ⟨a, rest, rfl⟩ := List.exists_cons_of_ne_nil someMore
    obtain ⟨b, rest', rfl⟩ := List.exists_cons_of_ne_nil someOther
    rw [none, List.nil_append, List.nil_append, head, head]
    exact diverge_more diverging _ _
  · rw [text_separated_append none, text_separated_append none, List.append_assoc, List.append_assoc,
      diverge_append]
    cases more with
    | nil => cases other with
      | nil => exact absurd diverging id
      | cons b rest =>
        rw [List.flatMap_nil, List.nil_append, List.flatMap_cons, List.append_assoc, List.append_assoc]
        exact ends _
    | cons a rest => cases other with
      | nil =>
        rw [diverge_comm, List.flatMap_nil, List.nil_append, List.flatMap_cons, List.append_assoc,
          List.append_assoc]
        exact otherEnds _
      | cons b rest' =>
        rw [List.flatMap_cons, List.flatMap_cons, List.append_assoc, List.append_assoc,
          List.append_assoc, List.append_assoc, diverge_append]
        exact diverge_more diverging _ _

end Draft
end EagerLoad.Sql
