import EagerLoad.Proofs.Decimal.Text
import EagerLoad.Proofs.Json.Strings
import EagerLoad.Proofs.Text

/-! # JSON texts are unambiguous

The first character of a value's text shows what kind of value it is, and a text ends before the comma or
the bracket after it. So values without infinities and NaNs that have the same text are the same. -/
namespace EagerLoad.Json

mutual

/-- Whether every floating point number of a value has a JSON number. -/
def isFinite : Json → Bool
  | float x => x.isFinite
  | arr items => itemsFinite items
  | obj fields => fieldsFinite fields
  | _ => true

def itemsFinite : List Json → Bool
  | [] => true
  | item :: rest => item.isFinite && itemsFinite rest

def fieldsFinite : List (String × Json) → Bool
  | [] => true
  | (_, value) :: rest => value.isFinite && fieldsFinite rest

end

theorem itemsFinite_iff {items : List Json} :
    itemsFinite items = true ↔ ∀ item ∈ items, item.isFinite = true := by
  induction items with
  | nil => simp [itemsFinite]
  | cons item rest ih => simp [itemsFinite, ih]

/-- What a value looks like from its first character. -/
inductive Form where
  | null
  | bool
  | number
  | str
  | arr
  | obj
deriving DecidableEq

def form : Json → Form
  | null => .null
  | bool _ => .bool
  | int _ | float _ => .number
  | str _ => .str
  | arr _ => .arr
  | obj _ => .obj

def formOf? (c : Char) : Option Form :=
  if c = 'n' then some .null
  else if c = 't' ∨ c = 'f' then some .bool
  else if c = '\x22' then some .str
  else if c = '[' then some .arr
  else if c = '\x7b' then some .obj
  else if Decimal.isNumeral c then some .number
  else none

theorem formOf?_numeral {c : Char} (h : Decimal.isNumeral c = true) : formOf? c = some .number := by
  have other (x : Char) (hx : Decimal.isNumeral x = false) : c ≠ x := by
    rintro rfl
    exact absurd h (by simp [hx])
  simp [formOf?, h, other 'n' (by decide), other 't' (by decide), other 'f' (by decide),
    other '\x22' (by decide), other '[' (by decide), other '\x7b' (by decide)]

/-- A comma or a closing bracket. -/
def IsStop (c : Char) : Prop := c = ',' ∨ c = ']' ∨ c = '\x7d'

theorem IsStop.form {c : Char} (h : IsStop c) : formOf? c = none := by
  obtain rfl | rfl | rfl := h <;> decide

theorem IsStop.not_numeral {c : Char} (h : IsStop c) : Decimal.isNumeral c = false := by
  obtain rfl | rfl | rfl := h <;> decide

section Numbers

theorem natDigits_digits (n : Nat) : ∀ c ∈ (Nat.repr n).toList, c.isDigit = true := by
  intro c found
  rw [Nat.repr, String.toList_ofList] at found
  exact Nat.isDigit_of_mem_toDigits (by omega) (by omega) found

theorem natDigits_inj {m n : Nat} (same : Nat.repr m = Nat.repr n) : m = n := by
  have digits := congrArg String.toList same
  simp only [Nat.repr, String.toList_ofList] at digits
  have read (k : Nat) : Nat.ofDigitChars 10 (Nat.toDigits 10 k) 0 = k :=
    Nat.ofDigitChars_toDigits (by decide) (by decide)
  rw [← read m, digits, read]

theorem int_ofNat_text (n : Nat) : toString (Int.ofNat n) = Nat.repr n := rfl

theorem int_negSucc_text (n : Nat) :
    (toString (Int.negSucc n)).toList = '-' :: (Nat.repr (n + 1)).toList := by
  have shape : toString (Int.negSucc n) = "-" ++ Nat.repr (n + 1) := rfl
  rw [shape, String.toList_append]
  rfl

theorem int_inj {i j : Int} (same : toString i = toString j) : i = j := by
  have mixed (m n : Nat) : toString (Int.ofNat m) ≠ toString (Int.negSucc n) := by
    intro same
    have minus : '-' ∈ (Nat.repr m).toList := by
      rw [← int_ofNat_text, same, int_negSucc_text]
      exact List.mem_cons_self
    exact absurd (natDigits_digits m '-' minus) (by decide)
  cases i with
  | ofNat m => cases j with
    | ofNat n => exact congrArg Int.ofNat (natDigits_inj same)
    | negSucc n => exact absurd same (mixed m n)
  | negSucc m => cases j with
    | ofNat n => exact absurd same.symm (mixed n m)
    | negSucc n =>
      have digits := congrArg String.toList same
      rw [int_negSucc_text, int_negSucc_text] at digits
      have successors := natDigits_inj (String.toList_injective (List.cons.inj digits).2)
      rw [Nat.succ.inj successors]

theorem int_ne_blank (i : Int) : toString i ≠ "" := by
  cases i with
  | ofNat n =>
    rw [int_ofNat_text, Nat.repr]
    simp
  | negSucc n =>
    intro blank
    have empty := int_negSucc_text n
    rw [blank] at empty
    exact absurd empty (by simp)

/-- A whole number has neither a point nor an exponent. -/
theorem int_numeral (i : Int) : ∀ c ∈ (toString i).toList,
    Decimal.isNumeral c = true ∧ c ≠ '.' ∧ c ≠ 'e' := by
  have digit {cs : List Char} (h : ∀ c ∈ cs, c.isDigit = true) :
      ∀ c ∈ cs, Decimal.isNumeral c = true ∧ c ≠ '.' ∧ c ≠ 'e' := by
    intro c found
    have here := h c found
    refine ⟨by simp [Decimal.isNumeral, here], ?_, ?_⟩ <;>
    · rintro rfl
      exact absurd here (by decide)
  cases i with
  | ofNat n => exact digit (natDigits_digits n)
  | negSucc n =>
    rw [int_negSucc_text]
    intro c found
    obtain rfl | found := List.mem_cons.mp found
    · decide
    · exact digit (natDigits_digits (n + 1)) c found

theorem float_numeral (x : Binary64) :
    (∀ c ∈ (Decimal.text numberStyle x).toList, Decimal.isNumeral c = true) ∧
      ('.' ∈ (Decimal.text numberStyle x).toList ∨ 'e' ∈ (Decimal.text numberStyle x).toList) ∧
      Decimal.text numberStyle x ≠ "" := by
  obtain ⟨nonempty, digits⟩ := Decimal.shortest_digits numberStyle.tie x
  obtain ⟨c, rest, shape, -⟩ := Decimal.Digits.layout_head nonempty digits numberStyle
  have style : numberStyle.pointed = true := rfl
  have pointed := Decimal.Digits.layout_pointed (d := Decimal.shortest numberStyle.tie x) style
  have numeral := Decimal.Digits.layout_numeral digits numberStyle
  have nonblank : Decimal.text numberStyle x ≠ "" := by
    intro blank
    have lists := congrArg String.toList blank
    rw [Decimal.text, String.toList_ofList] at lists
    split at lists
    · exact absurd lists (by simp)
    · exact absurd lists (by simp [shape])
  refine ⟨?_, ?_, nonblank⟩ <;> rw [Decimal.text, String.toList_ofList] <;> split
  · intro c found
    obtain rfl | found := List.mem_cons.mp found
    · decide
    · exact numeral c found
  · exact numeral
  · exact pointed.imp (List.mem_cons_of_mem '-') (List.mem_cons_of_mem '-')
  · exact pointed

/-- The text of a number in JSON. -/
theorem number_text {a : Json} (finite : a.isFinite = true) (number : a.form = .number) :
    (∃ i, a = int i ∧ a.text = toString i) ∨
      ∃ x, a = float x ∧ a.text = Decimal.text numberStyle x := by
  cases a with
  | int i => exact .inl ⟨i, rfl, by rw [text]⟩
  | float x =>
    have whole : x.isFinite = true := finite
    exact .inr ⟨x, rfl, by rw [text, numberText, if_pos whole]⟩
  | _ => exact nomatch number

theorem number_numeral {a : Json} (finite : a.isFinite = true) (number : a.form = .number) :
    ∀ c ∈ a.text.toList, Decimal.isNumeral c = true := by
  obtain ⟨i, -, shape⟩ | ⟨x, -, shape⟩ := number_text finite number <;> rw [shape]
  · exact fun c found => (int_numeral i c found).1
  · exact (float_numeral x).1

theorem number_inj {a b : Json} (finite : a.isFinite = true) (other : b.isFinite = true)
    (number : a.form = .number) (second : b.form = .number) (same : a.text = b.text) : a = b := by
  have whole (i : Int) (x : Binary64) : toString i ≠ Decimal.text numberStyle x := by
    intro same
    obtain point | power := (float_numeral x).2.1
    · exact (int_numeral i '.' (same ▸ point)).2.1 rfl
    · exact (int_numeral i 'e' (same ▸ power)).2.2 rfl
  obtain ⟨i, rfl, left⟩ | ⟨x, rfl, left⟩ := number_text finite number <;>
    obtain ⟨j, rfl, right⟩ | ⟨y, rfl, right⟩ := number_text other second <;>
    rw [left, right] at same
  · exact congrArg int (int_inj same)
  · exact absurd same (whole i y)
  · exact absurd same.symm (whole j x)
  · exact congrArg float (Decimal.text_inj same)

end Numbers

/-- The first character of a value's text shows its form. -/
theorem exists_head {a : Json} (finite : a.isFinite = true) :
    ∃ c rest, a.text.toList = c :: rest ∧ formOf? c = some a.form := by
  have number (n : a.form = .number) : ∃ c rest, a.text.toList = c :: rest ∧
      formOf? c = some a.form := by
    have nonblank : a.text ≠ "" := by
      obtain ⟨i, -, shape⟩ | ⟨x, -, shape⟩ := number_text finite n <;> rw [shape]
      · exact int_ne_blank i
      · exact (float_numeral x).2.2
    obtain ⟨c, rest, shape⟩ := List.exists_cons_of_ne_nil (mt String.toList_eq_nil_iff.mp nonblank)
    have numeral := number_numeral finite n c (shape ▸ List.mem_cons_self)
    exact ⟨c, rest, shape, n ▸ formOf?_numeral numeral⟩
  cases a with
  | null => exact ⟨'n', "ull".toList, rfl, by decide⟩
  | bool b => cases b with
    | false => exact ⟨'f', "alse".toList, rfl, by decide⟩
    | true => exact ⟨'t', "rue".toList, rfl, by decide⟩
  | int i => exact number rfl
  | float x => exact number rfl
  | str s => exact ⟨'\x22', _, by rw [text, quote_toList], rfl⟩
  | arr items =>
    exact ⟨'[', (itemsText items).toList ++ [']'], by simp [text], rfl⟩
  | obj fields =>
    exact ⟨'\x7b', (fieldsText fields).toList ++ ['\x7d'], by simp [text], rfl⟩

theorem form_eq {a b : Json} (finite : a.isFinite = true) (other : b.isFinite = true)
    {x y : List Char} (same : a.text.toList ++ x = b.text.toList ++ y) : a.form = b.form := by
  obtain ⟨c, rest, left, first⟩ := exists_head finite
  obtain ⟨d, rest', right, second⟩ := exists_head other
  rw [left, right] at same
  obtain ⟨rfl, -⟩ := List.cons.inj same
  exact Option.some.inj (first.symm.trans second)

/-- A number ends before the stop after it. -/
theorem number_append_inj {a b : Json} (finite : a.isFinite = true) (other : b.isFinite = true)
    (number : a.form = .number) {x y : List Char} (stop : ∃ c back, x = c :: back ∧ IsStop c)
    (stopOther : ∃ c back, y = c :: back ∧ IsStop c)
    (same : a.text.toList ++ x = b.text.toList ++ y) : a = b ∧ x = y := by
  have second : b.form = .number := (form_eq finite other same).symm.trans number
  obtain ⟨c, back, rfl, hc⟩ := stop
  obtain ⟨d, back', rfl, hd⟩ := stopOther
  obtain ⟨texts, rfl, backs⟩ := Text.cut_inj (fun c => Decimal.isNumeral c = false)
    (fun z found => by simp [number_numeral finite number z found])
    (fun z found => by simp [number_numeral other second z found]) hc.not_numeral hd.not_numeral same
  exact ⟨number_inj finite other number second (String.toList_injective texts), by rw [backs]⟩

/-- What follows an item: the bracket after the last one, a comma and the others else. -/
def itemsTail (x : List Char) : List Json → List Char
  | [] => ']' :: x
  | rest => ',' :: ((itemsText rest).toList ++ ']' :: x)

theorem itemsText_cons (item : Json) (rest : List Json) (x : List Char) :
    (itemsText (item :: rest)).toList ++ ']' :: x = item.text.toList ++ itemsTail x rest := by
  cases rest <;> simp [itemsText, itemsTail]

theorem itemsTail_stop (x : List Char) (rest : List Json) :
    ∃ c back, itemsTail x rest = c :: back ∧ IsStop c := by
  cases rest with
  | nil => exact ⟨']', x, rfl, .inr (.inl rfl)⟩
  | cons item rest => exact ⟨',', _, rfl, .inl rfl⟩

theorem itemsTail_inj {rest rest' : List Json} {x y : List Char}
    (inner : (itemsText rest).toList ++ ']' :: x = (itemsText rest').toList ++ ']' :: y →
      rest = rest' ∧ x = y)
    (same : itemsTail x rest = itemsTail y rest') : rest = rest' ∧ x = y := by
  cases rest <;> cases rest'
  · exact ⟨rfl, (List.cons.inj same).2⟩
  · exact absurd (List.cons.inj same).1 (by decide)
  · exact absurd (List.cons.inj same).1 (by decide)
  · exact inner (List.cons.inj same).2

def fieldsTail (x : List Char) : List (String × Json) → List Char
  | [] => '\x7d' :: x
  | rest => ',' :: ((fieldsText rest).toList ++ '\x7d' :: x)

theorem fieldsText_cons (name : String) (value : Json) (rest : List (String × Json))
    (x : List Char) : (fieldsText ((name, value) :: rest)).toList ++ '\x7d' :: x =
      (quote name).toList ++ ':' :: (value.text.toList ++ fieldsTail x rest) := by
  cases rest <;> simp [fieldsText, fieldsTail]

theorem fieldsTail_stop (x : List Char) (rest : List (String × Json)) :
    ∃ c back, fieldsTail x rest = c :: back ∧ IsStop c := by
  cases rest with
  | nil => exact ⟨'\x7d', x, rfl, .inr (.inr rfl)⟩
  | cons field rest => exact ⟨',', _, rfl, .inl rfl⟩

theorem fieldsTail_inj {rest rest' : List (String × Json)} {x y : List Char}
    (inner : (fieldsText rest).toList ++ '\x7d' :: x = (fieldsText rest').toList ++ '\x7d' :: y →
      rest = rest' ∧ x = y)
    (same : fieldsTail x rest = fieldsTail y rest') : rest = rest' ∧ x = y := by
  cases rest <;> cases rest'
  · exact ⟨rfl, (List.cons.inj same).2⟩
  · exact absurd (List.cons.inj same).1 (by decide)
  · exact absurd (List.cons.inj same).1 (by decide)
  · exact inner (List.cons.inj same).2

mutual

/-- Followed by stops, texts of different values never agree. -/
theorem text_append_inj : ∀ (a : Json) ⦃b : Json⦄, a.isFinite = true → b.isFinite = true →
    ∀ ⦃x y : List Char⦄,
    (∃ c back, x = c :: back ∧ IsStop c) → (∃ c back, y = c :: back ∧ IsStop c) →
    a.text.toList ++ x = b.text.toList ++ y → a = b ∧ x = y
  | .null => by
    intro b finite other x y _ _ same
    have form := form_eq finite other same
    cases b with
    | null => exact ⟨rfl, List.append_cancel_left same⟩
    | _ => exact nomatch form
  | .bool s => by
    intro b finite other x y _ _ same
    have form := form_eq finite other same
    cases b with
    | bool t =>
      cases s <;> cases t <;> simp [text] at same
      · exact ⟨rfl, same⟩
      · exact ⟨rfl, same⟩
    | _ => exact nomatch form
  | .int i => fun _ finite other _ _ => number_append_inj finite other rfl
  | .float f => fun _ finite other _ _ => number_append_inj finite other rfl
  | .str s => by
    intro b finite other x y _ _ same
    have form := form_eq finite other same
    cases b with
    | str t =>
      rw [text, text] at same
      obtain ⟨rfl, rest⟩ := quote_append_inj same
      exact ⟨rfl, rest⟩
    | _ => exact nomatch form
  | .arr items => by
    intro b finite other x y _ _ same
    have form := form_eq finite other same
    cases b with
    | arr others =>
      have inner : (itemsText items).toList ++ ']' :: x = (itemsText others).toList ++ ']' :: y := by
        simpa [text] using same
      obtain ⟨rfl, rest⟩ := items_append_inj items finite other inner
      exact ⟨rfl, rest⟩
    | _ => exact nomatch form
  | .obj fields => by
    intro b finite other x y _ _ same
    have form := form_eq finite other same
    cases b with
    | obj others =>
      have inner : (fieldsText fields).toList ++ '\x7d' :: x =
          (fieldsText others).toList ++ '\x7d' :: y := by
        simpa [text] using same
      obtain ⟨rfl, rest⟩ := fields_append_inj fields finite other inner
      exact ⟨rfl, rest⟩
    | _ => exact nomatch form

theorem items_append_inj : ∀ (items : List Json) ⦃others : List Json⦄, itemsFinite items = true →
    itemsFinite others = true → ∀ ⦃x y : List Char⦄,
    (itemsText items).toList ++ ']' :: x = (itemsText others).toList ++ ']' :: y →
      items = others ∧ x = y
  | [] => by
    intro others _ other x y same
    cases others with
    | nil => exact ⟨rfl, by simpa [itemsText] using same⟩
    | cons item rest =>
      obtain ⟨c, back, shape, form⟩ := exists_head (Bool.and_eq_true_iff.mp other).1
      rw [itemsText_cons, shape] at same
      obtain ⟨rfl, -⟩ := List.cons.inj same
      exact absurd form (by simp [IsStop.form (.inr (.inl rfl))])
  | item :: rest => by
    intro others finite other x y same
    obtain ⟨here, later⟩ := Bool.and_eq_true_iff.mp finite
    cases others with
    | nil =>
      obtain ⟨c, back, shape, form⟩ := exists_head here
      rw [itemsText_cons, shape] at same
      obtain ⟨rfl, -⟩ := List.cons.inj same
      exact absurd form (by simp [IsStop.form (.inr (.inl rfl))])
    | cons item' rest' =>
      obtain ⟨there, others⟩ := Bool.and_eq_true_iff.mp other
      rw [itemsText_cons, itemsText_cons] at same
      obtain ⟨rfl, tails⟩ := text_append_inj item here there (itemsTail_stop x rest)
        (itemsTail_stop y rest') same
      obtain ⟨rfl, rest⟩ := itemsTail_inj
        (fun inner => items_append_inj rest later others inner) tails
      exact ⟨rfl, rest⟩

theorem fields_append_inj : ∀ (fields : List (String × Json)) ⦃others : List (String × Json)⦄,
    fieldsFinite fields = true →
    fieldsFinite others = true → ∀ ⦃x y : List Char⦄,
    (fieldsText fields).toList ++ '\x7d' :: x = (fieldsText others).toList ++ '\x7d' :: y →
      fields = others ∧ x = y
  | [] => by
    intro others _ _ x y same
    cases others with
    | nil => exact ⟨rfl, by simpa [fieldsText] using same⟩
    | cons field rest =>
      rw [fieldsText_cons, quote_toList] at same
      exact absurd (List.cons.inj same).1 (by decide)
  | (name, value) :: rest => by
    intro others finite other x y same
    obtain ⟨here, later⟩ := Bool.and_eq_true_iff.mp finite
    cases others with
    | nil =>
      rw [fieldsText_cons, quote_toList] at same
      exact absurd (List.cons.inj same).1 (by decide)
    | cons field rest' =>
      obtain ⟨there, others⟩ := Bool.and_eq_true_iff.mp other
      rw [fieldsText_cons, fieldsText_cons] at same
      obtain ⟨rfl, contents⟩ := quote_append_inj same
      obtain ⟨rfl, tails⟩ := text_append_inj value here there (fieldsTail_stop x rest)
        (fieldsTail_stop y rest') (List.cons.inj contents).2
      obtain ⟨rfl, rest⟩ := fieldsTail_inj
        (fun inner => fields_append_inj rest later others inner) tails
      exact ⟨rfl, rest⟩

end

/-- Different values without infinities and NaNs have different texts. -/
theorem text_inj {a b : Json} (finite : a.isFinite = true) (other : b.isFinite = true)
    (same : a.text = b.text) : a = b := by
  have stop : ∃ c back, [','] = c :: back ∧ IsStop c := ⟨',', [], rfl, .inl rfl⟩
  exact (text_append_inj a finite other stop stop (by rw [same])).1

end EagerLoad.Json
