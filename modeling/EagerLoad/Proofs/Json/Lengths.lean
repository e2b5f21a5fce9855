import EagerLoad.Proofs.Json.Unambiguous

/-! # How long strings are

A string is at most as long as the text that it is read from, and shorter than a list that it stands in. So no
text says the list of itself. -/
namespace EagerLoad.Json

variable {cs rest : List Char}

theorem length_readHex4? {n : Nat} (read : readHex4? cs = some (n, rest)) :
    rest.length + 4 = cs.length := by
  match cs, read with
  | a :: b :: c :: d :: later, read =>
    simp only [readHex4?, Option.bind_eq_bind, Option.bind_eq_some_iff] at read
    obtain ⟨_, -, _, -, _, -, _, -, same⟩ := read
    obtain ⟨-, rfl⟩ := Prod.mk.inj (Option.some.inj same)
    rfl

theorem length_readUnicode? {c : Char} (read : readUnicode? cs = some (c, rest)) :
    rest.length < cs.length := by
  rw [readUnicode?, Option.bind_eq_bind, Option.bind_eq_some_iff] at read
  obtain ⟨⟨n, after⟩, hex, read⟩ := read
  have first := length_readHex4? hex
  dsimp only at read
  split at read
  · contradiction
  split at read
  · split at read
    · rename_i partner
      obtain ⟨⟨m, last⟩, hex, read⟩ := Option.bind_eq_some_iff.mp read
      have second := length_readHex4? hex
      obtain ⟨-, same⟩ := Option.ite_none_right_eq_some.mp read
      obtain rfl : last = rest := (Prod.mk.inj (Option.some.inj same)).2
      rw [List.length_cons, List.length_cons] at first
      omega
    · contradiction
  · obtain ⟨-, rfl⟩ := Prod.mk.inj (Option.some.inj read)
    omega

/-- A string is at most as long as what it is read from. -/
theorem length_readStringBody? {fuel : Nat} {taken : List Char} {s : String}
    (read : readStringBody? fuel taken cs = some (s, rest)) :
    s.length + rest.length < taken.length + cs.length := by
  fun_induction readStringBody? fuel taken cs with
  | case1 => exact nomatch read
  | case2 => exact nomatch read
  | case3 fuel taken later =>
    obtain ⟨rfl, rfl⟩ := Prod.mk.inj (Option.some.inj read)
    rw [String.length_ofList, List.length_reverse, List.length_cons]
    omega
  | case4 fuel taken later _ ih =>
    obtain ⟨⟨c, after⟩, escaped, read⟩ := Option.bind_eq_some_iff.mp read
    have shorter := length_readUnicode? escaped
    have body := ih c after read
    simp only [List.length_cons] at body ⊢
    omega
  | case5 fuel taken e later _ _ ih =>
    obtain ⟨c, -, read⟩ := Option.bind_eq_some_iff.mp read
    have body := ih c read
    simp only [List.length_cons] at body ⊢
    omega
  | case6 => exact nomatch read
  | case7 => exact nomatch read
  | case8 fuel taken c later _ _ _ ih =>
    have body := ih read
    simp only [List.length_cons] at body ⊢
    omega

theorem length_skipBlanks (cs : List Char) : (skipBlanks cs).length ≤ cs.length :=
  (List.dropWhile_suffix isBlank).length_le

section Numbers

variable {negative : Bool} {significand : Nat} {v : Json}

theorem form_of_finishFloat? {exponent : Int}
    (read : finishFloat? negative significand exponent cs = some (v, rest)) : v.form = .number := by
  have last {e : Int} {after : List Char} (read : ((Decimal.read? significand e).bind fun x =>
      some (float (if negative then x.neg else x), after)) = some (v, rest)) : v.form = .number := by
    obtain ⟨x, -, same⟩ := Option.bind_eq_some_iff.mp read
    obtain rfl := (Prod.mk.inj (Option.some.inj same)).1
    rfl
  -- The sign is known first, so that the split below is the one on the exponent.
  cases negative with
  | _ =>
    simp only [finishFloat?, Option.bind_eq_bind, Option.bind_some] at read
    split at read
    · obtain ⟨_, -, read⟩ := Option.bind_eq_some_iff.mp read
      exact last read
    · obtain ⟨_, -, read⟩ := Option.bind_eq_some_iff.mp read
      exact last read
    · exact last read

theorem form_of_readFraction? {exponent : Int}
    (read : readFraction? negative significand exponent cs = some (v, rest)) : v.form = .number := by
  unfold readFraction? at read
  split at read
  · exact form_of_finishFloat? (Option.ite_none_left_eq_some.mp read).2
  · exact form_of_finishFloat? read

theorem form_of_readWhole (read : readNumber?.readWhole negative significand cs = some (v, rest)) :
    v.form = .number := by
  unfold readNumber?.readWhole at read
  split at read
  · exact form_of_readFraction? read
  · exact form_of_readFraction? read
  · exact form_of_readFraction? read
  · split at read
    · split at read <;> obtain rfl := (Prod.mk.inj (Option.some.inj read)).1 <;> rfl
    · obtain rfl := (Prod.mk.inj (Option.some.inj read)).1
      rfl

theorem form_of_readNumber? (read : readNumber? negative cs = some (v, rest)) : v.form = .number := by
  unfold readNumber? at read
  split at read
  · exact nomatch read
  · exact form_of_readWhole (Option.ite_none_left_eq_some.mp read).2
  · obtain ⟨-, read⟩ := Option.ite_none_right_eq_some.mp read
    dsimp only at read
    split at read
    · exact form_of_readWhole read
    · exact form_of_readFraction? read

end Numbers

variable {fuel depth : Nat}

theorem eq_of_map_word {x : Option (List Char)} {word v : Json}
    (read : (x.map fun rest => (word, rest)) = some (v, rest)) : v = word := by
  obtain ⟨_, -, same⟩ := Option.map_eq_some_iff.mp read
  exact (Prod.mk.inj same).1.symm

theorem eq_of_map_value {x : Option (α × List Char)} {build : α → Json} {v : Json}
    (read : (x.map fun found => (build found.1, found.2)) = some (v, rest)) :
    ∃ content, v = build content ∧ x = some (content, rest) := by
  obtain ⟨⟨content, after⟩, found, same⟩ := Option.map_eq_some_iff.mp read
  obtain ⟨rfl, rfl⟩ := Prod.mk.inj same
  exact ⟨content, rfl, found⟩

/-- What a text says is a string, a list or neither. -/
theorem readValue?_inv {v : Json} (read : readValue? fuel depth cs = some (v, rest)) :
    (∃ s later, v = .str s ∧ later.length < cs.length ∧ readString? later = some (s, rest)) ∨
      (∃ items fuel depth later, v = .arr items ∧ later.length < cs.length ∧
        (items = [] ∨ readItems? fuel depth later = some (items, rest))) ∨
      v.form ≠ .str ∧ v.form ≠ .arr := by
  have blanks := length_skipBlanks cs
  cases fuel with
  | zero => exact nomatch read
  | succ fuel =>
    rw [readValue?.eq_def] at read
    dsimp only at read
    split at read
    · exact nomatch read
    rename_i c later start
    have shorter : later.length < cs.length := by
      rw [start] at blanks
      exact blanks
    split at read
    · obtain ⟨s, rfl, body⟩ := eq_of_map_value read
      exact .inl ⟨s, later, rfl, shorter, body⟩
    split at read
    · split at read
      · exact nomatch read
      split at read
      · obtain ⟨rfl, rfl⟩ := Prod.mk.inj (Option.some.inj read)
        exact .inr (.inl ⟨[], fuel, 0, later, rfl, shorter, .inl rfl⟩)
      · obtain ⟨items, rfl, body⟩ := eq_of_map_value read
        exact .inr (.inl ⟨items, fuel, _, later, rfl, shorter, .inr body⟩)
    refine .inr (.inr ?_)
    split at read
    · split at read
      · exact nomatch read
      split at read
      · obtain ⟨rfl, -⟩ := Prod.mk.inj (Option.some.inj read)
        decide
      · obtain ⟨fields, rfl, -⟩ := eq_of_map_value read
        simp [form]
    split at read
    · rw [eq_of_map_word read]
      decide
    split at read
    · rw [eq_of_map_word read]
      decide
    split at read
    · rw [eq_of_map_word read]
      decide
    have number : v.form = .number := by
      split at read
      · exact form_of_readNumber? read
      · exact form_of_readNumber? read
    rw [number]
    decide

/-- A string is shorter than the value that it is read from. -/
theorem length_of_readValue? {s : String} (read : readValue? fuel depth cs = some (.str s, rest)) :
    s.length < cs.length := by
  obtain ⟨t, later, same, shorter, body⟩ | ⟨items, _, _, later, same, -⟩ | ⟨other, -⟩ :=
    readValue?_inv read
  · obtain rfl := Json.str.inj same
    have short := length_readStringBody? body
    rw [List.length_nil] at short
    omega
  · exact nomatch same
  · exact absurd rfl other

/-- The items of a list are read one after the other. -/
theorem exists_of_readItems? {items : List Json} (read : readItems? fuel depth cs = some (items, rest)) :
    ∃ first others fuel after, items = first :: others ∧
      readValue? fuel depth cs = some (first, after) := by
  cases fuel with
  | zero => exact nomatch read
  | succ fuel =>
    rw [readItems?.eq_def] at read
    obtain ⟨⟨first, after⟩, here, read⟩ := Option.bind_eq_some_iff.mp read
    dsimp only at read
    split at read
    · obtain ⟨rfl, -⟩ := Prod.mk.inj (Option.some.inj read)
      exact ⟨first, [], fuel, after, rfl, here⟩
    · obtain ⟨⟨others, last⟩, -, same⟩ := Option.bind_eq_some_iff.mp read
      obtain ⟨rfl, -⟩ := Prod.mk.inj (Option.some.inj same)
      exact ⟨first, others, fuel, after, rfl, here⟩
    · exact nomatch read

theorem form_canonical (v : Json) : v.canonical.form = v.form := by
  cases v <;> rfl

theorem eq_of_canonical_eq_str {v : Json} {s : String} (same : v.canonical = .str s) : v = .str s := by
  cases v with
  | str t => exact same
  | _ => exact nomatch same

/-- A text does not say the list of itself. -/
theorem parse?_ne_self (text : String) : parse? text ≠ some (.arr [.str text]) := by
  intro said
  obtain ⟨v, whole, same⟩ := Option.map_eq_some_iff.mp said
  obtain ⟨⟨w, after⟩, read, whole⟩ := Option.bind_eq_some_iff.mp whole
  obtain ⟨-, whole⟩ := Option.ite_none_right_eq_some.mp whole
  obtain rfl : w = v := Option.some.inj whole
  obtain ⟨s, _, rfl, -⟩ | ⟨items, fuel, depth, later, rfl, shorter, listed⟩ | ⟨-, other⟩ :=
    readValue?_inv read
  · exact nomatch same
  · have items := Json.arr.inj same
    obtain rfl | listed := listed
    · exact nomatch items
    · obtain ⟨first, others, fuel, after, rfl, here⟩ := exists_of_readItems? listed
      obtain rfl := eq_of_canonical_eq_str (List.cons.inj items).1
      have inside := length_of_readValue? here
      rw [String.length_toList] at shorter
      omega
  · rw [← form_canonical, same] at other
    exact other rfl

end EagerLoad.Json
