import EagerLoad.Json.Parser
import EagerLoad.Json.Printer

/-! # Reading quoted strings

What is written for a string is read as that string, up to its closing quote and no further. -/
namespace EagerLoad.Json

theorem hexValue?_hexDigit {n : Nat} (h : n < 16) : hexValue? (hexDigit n) = some n := by
  have each : ∀ n < 16, hexValue? (hexDigit n) = some n := by decide
  exact each n h

/-- A control character is read from its number. -/
theorem readUnicode?_control {c : Char} (control : c.toNat < 32) (rest : List Char) :
    readUnicode? ('0' :: '0' :: hexDigit (c.toNat / 16) :: hexDigit (c.toNat % 16) :: rest) =
      some (c, rest) := by
  have zero : hexValue? '0' = some 0 := by decide
  have number : ((0 * 16 + 0) * 16 + c.toNat / 16) * 16 + c.toNat % 16 = c.toNat := by omega
  have hex : readHex4? ('0' :: '0' :: hexDigit (c.toNat / 16) :: hexDigit (c.toNat % 16) :: rest) =
      some (c.toNat, rest) := by
    rw [readHex4?, zero, hexValue?_hexDigit (by omega), hexValue?_hexDigit (by omega)]
    simp only [Option.bind_eq_bind, Option.bind_some, number]
  have trail : isTrailSurrogate c.toNat = false := by simp [isTrailSurrogate]; omega
  have lead : isLeadSurrogate c.toNat = false := by simp [isLeadSurrogate]; omega
  rw [readUnicode?, hex]
  simp [trail, lead, Char.ofNat_toNat]

/-- Every character is read from its escape in one step. -/
theorem readStringBody?_escape (fuel : Nat) (read : List Char) (c : Char) (rest : List Char) :
    readStringBody? (fuel + 1) read (escape c ++ rest) = readStringBody? fuel (c :: read) rest := by
  have short (e : Char) (plain : e ≠ 'u') (means : unescape? e = some c) :
      readStringBody? (fuel + 1) read ('\\' :: e :: rest) =
        readStringBody? fuel (c :: read) rest := by
    rw [readStringBody?, if_neg (by decide), if_pos rfl]
    · simp [means]
    · exact plain
  unfold escape
  split
  · rename_i same
    exact short '\x22' (by decide) (by rw [same]; rfl)
  split
  · rename_i same
    exact short '\\' (by decide) (by rw [same]; rfl)
  split
  · rename_i same
    exact short 'b' (by decide) (by rw [same]; rfl)
  split
  · rename_i same
    exact short 't' (by decide) (by rw [same]; rfl)
  split
  · rename_i same
    exact short 'n' (by decide) (by rw [same]; rfl)
  split
  · rename_i same
    exact short 'f' (by decide) (by rw [same]; rfl)
  split
  · rename_i same
    exact short 'r' (by decide) (by rw [same]; rfl)
  split
  · rename_i control
    rw [List.cons_append, readStringBody?.eq_def]
    simp [readUnicode?_control control]
  · rename_i quote slash _ _ _ _ _ printed
    rw [List.singleton_append, readStringBody?.eq_def]
    simp [quote, slash, printed]

theorem readStringBody?_quoted (cs read : List Char) {fuel : Nat} (enough : cs.length < fuel)
    (rest : List Char) :
    readStringBody? fuel read (cs.flatMap escape ++ '\x22' :: rest) =
      some (String.ofList (read.reverse ++ cs), rest) := by
  induction cs generalizing fuel read with
  | nil =>
    obtain ⟨fuel, rfl⟩ := Nat.exists_eq_succ_of_ne_zero (Nat.ne_of_gt enough)
    rw [List.flatMap_nil, List.nil_append, readStringBody?.eq_def]
    simp
  | cons c cs ih =>
    rw [List.length_cons] at enough
    obtain ⟨fuel, rfl⟩ := Nat.exists_eq_succ_of_ne_zero (Nat.ne_of_gt (Nat.zero_lt_of_lt enough))
    rw [List.flatMap_cons, List.append_assoc, readStringBody?_escape, ih _ (by omega)]
    simp

theorem length_le_flatMap_escape (cs : List Char) : cs.length ≤ (cs.flatMap escape).length := by
  have one (c : Char) : 1 ≤ (escape c).length := by
    unfold escape
    repeat' split
    all_goals simp
  induction cs with
  | nil => simp
  | cons c cs ih =>
    have here := one c
    simp only [List.flatMap_cons, List.length_append, List.length_cons]
    omega

theorem quote_toList (s : String) :
    (quote s).toList = '\x22' :: (s.toList.flatMap escape ++ ['\x22']) := by
  rw [quote, String.toList_ofList]

/-- After its opening quote a written string is read back. -/
theorem readString?_quote (s : String) (rest : List Char) :
    readString? ((quote s).toList.tail ++ rest) = some (s, rest) := by
  have enough := length_le_flatMap_escape s.toList
  rw [quote_toList, List.tail_cons, List.append_assoc, List.singleton_append, readString?,
    readStringBody?_quoted]
  · simp
  · simp only [List.length_append, List.length_cons]
    omega

/-- A written string ends where its closing quote stands. -/
theorem quote_append_inj {s t : String} {x y : List Char}
    (same : (quote s).toList ++ x = (quote t).toList ++ y) : s = t ∧ x = y := by
  have tails : (quote s).toList.tail ++ x = (quote t).toList.tail ++ y := by
    simpa [quote_toList] using same
  have left := readString?_quote s x
  rw [tails, readString?_quote] at left
  simpa [eq_comm] using left

end EagerLoad.Json
