import EagerLoad.Proofs.Sql.Written

/-! # The tokens of a text

A text is read as runs outside of quotes, names and literals. Two quotes in a row within quotes of their
kind stand for one, so what is spelled here keeps names and literals apart. -/
namespace EagerLoad.Sql

inductive Token where
  | run (text : List Char)
  | name (contents : List Char)
  | literal (contents : List Char)
deriving DecidableEq, Repr

def Token.quoted (quote : Char) (contents : List Char) : Token :=
  if quote = '\x27' then .literal contents else .name contents

/-- Puts a text outside of quotes before some tokens. -/
def Token.addTo (text : List Char) : List Token → List Token
  | .run rest :: tokens => .run (text ++ rest) :: tokens
  | tokens => .run text :: tokens

/-- The tokens of a text with the given mark for names, none if a quote stays open. A quote may already
be open, with its contents up to here. -/
def tokensFrom (mark : Char) : Option (Char × List Char) → List Char → Option (List Token)
  | none, [] => some []
  | some _, [] => none
  | none, c :: rest =>
    if c = '\x27' ∨ c = mark then tokensFrom mark (some (c, [])) rest
    else (tokensFrom mark none rest).map (Token.addTo [c])
  | some (quote, contents), c :: rest =>
    if c ≠ quote then tokensFrom mark (some (quote, contents ++ [c])) rest
    else match rest with
      | [] => some [.quoted quote contents]
      | next :: others =>
        if next = quote then tokensFrom mark (some (quote, contents ++ [quote])) others
        else (tokensFrom mark none (next :: others)).map (Token.quoted quote contents :: ·)

def tokens? (d : Dialect) (sql : String) : Option (List Token) :=
  tokensFrom d.quoteMark none sql.toList

example : tokens? .sqlite "SELECT \x22a\x22\x22b\x22, 'it''s' FROM \x22t\x22" =
    some [.run "SELECT ".toList, .name "a\x22b".toList, .run ", ".toList, .literal "it's".toList,
      .run " FROM ".toList, .name "t".toList] := by
  decide +kernel

/-- The words around the literals of empty arrays, those of limits, the signs of placeholders and those
around a counted statement. -/
def otherWords : List String :=
  ["), ", "::json)", "COALESCE(CONCAT(", ", GROUP_CONCAT(", " SEPARATOR ", " LIMIT ", " OFFSET ",
    " LIMIT -1", " LIMIT 18446744073709551615", "?", "$", "SELECT COUNT(*) AS ", " FROM ("]

/-- The words outside of quotes. -/
def fixedWords : List String :=
  vocabulary.filter (fun word => !word.toList.contains '\x27') ++ (constantTests ++ otherWords)

/-- A text of fixed words and numbers, in which nothing of a caller's can stand. -/
inductive Fixed : List Char → Prop where
  | nil : Fixed []
  | word {word : String} {rest : List Char} (known : word ∈ fixedWords) :
      Fixed rest → Fixed (word.toList ++ rest)
  | number (n : Nat) {rest : List Char} : Fixed rest → Fixed (Nat.toDigits 10 n ++ rest)

/-- The literals of the empty array and of its parts. -/
def arrayLiterals : List String := ["[]", "[", "]", ","]

/-- Whether a token is fixed, or a valid name, or a literal that is a part of an array or a valid name. -/
def Token.Safe : Token → Prop
  | run text => Fixed text
  | name contents => Identifier.isValid (String.ofList contents) = true
  | literal contents => String.ofList contents ∈ arrayLiterals ∨
      Identifier.isValid (String.ofList contents) = true

/-- Whether all quotes of a text are closed and all that it holds is safe. -/
def QuotesNames (d : Dialect) (sql : String) : Prop :=
  ∃ tokens, tokens? d sql = some tokens ∧ ∀ token ∈ tokens, token.Safe

theorem fixed_of_vocabulary {word : String} (known : word ∈ vocabulary)
    (plain : word.toList.contains '\x27' = false) : word ∈ fixedWords :=
  List.mem_append_left _ (List.mem_filter.mpr ⟨known, by rw [plain]; rfl⟩)

theorem fixed_of_test {word : String} (known : word ∈ constantTests) : word ∈ fixedWords :=
  List.mem_append_right _ (List.mem_append_left _ known)

theorem fixed_of_other {word : String} (known : word ∈ otherWords) : word ∈ fixedWords :=
  List.mem_append_right _ (List.mem_append_right _ known)

/-- What holds of all words holds of those outside of quotes. -/
private theorem forall_fixedWords {holds : String → Prop} (first : ∀ word ∈ vocabulary,
      word.toList.contains '\x27' = false → holds word)
    (second : ∀ word ∈ constantTests ++ otherWords, holds word) : ∀ word ∈ fixedWords, holds word := by
  intro word known
  obtain known | known := List.mem_append.mp known
  · obtain ⟨listed, plain⟩ := List.mem_filter.mp known
    exact first word listed (by simpa using plain)
  · exact second word known

theorem Fixed.append {a b : List Char} (ha : Fixed a) (hb : Fixed b) : Fixed (a ++ b) := by
  induction ha with
  | nil => exact hb
  | word known _ ih =>
    rw [List.append_assoc]
    exact .word known ih
  | number n _ ih =>
    rw [List.append_assoc]
    exact .number n ih

theorem fixed_word (word : String) (known : word ∈ fixedWords) : Fixed word.toList := by
  have alone := Fixed.word known .nil
  rwa [List.append_nil] at alone

/-- Whether a character is a quote of any kind. -/
def isQuote (c : Char) : Bool := c == '\x27' || isNameQuote c

private theorem words_unquoted :
    ∀ word ∈ fixedWords, word.toList.all (fun c => !isQuote c) = true :=
  forall_fixedWords (by decide +kernel) (by decide +kernel)

/-- Only the sign of a placeholder asks. -/
theorem word_of_question : ∀ word ∈ fixedWords, '?' ∈ word.toList → word = "?" :=
  forall_fixedWords (by decide +kernel) (by decide +kernel)

theorem Fixed.unquoted {text : List Char} (h : Fixed text) : ∀ c ∈ text, isQuote c = false := by
  induction h with
  | nil => simp
  | word known _ ih =>
    intro c found
    obtain here | there := List.mem_append.mp found
    · simpa using List.all_eq_true.mp (words_unquoted _ known) c here
    · exact ih c there
  | number n _ ih =>
    intro c found
    obtain here | there := List.mem_append.mp found
    · have digit : c.isDigit = true := Nat.isDigit_of_mem_toDigits (by omega) (by omega) here
      have other (quote : Char) (h : quote.isDigit = false) : (c == quote) = false := by
        rw [beq_eq_false_iff_ne]
        rintro rfl
        exact absurd digit (by simp [h])
      simp [isQuote, isNameQuote, other '\x27' rfl, other '\x22' rfl, other '\x60' rfl]
    · exact ih c there

/-- A text spelled from fixed runs, valid names and safe literals. A quote may have been closed right
before it; then it does not open one. -/
inductive Spelled (mark : Char) : Bool → List Char → Prop where
  | nil (closed : Bool) : Spelled mark closed []
  | run {closed : Bool} {text rest : List Char} (some : text ≠ []) (fixed : Fixed text) :
      Spelled mark false rest → Spelled mark closed (text ++ rest)
  | name {name : String} {rest : List Char} (valid : Identifier.fault? name = none) :
      Spelled mark true rest → Spelled mark false (mark :: (name.toList ++ mark :: rest))
  | literal {text : String} {rest : List Char}
      (known : text ∈ arrayLiterals ∨ Identifier.fault? text = none) :
      Spelled mark true rest → Spelled mark false ('\x27' :: (text.toList ++ '\x27' :: rest))

namespace Spelled

variable {mark : Char} {closed : Bool} {a b text : List Char}

theorem loosen (h : Spelled mark true text) (closed : Bool) : Spelled mark closed text := by
  cases h with
  | nil => exact .nil closed
  | run some fixed rest => exact .run some fixed rest

theorem append (ha : Spelled mark closed a) (hb : Spelled mark true b) :
    Spelled mark closed (a ++ b) := by
  induction ha with
  | nil closed => exact hb.loosen closed
  | run some fixed _ ih =>
    rw [List.append_assoc]
    exact .run some fixed ih
  | name valid _ ih =>
    rw [List.cons_append, List.append_assoc, List.cons_append]
    exact .name valid ih
  | literal known _ ih =>
    rw [List.cons_append, List.append_assoc, List.cons_append]
    exact .literal known ih

theorem word (word : String) {rest : List Char} (known : word ∈ fixedWords) (some : word ≠ "")
    (h : Spelled mark false rest) : Spelled mark closed (word.toList ++ rest) :=
  .run (by simpa using some) (fixed_word word known) h

/-- After a closed quote there is none of its kind. -/
theorem unquoted (h : Spelled mark true text) : ∀ c rest, text = c :: rest → isQuote c = false := by
  rintro c rest rfl
  generalize shape : c :: rest = whole at h
  cases h with
  | nil => exact absurd shape (by simp)
  | @run _ run others some fixed _ =>
    cases run with
    | nil => exact absurd rfl some
    | cons first more =>
      obtain ⟨rfl, -⟩ := List.cons.inj shape
      exact fixed.unquoted c List.mem_cons_self

end Spelled

section Reading

variable {mark : Char} {text : List Char}

theorem addTo_addTo (a b : List Char) (tokens : List Token) :
    Token.addTo a (Token.addTo b tokens) = Token.addTo (a ++ b) tokens := by
  cases tokens with
  | nil => rfl
  | cons token rest => cases token <;> simp [Token.addTo]

theorem safe_addTo {tokens : List Token} (fixed : Fixed text) (h : ∀ token ∈ tokens, token.Safe) :
    ∀ token ∈ Token.addTo text tokens, token.Safe := by
  cases tokens with
  | nil =>
    intro token found
    obtain rfl := List.mem_singleton.mp found
    exact fixed
  | cons token rest =>
    cases token with
    | run more =>
      intro other found
      obtain rfl | found := List.mem_cons.mp found
      · exact fixed.append (h (.run more) List.mem_cons_self)
      · exact h other (List.mem_cons_of_mem _ found)
    | name contents | literal contents =>
      intro other found
      obtain rfl | found := List.mem_cons.mp found
      · exact fixed
      · exact h other found

/-- A text without quotes is one run with what follows it. -/
theorem tokensFrom_run (some : text ≠ []) (unquoted : ∀ c ∈ text, isQuote c = false)
    (known : isQuote mark = true) (rest : List Char) :
    tokensFrom mark none (text ++ rest) = (tokensFrom mark none rest).map (Token.addTo text) := by
  induction text with
  | nil => exact absurd rfl some
  | cons c more ih =>
    have outside : ¬(c = '\x27' ∨ c = mark) := by
      have free := unquoted c List.mem_cons_self
      rintro (rfl | rfl)
      · exact absurd free (by decide)
      · exact absurd free (by simp [known])
    rw [List.cons_append, tokensFrom, if_neg outside]
    cases more with
    | nil => rfl
    | cons next others =>
      rw [ih (by simp) fun x found => unquoted x (List.mem_cons_of_mem c found), Option.map_map]
      congr 1
      funext tokens
      exact addTo_addTo [c] (next :: others) tokens

private theorem tokensFrom_within {quote c : Char} (inside : c ≠ quote) (contents rest : List Char) :
    tokensFrom mark (some (quote, contents)) (c :: rest) =
      tokensFrom mark (some (quote, contents ++ [c])) rest := by
  cases rest <;> simp [tokensFrom, inside]

private theorem tokensFrom_closing (quote next : Char) (single : next ≠ quote)
    (contents others : List Char) :
    tokensFrom mark (some (quote, contents)) (quote :: next :: others) =
      (tokensFrom mark none (next :: others)).map (Token.quoted quote contents :: ·) := by
  simp [tokensFrom, single]

/-- Quoted contents are one token if they hold no quote of their kind and none follows at once. -/
theorem tokensFrom_quoted {quote : Char} {contents rest : List Char} (absent : quote ∉ contents)
    (single : ∀ next others, rest = next :: others → next ≠ quote) (before : List Char) :
    tokensFrom mark (some (quote, before)) (contents ++ quote :: rest) =
      (tokensFrom mark none rest).map (Token.quoted quote (before ++ contents) :: ·) := by
  induction contents generalizing before with
  | nil =>
    rw [List.nil_append, List.append_nil]
    cases rest with
    | nil => simp [tokensFrom]
    | cons next others =>
      exact tokensFrom_closing quote next (single next others rfl) before others
  | cons c more ih =>
    rw [List.mem_cons, not_or] at absent
    rw [List.cons_append, tokensFrom_within (Ne.symm absent.1), ih absent.2]
    simp

end Reading

theorem mark_notMem {name : String} (valid : Identifier.fault? name = none) {quote : Char}
    (known : isQuote quote = true) : quote ∉ name.toList := by
  intro found
  have allowed := isAllowed_of_fault?_eq_none name valid quote found
  simp only [isQuote, isNameQuote, Bool.or_eq_true, beq_iff_eq] at known
  obtain rfl | rfl | rfl := known <;> exact absurd allowed (by decide)

/-- A spelled text is read as safe tokens. -/
theorem Spelled.tokens {mark : Char} {closed : Bool} {text : List Char}
    (known : isNameQuote mark = true) (h : Spelled mark closed text) :
    ∃ tokens, tokensFrom mark none text = some tokens ∧ ∀ token ∈ tokens, token.Safe := by
  have quote : isQuote mark = true := by simp [isQuote, known]
  have apart : mark ≠ '\x27' := by
    rintro rfl
    exact absurd known (by decide)
  induction h with
  | nil => exact ⟨[], rfl, by simp⟩
  | run some fixed _ ih =>
    obtain ⟨tokens, read, safe⟩ := ih
    refine ⟨Token.addTo _ tokens, ?_, safe_addTo fixed safe⟩
    rw [tokensFrom_run some fixed.unquoted quote, read]
    rfl
  | @name name rest valid follows ih =>
    obtain ⟨tokens, read, safe⟩ := ih
    refine ⟨.name name.toList :: tokens, ?_, ?_⟩
    · rw [tokensFrom, if_pos (.inr rfl), tokensFrom_quoted (mark_notMem valid quote), read]
      · simp [Token.quoted, apart]
      · rintro next others shape rfl
        exact absurd (follows.unquoted _ _ shape) (by simp [quote])
    · simp only [List.mem_cons, forall_eq_or_imp]
      exact ⟨by simp [Token.Safe, Identifier.isValid, valid], safe⟩
  | @literal contents rest known follows ih =>
    obtain ⟨tokens, read, safe⟩ := ih
    refine ⟨.literal contents.toList :: tokens, ?_, ?_⟩
    · have absent : '\x27' ∉ contents.toList := by
        obtain array | valid := known
        · have parts : ∀ part ∈ arrayLiterals, '\x27' ∉ part.toList := by decide
          exact parts contents array
        · exact mark_notMem valid rfl
      rw [tokensFrom, if_pos (.inl rfl), tokensFrom_quoted absent, read]
      · simp [Token.quoted]
      · rintro next others shape rfl
        exact absurd (follows.unquoted _ _ shape) (by decide)
    · simp only [List.mem_cons, forall_eq_or_imp]
      refine ⟨?_, safe⟩
      rw [Token.Safe, String.ofList_toList]
      exact known.imp_right fun valid => by simp [Identifier.isValid, valid]

theorem isNameQuote_quoteMark (d : Dialect) : isNameQuote d.quoteMark = true := by cases d <;> rfl

theorem Spelled.quotesNames {d : Dialect} {sql : String} (h : Spelled d.quoteMark false sql.toList) :
    QuotesNames d sql :=
  h.tokens (isNameQuote_quoteMark d)

end EagerLoad.Sql
