import EagerLoad.Proofs.Sql.Tokens

/-! # Items between commas

The columns of a select list and the arguments of a call are read back from the tokens of their text: items
with commas between them. An item begins and ends with a quote, so that no comma runs into it. -/
namespace EagerLoad.Sql

/-- What stands between two items. -/
def Token.comma : Token := .run ", ".toList

/-- A column that a text gives out under a name, with the alias that it is read from. -/
structure Shown where
  name : String
  source : String
  column : String
deriving DecidableEq, Repr

/-- The column of a list. Without a new name it keeps its own. -/
def Shown.item? : List Token → Option Shown
  | [.name source, .run ['.'], .name column] =>
    some ⟨String.ofList column, String.ofList source, String.ofList column⟩
  | [.name source, .run ['.'], .name column, .run [' ', 'A', 'S', ' '], .name name] =>
    some ⟨String.ofList name, String.ofList source, String.ofList column⟩
  | _ => none

/-- The columns of an object, each after a literal that names it. -/
def Shown.entries? : List (List Token) → Option (List Shown)
  | [] => some []
  | [.literal name] :: [.name source, .run ['.'], .name column] :: rest =>
    (entries? rest).map (⟨String.ofList name, String.ofList source, String.ofList column⟩ :: ·)
  | _ => none

/-- The arguments of a call to a function. -/
def arguments? (function : String) : List Token → Option (List (List Token))
  | [.run call] => if call = (function ++ "()").toList then some [] else none
  | .run opening :: rest =>
    if opening = (function ++ "(").toList ∧ rest.getLast? = some (.run [')']) then
      some (rest.dropLast.splitOn .comma)
    else none
  | _ => none

/-- The columns that a select list gives out. -/
def listShown? (d : Dialect) (sql : String) : Option (List Shown) :=
  (tokens? d sql).bind fun tokens =>
    if tokens.isEmpty then some [] else (tokens.splitOn .comma).mapM Shown.item?

/-- The columns that a JSON object gives out. -/
def objectShown? (d : Dialect) (sql : String) : Option (List Shown) :=
  ((tokens? d sql).bind (arguments? d.objectFunction)).bind Shown.entries?

example : objectShown? .sqlite "json_object('id', \x22r\x22.\x22id\x22, 'title', \x22t\x22.\x22title\x22)" =
    some [⟨"id", "r", "id"⟩, ⟨"title", "t", "title"⟩] := by
  decide +kernel

/-- Whether the first token is in quotes. -/
def Begins (tokens : List Token) : Prop := ∃ first rest, tokens = first :: rest ∧ ∀ run, first ≠ .run run

/-- Whether a text that begins and ends with quotes is read as the tokens, wherever no quote follows it. -/
structure Lexed (mark : Char) (text : List Char) (tokens : List Token) : Prop where
  begins : Begins tokens
  reads : ∀ rest, (∀ next others, rest = next :: others → isQuote next = false) →
    tokensFrom mark none (text ++ rest) = (tokensFrom mark none rest).map (tokens ++ ·)

theorem Begins.addTo {tokens : List Token} (begins : Begins tokens) (run : List Char)
    (rest : List Token) : Token.addTo run (tokens ++ rest) = .run run :: (tokens ++ rest) := by
  obtain ⟨first, others, rfl, quoted⟩ := begins
  cases first with
  | run other => exact absurd rfl (quoted other)
  | name _ | literal _ => rfl

namespace Lexed

variable {d : Dialect} {mark : Char} {a b run : List Char} {xs ys : List Token}

theorem join (known : isQuote mark = true) (ha : Lexed mark a xs) (hb : Lexed mark b ys) (some : run ≠ [])
    (unquoted : ∀ c ∈ run, isQuote c = false) : Lexed mark (a ++ run ++ b) (xs ++ .run run :: ys) where
  begins := by
    obtain ⟨first, rest, rfl, quoted⟩ := ha.begins
    exact ⟨first, rest ++ .run run :: ys, rfl, quoted⟩
  reads rest single := by
    have follows : ∀ next others, run ++ (b ++ rest) = next :: others → isQuote next = false := by
      intro next others shape
      obtain ⟨first, more, rfl⟩ := List.exists_cons_of_ne_nil some
      obtain ⟨rfl, -⟩ := List.cons.inj shape
      exact unquoted first List.mem_cons_self
    rw [List.append_assoc, List.append_assoc, ha.reads _ follows, tokensFrom_run some unquoted known,
      hb.reads rest single, Option.map_map, Option.map_map]
    congr 1
    funext tokens
    simp [hb.begins.addTo]

theorem whole {sql : String} (h : Lexed d.quoteMark sql.toList xs) : tokens? d sql = some xs := by
  have read := h.reads [] (by simp)
  simpa [tokens?, tokensFrom] using read

/-- What stands in parentheses is read apart from what calls it. -/
theorem call {opening : String} {sql : String} (h : Lexed d.quoteMark a xs)
    (unquoted : ∀ c ∈ opening.toList, isQuote c = false) (some : opening ≠ "")
    (shape : sql.toList = opening.toList ++ (a ++ [')'])) :
    tokens? d sql = Option.some (.run opening.toList :: (xs ++ [.run [')']])) := by
  have known : isQuote d.quoteMark = true := by simp [isQuote, isNameQuote_quoteMark]
  have closing : tokensFrom d.quoteMark none [')'] = Option.some [.run [')']] := by
    cases d <;> rfl
  have single : ∀ next others, [')'] = next :: others → isQuote next = false := by
    rintro next others ⟨⟩
    rfl
  rw [tokens?, shape, tokensFrom_run (by simpa using some) unquoted known, h.reads _ single, closing,
    Option.map_some, Option.map_some, h.begins.addTo]

/-- A valid name in quotes of a kind is a token of that kind. -/
theorem quoted {quote : Char} {name : String} (known : isQuote quote = true)
    (opens : quote = '\x27' ∨ quote = mark) (valid : Identifier.fault? name = none) :
    Lexed mark (quote :: (name.toList ++ [quote])) [.quoted quote name.toList] where
  begins := by
    refine ⟨_, [], rfl, fun run same => ?_⟩
    unfold Token.quoted at same
    split at same <;> exact absurd same (by simp)
  reads rest single := by
    have shape : quote :: (name.toList ++ [quote]) ++ rest = quote :: (name.toList ++ quote :: rest) := by
      simp
    rw [shape, tokensFrom, if_pos opens, tokensFrom_quoted (mark_notMem valid known)]
    · rfl
    · rintro next others follows rfl
      exact absurd (single _ _ follows) (by simp [known])

theorem name {name : String} (valid : Identifier.fault? name = none) :
    Lexed d.quoteMark (d.quote name).toList [.name name.toList] := by
  have known : isQuote d.quoteMark = true := by simp [isQuote, isNameQuote_quoteMark]
  have named : Token.quoted d.quoteMark name.toList = .name name.toList := by cases d <;> rfl
  rw [quote_of_valid d name valid, ← named]
  exact quoted known (.inr rfl) valid

theorem qualified {table column : String} (validTable : Identifier.fault? table = none)
    (validColumn : Identifier.fault? column = none) :
    Lexed d.quoteMark ((Draft.qualified table column).text d)
      [.name table.toList, .run ['.'], .name column.toList] := by
  have known : isQuote d.quoteMark = true := by simp [isQuote, isNameQuote_quoteMark]
  have whole := (name validTable).join known (name validColumn) (List.cons_ne_nil '.' [])
    (by simp [isQuote, isNameQuote])
  simpa [Draft.qualified, Step.sql] using whole

end Lexed

private theorem unquoted_append {a b : String} (ha : ∀ c ∈ a.toList, isQuote c = false)
    (hb : ∀ c ∈ b.toList, isQuote c = false) : ∀ c ∈ (a ++ b).toList, isQuote c = false := by
  intro c found
  rw [String.toList_append, List.mem_append] at found
  exact found.elim (ha c) (hb c)

private theorem append_ne_empty {a b : String} (some : b ≠ "") : a ++ b ≠ "" := by
  intro same
  rw [String.append_eq_empty_iff] at same
  exact some same.2

/-- A call without arguments. -/
theorem arguments_empty {d : Dialect} {function sql : String} (unquoted : ∀ c ∈ function.toList, isQuote c = false)
    (shape : sql.toList = (function ++ "()").toList) : (tokens? d sql).bind (arguments? function) = some [] := by
  have known : isQuote d.quoteMark = true := by simp [isQuote, isNameQuote_quoteMark]
  have call : ∀ c ∈ (function ++ "()").toList, isQuote c = false :=
    unquoted_append unquoted (by simp [isQuote, isNameQuote])
  have some : (function ++ "()").toList ≠ [] := by simp
  have whole := tokensFrom_run some call known []
  rw [List.append_nil] at whole
  rw [tokens?, shape, whole]
  simp [tokensFrom, Token.addTo, arguments?]

/-- Whether a text is read as items with commas between them. -/
structure Listed (mark : Char) (text : List Char) (items : List (List Token)) : Prop where
  present : items ≠ []
  whole : ∀ item ∈ items, .comma ∉ item
  lexed : Lexed mark text ([Token.comma].intercalate items)

private theorem intercalate_append {sep : List α} {xs ys : List (List α)} (left : xs ≠ [])
    (right : ys ≠ []) :
    sep.intercalate (xs ++ ys) = sep.intercalate xs ++ (sep ++ sep.intercalate ys) := by
  induction xs with
  | nil => exact absurd rfl left
  | cons x rest ih =>
    cases rest with
    | nil =>
      obtain ⟨y, others, rfl⟩ := List.exists_cons_of_ne_nil right
      simp [List.intercalate]
    | cons next rest =>
      have later := ih (by simp)
      simp only [List.intercalate, List.cons_append, List.intersperse_cons_cons, List.flatten_cons] at later ⊢
      rw [later]
      simp only [List.append_assoc]

namespace Listed

variable {d : Dialect} {mark : Char} {a b text : List Char} {xs ys items : List (List Token)}

theorem single {item : List Token} (lexed : Lexed mark a item) (whole : .comma ∉ item) :
    Listed mark a [item] where
  present := by simp
  whole := by simpa using whole
  lexed := by simpa [List.intercalate] using lexed

theorem append (known : isQuote mark = true) (ha : Listed mark a xs) (hb : Listed mark b ys) :
    Listed mark (a ++ ", ".toList ++ b) (xs ++ ys) where
  present := by simp [ha.present]
  whole item found := (List.mem_append.mp found).elim (ha.whole item) (hb.whole item)
  lexed := by
    rw [intercalate_append ha.present hb.present]
    exact ha.lexed.join known hb.lexed (by decide) (by simp [isQuote, isNameQuote])

/-- Drafts that are read as items are read as all their items when they are listed. -/
theorem separated {draft : α → Draft} {items : α → List (List Token)} {entries : List α}
    (each : ∀ x ∈ entries, Listed d.quoteMark ((draft x).text d) (items x)) (present : entries ≠ []) :
    Listed d.quoteMark ((Draft.separated ", " (entries.map draft)).text d) (entries.flatMap items) := by
  have known : isQuote d.quoteMark = true := by simp [isQuote, isNameQuote_quoteMark]
  induction entries with
  | nil => exact absurd rfl present
  | cons x rest ih =>
    obtain ⟨here, later⟩ := List.forall_mem_cons.mp each
    cases rest with
    | nil => simpa [Draft.separated] using here
    | cons next rest =>
      have whole := here.append known (ih later (by simp))
      rw [List.map_cons, Draft.separated, Draft.text_append, Draft.text_cons, ← List.append_assoc]
      · exact whole
      · simp

/-- Listed items are told apart by their commas. -/
theorem splitOn (h : Listed mark text items) :
    ([Token.comma].intercalate items).splitOn .comma = items :=
  List.splitOn_intercalate _ h.whole h.present

/-- What stands between the parentheses of a call are its arguments. -/
theorem arguments {function sql : String} (h : Listed d.quoteMark text items)
    (unquoted : ∀ c ∈ function.toList, isQuote c = false)
    (shape : sql.toList = (function ++ "(").toList ++ (text ++ [')'])) :
    (tokens? d sql).bind (arguments? function) = some items := by
  have opening : ∀ c ∈ (function ++ "(").toList, isQuote c = false :=
    unquoted_append unquoted (by simp [isQuote, isNameQuote])
  have called : function ++ "(" ≠ "" := append_ne_empty (by decide)
  rw [h.lexed.call opening called shape, Option.bind_some, arguments?]
  · rw [if_pos ⟨rfl, List.getLast?_concat⟩, List.dropLast_concat, h.splitOn]
  · simp

end Listed
end EagerLoad.Sql
