/-! # Placeholders in SQL text

Placeholders are the question marks, and the dollar signs before a digit, that stand outside quotes.
A scan keeps in which region of the text it is. -/
namespace EagerLoad.Sql

/-- Where a character of a text stands. -/
inductive Region where
  | plain
  | literal
  | name
deriving DecidableEq, Repr

/-- The region after a character. An apostrophe bounds a literal and a name quote a name; inside one
of them the other kind of quote counts for nothing. -/
def Region.next (isNameQuote : Char → Bool) (r : Region) (c : Char) : Region :=
  match r with
  | plain => if c = '\x27' then literal else if isNameQuote c then name else plain
  | literal => if c = '\x27' then plain else literal
  | name => if isNameQuote c then plain else name

def isDoubleQuote (c : Char) : Bool := c == '\x22'

def isNameQuote (c : Char) : Bool := c == '\x22' || c == '\x60'

/-- Numbers the question marks outside quotes, counting on from `index`. -/
def numberFrom : Region → Nat → List Char → List Char
  | _, _, [] => []
  | r, index, c :: rest =>
    if r = .plain ∧ c = '?' then
      '$' :: (Nat.toDigits 10 (index + 1) ++ numberFrom r (index + 1) rest)
    else c :: numberFrom (r.next isDoubleQuote c) index rest

/-- Turns the question marks of a text into numbered placeholders. -/
def numberPlaceholders (sql : String) : String := String.ofList (numberFrom .plain 0 sql.toList)

/-- Whether a placeholder begins with the character, given the text after it. -/
def isPlaceholder (c : Char) (rest : List Char) : Bool :=
  c == '?' || (c == '$' && (rest.head?.map Char.isDigit).getD false)

def countFrom : Region → List Char → Nat
  | _, [] => 0
  | r, c :: rest =>
    (if r = .plain ∧ isPlaceholder c rest then 1 else 0) + countFrom (r.next isNameQuote c) rest

/-- The number of placeholders of either form. -/
def countPlaceholders (sql : String) : Nat := countFrom .plain sql.toList

end EagerLoad.Sql
