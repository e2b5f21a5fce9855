import EagerLoad.Decimal.Shortest
import EagerLoad.Json.Basic

/-! # Compact JSON text

No blanks are written. A string escapes the quote, the backslash and the control characters; all
else is written as it is. A floating point number always shows a point or an exponent. -/
namespace EagerLoad.Json

/-- Numbers from ten to the -5 up to ten to the 15 have a plain point; a tie goes to the even
digit. -/
def numberStyle : Decimal.Style := ⟨some (-5, 15), true, .toEven⟩

def hexDigit (n : Nat) : Char := Nat.digitChar n

def escape (c : Char) : List Char :=
  if c = '\x22' then ['\\', '\x22']
  else if c = '\\' then ['\\', '\\']
  else if c = '\x08' then ['\\', 'b']
  else if c = '\t' then ['\\', 't']
  else if c = '\n' then ['\\', 'n']
  else if c = '\x0c' then ['\\', 'f']
  else if c = '\r' then ['\\', 'r']
  else if c.toNat < 32 then ['\\', 'u', '0', '0', hexDigit (c.toNat / 16), hexDigit (c.toNat % 16)]
  else [c]

def quote (s : String) : String :=
  String.ofList ('\x22' :: (s.toList.flatMap escape ++ ['\x22']))

/-- An infinity or a NaN has no JSON number. -/
def numberText (x : Binary64) : String :=
  if x.isFinite then Decimal.text numberStyle x else "null"

mutual

/-- The text of a value, its fields in the order of the list. -/
def text : Json → String
  | null => "null"
  | bool true => "true"
  | bool false => "false"
  | int i => toString i
  | float x => numberText x
  | str s => quote s
  | arr items => "[" ++ itemsText items ++ "]"
  | obj fields => "\x7b" ++ fieldsText fields ++ "\x7d"

def itemsText : List Json → String
  | [] => ""
  | [item] => item.text
  | item :: rest => item.text ++ "," ++ itemsText rest

def fieldsText : List (String × Json) → String
  | [] => ""
  | [(name, value)] => quote name ++ ":" ++ value.text
  | (name, value) :: rest => quote name ++ ":" ++ value.text ++ "," ++ fieldsText rest

end

end EagerLoad.Json
