import EagerLoad.Bounds
import EagerLoad.Decimal.Reading
import EagerLoad.Json.Basic

/-! # Reading JSON text

The grammar is the strict one: no comments, no trailing commas, no leading zeros, no bare control
characters and no unpaired surrogates. Values nest at most 127 deep. Every reader returns the
value and the text that follows it. -/
namespace EagerLoad.Json

def nestingLimit : Nat := 127

def isBlank (c : Char) : Bool := c == ' ' || c == '\t' || c == '\n' || c == '\r'

def skipBlanks (cs : List Char) : List Char := cs.dropWhile isBlank

def digitValue (c : Char) : Nat := c.toNat - '0'.toNat

def hexValue? (c : Char) : Option Nat :=
  if c.isDigit then some (digitValue c)
  else if 'a' ≤ c ∧ c ≤ 'f' then some (c.toNat - 'a'.toNat + 10)
  else if 'A' ≤ c ∧ c ≤ 'F' then some (c.toNat - 'A'.toNat + 10)
  else none

def readHex4? : List Char → Option (Nat × List Char)
  | a :: b :: c :: d :: rest => do
    let a ← hexValue? a
    let b ← hexValue? b
    let c ← hexValue? c
    let d ← hexValue? d
    some (((a * 16 + b) * 16 + c) * 16 + d, rest)
  | _ => none

def isLeadSurrogate (n : Nat) : Bool := 0xD800 ≤ n && n < 0xDC00
def isTrailSurrogate (n : Nat) : Bool := 0xDC00 ≤ n && n < 0xE000

/-- The character after a backslash and a u; a surrogate must be followed by its partner. -/
def readUnicode? (cs : List Char) : Option (Char × List Char) := do
  let (n, rest) ← readHex4? cs
  if isTrailSurrogate n then none
  else if isLeadSurrogate n then
    match rest with
    | '\\' :: 'u' :: rest =>
      let (m, rest) ← readHex4? rest
      if isTrailSurrogate m then
        some (Char.ofNat (0x10000 + (n - 0xD800) * 0x400 + (m - 0xDC00)), rest)
      else none
    | _ => none
  else some (Char.ofNat n, rest)

def unescape? (c : Char) : Option Char :=
  if c = '\x22' then some '\x22'
  else if c = '\\' then some '\\'
  else if c = '/' then some '/'
  else if c = 'b' then some '\x08'
  else if c = 'f' then some '\x0c'
  else if c = 'n' then some '\n'
  else if c = 'r' then some '\r'
  else if c = 't' then some '\t'
  else none

/-- The rest of a string after its opening quote, and what follows its closing one. The fuel bounds
the characters read. -/
def readStringBody? : Nat → List Char → List Char → Option (String × List Char)
  | 0, _, _ => none
  | _ + 1, _, [] => none
  | fuel + 1, read, c :: rest =>
    if c = '\x22' then some (String.ofList read.reverse, rest)
    else if c = '\\' then
      match rest with
      | 'u' :: rest => do
        let (c, rest) ← readUnicode? rest
        readStringBody? fuel (c :: read) rest
      | e :: rest => do
        let c ← unescape? e
        readStringBody? fuel (c :: read) rest
      | [] => none
    else if c.toNat < 32 then none
    else readStringBody? fuel (c :: read) rest

def readString? (cs : List Char) : Option (String × List Char) :=
  readStringBody? (cs.length + 1) [] cs

/-- Digits are taken into the significand as long as it stays below two to the 64. -/
def significandLimit : Nat := Bounds.unsigned64

def takeDigits (significand : Nat) : List Char → Nat × List Char
  | [] => (significand, [])
  | c :: rest =>
    if c.isDigit then
      let next := significand * 10 + digitValue c
      if next < significandLimit then takeDigits next rest else (significand, c :: rest)
    else (significand, c :: rest)

def readExponent? (cs : List Char) : Option (Int × List Char) :=
  let (negative, cs) : Bool × List Char := match cs with
    | '+' :: rest => (false, rest)
    | '-' :: rest => (true, rest)
    | _ => (false, cs)
  let digits := cs.takeWhile Char.isDigit
  if digits.isEmpty then none
  else
    let n : Nat := digits.foldl (fun n c => n * 10 + digitValue c) 0
    some (if negative then -(n : Int) else n, cs.dropWhile Char.isDigit)

/-- The number of a sign, a significand and a power of ten, after an exponent if one follows. -/
def finishFloat? (negative : Bool) (significand : Nat) (exponent : Int) (cs : List Char) :
    Option (Json × List Char) := do
  let (exponent, rest) ← match cs with
    | 'e' :: rest | 'E' :: rest => do
      let (e, rest) ← readExponent? rest
      some (exponent + e, rest)
    | _ => some (exponent, cs)
  let x ← Decimal.read? significand exponent
  some (float (if negative then x.neg else x), rest)

/-- A fraction, an exponent or the end of a number. Each digit of the fraction lowers the power of
ten by one until one no longer fits; those after it are dropped. -/
def readFraction? (negative : Bool) (significand : Nat) (exponent : Int) (cs : List Char) :
    Option (Json × List Char) :=
  match cs with
  | '.' :: rest =>
    let (taken, dropped) := takeDigits significand rest
    let places := rest.length - dropped.length
    if places = 0 ∧ (dropped.head?.map Char.isDigit).getD false = false then none
    else finishFloat? negative taken (exponent - places) (dropped.dropWhile Char.isDigit)
  | _ => finishFloat? negative significand exponent cs

/-- A number. Without fraction and exponent it is whole if it fits into 64 bits, signed when
negative; a negative zero is a floating point number. -/
def readNumber? (negative : Bool) (cs : List Char) : Option (Json × List Char) :=
  match cs with
  | [] => none
  | '0' :: rest =>
    if (rest.head?.map Char.isDigit).getD false then none else readWhole 0 rest
  | c :: _ =>
    if c.isDigit then
      let (significand, rest) := takeDigits 0 cs
      let excess := rest.takeWhile Char.isDigit
      if excess.isEmpty then readWhole significand rest
      else readFraction? negative significand excess.length (rest.dropWhile Char.isDigit)
    else none
where
  readWhole (significand : Nat) (rest : List Char) : Option (Json × List Char) :=
    match rest with
    | '.' :: _ | 'e' :: _ | 'E' :: _ => readFraction? negative significand 0 rest
    | _ =>
      if negative then
        if significand = 0 ∨ Bounds.signed64 < significand then
          some (float (Binary64.ofNat significand).neg, rest)
        else some (int (-(significand : Int)), rest)
      else some (int significand, rest)

def readWord? (word : List Char) (cs : List Char) : Option (List Char) :=
  if word.isPrefixOf cs then some (cs.drop word.length) else none

mutual

/-- A value after blanks. The fuel bounds the tokens read and `depth` the nesting left. -/
def readValue? : Nat → Nat → List Char → Option (Json × List Char)
  | 0, _, _ => none
  | fuel + 1, depth, cs =>
    match skipBlanks cs with
    | [] => none
    | c :: rest =>
      if c = '\x22' then (readString? rest).map fun (s, rest) => (str s, rest)
      else if c = '[' then
        match depth with
        | 0 => none
        | depth + 1 =>
          match skipBlanks rest with
          | ']' :: rest => some (arr [], rest)
          | _ => (readItems? fuel depth rest).map fun (items, rest) => (arr items, rest)
      else if c = '\x7b' then
        match depth with
        | 0 => none
        | depth + 1 =>
          match skipBlanks rest with
          | '\x7d' :: rest => some (obj [], rest)
          | _ => (readFields? fuel depth rest).map fun (fields, rest) => (obj fields, rest)
      else if c = 'n' then (readWord? ['u', 'l', 'l'] rest).map fun rest => (null, rest)
      else if c = 't' then (readWord? ['r', 'u', 'e'] rest).map fun rest => (bool true, rest)
      else if c = 'f' then (readWord? ['a', 'l', 's', 'e'] rest).map fun rest => (bool false, rest)
      else if c = '-' then readNumber? true rest
      else readNumber? false (c :: rest)

def readItems? : Nat → Nat → List Char → Option (List Json × List Char)
  | 0, _, _ => none
  | fuel + 1, depth, cs => do
    let (item, rest) ← readValue? fuel depth cs
    match skipBlanks rest with
    | ']' :: rest => some ([item], rest)
    | ',' :: rest =>
      let (items, rest) ← readItems? fuel depth rest
      some (item :: items, rest)
    | _ => none

def readFields? : Nat → Nat → List Char → Option (List (String × Json) × List Char)
  | 0, _, _ => none
  | fuel + 1, depth, cs =>
    match skipBlanks cs with
    | '\x22' :: rest => do
      let (name, rest) ← readString? rest
      match skipBlanks rest with
      | ':' :: rest =>
        let (value, rest) ← readValue? fuel depth rest
        match skipBlanks rest with
        | '\x7d' :: rest => some ([(name, value)], rest)
        | ',' :: rest =>
          let (fields, rest) ← readFields? fuel depth rest
          some ((name, value) :: fields, rest)
        | _ => none
      | _ => none
    | _ => none

end

/-- Reads a whole text, the fields of its objects in the order of the text. -/
def parseInOrder? (s : String) : Option Json := do
  let (value, rest) ← readValue? (2 * s.length + 2) nestingLimit s.toList
  if (skipBlanks rest).isEmpty then some value else none

def parse? (s : String) : Option Json := (parseInOrder? s).map canonical

end EagerLoad.Json
