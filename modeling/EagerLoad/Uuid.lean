/-! # Universally unique identifiers

An identifier is thirty-two hexadecimal digits, written in groups of 8, 4, 4, 4 and 12. It is read
with or without the hyphens, in braces, or after the name of its scheme, in letters of any case. -/
namespace EagerLoad

structure Uuid where
  bits : BitVec 128
deriving DecidableEq, Repr, Inhabited

namespace Uuid

def nibble? (c : Char) : Option Nat :=
  if c.isDigit then some (c.toNat - '0'.toNat)
  else if 'a' ≤ c ∧ c ≤ 'f' then some (c.toNat - 'a'.toNat + 10)
  else if 'A' ≤ c ∧ c ≤ 'F' then some (c.toNat - 'A'.toNat + 10)
  else none

def readSimple? (cs : List Char) : Option Uuid := do
  if cs.length ≠ 32 then none
  let digits ← cs.mapM nibble?
  some ⟨BitVec.ofNat 128 (digits.foldl (fun n d => n * 16 + d) 0)⟩

def hyphens : List Nat := [8, 13, 18, 23]

def readHyphenated? (cs : List Char) : Option Uuid :=
  if cs.length ≠ 36 ∨ hyphens.any (fun i => cs[i]? ≠ some '-') then none
  else readSimple? (cs.zipIdx.filterMap fun (c, i) => if hyphens.contains i then none else some c)

def urnScheme : List Char := "urn:uuid:".toList

/-- The rest of a text after the name of the scheme, in letters of any case. -/
def afterScheme? (cs : List Char) : Option (List Char) :=
  if urnScheme.isPrefixOf (cs.map Char.toLower) then some (cs.drop urnScheme.length) else none

def parse? (s : String) : Option Uuid :=
  let cs := s.toList
  if cs.length = 32 then readSimple? cs
  else if cs.length = 36 then readHyphenated? cs
  else if cs.length = 38 ∧ cs.head? = some '\x7b' ∧ cs.getLast? = some '\x7d' then
    readHyphenated? (cs.drop 1).dropLast
  else (afterScheme? cs).bind readHyphenated?

def digits (u : Uuid) : List Char :=
  (List.range 32).map fun i => Nat.digitChar (u.bits.toNat / Nat.pow 16 (31 - i) % 16)

def text (u : Uuid) : String :=
  let d := u.digits
  String.ofList (d.take 8 ++ '-' :: ((d.drop 8).take 4 ++ '-' :: ((d.drop 12).take 4 ++
    '-' :: ((d.drop 16).take 4 ++ '-' :: d.drop 20))))

end Uuid
end EagerLoad
