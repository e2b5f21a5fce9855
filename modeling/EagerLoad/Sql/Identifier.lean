/-! # Identifiers

Names of tables, columns and aliases reach the text of a statement only after this check. Values
never do: they are bound to placeholders. -/
namespace EagerLoad

inductive IdentifierFault where
  | empty
  | tooLong (name : String)
  | invalidCharacter (name : String) (character : Char)
  | leadingDigit (name : String)
deriving DecidableEq, Repr

namespace Identifier

/-- The longest name, in bytes. -/
def maxLength : Nat := 63

/-- Letters and digits of ASCII, the underscore and the dollar sign. -/
def isAllowed (c : Char) : Bool := c.isAlphanum || c == '_' || c == '$'

def fault? (name : String) : Option IdentifierFault :=
  match name.toList with
  | [] => some .empty
  | first :: rest =>
    if maxLength < name.utf8ByteSize then some (.tooLong name)
    else match (first :: rest).find? (fun c => !isAllowed c) with
      | some c => some (.invalidCharacter name c)
      | none => if first.isDigit then some (.leadingDigit name) else none

/-- Whether a name may be quoted into a statement. -/
def isValid (name : String) : Bool := (fault? name).isNone

end Identifier

def IdentifierFault.message : IdentifierFault → String
  | empty => "identifier cannot be empty"
  | tooLong name =>
    "'" ++ name ++ "' is too long (max " ++ toString Identifier.maxLength ++ " characters)"
  | invalidCharacter name c => "'" ++ name ++ "' contains invalid character '" ++ c.toString ++ "'"
  | leadingDigit name => "'" ++ name ++ "' cannot start with a number"

end EagerLoad
