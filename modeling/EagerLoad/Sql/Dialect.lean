import EagerLoad.Json.Reading
import EagerLoad.Text.Blank
import EagerLoad.Time.Duration

/-! # SQL dialects

The four dialects differ in quoting, in placeholders, in how they build JSON and in how they limit
rows and time. A server's version tells whether it has an aggregate for JSON arrays. -/
namespace EagerLoad

structure ServerVersion where
  major : Nat
  minor : Nat
  patch : Nat
deriving DecidableEq, Repr

namespace ServerVersion

def part? (digits : List Char) : Option Nat :=
  Text.natural? Bounds.unsigned32 (String.ofList digits)

/-- Reads the leading numbers of a text such as "8.0.34" or "10.6.12-MariaDB". The minor number and
the patch are zero unless they can be read. -/
def parse? (text : String) : Option ServerVersion :=
  let numeric := text.toList.takeWhile fun c => c.isDigit || c == '.'
  match (Text.splitAll '.' numeric).filter (fun p => !p.isEmpty) with
  | [] => none
  | major :: rest => (part? major).map fun major =>
    { major
      minor := (rest[0]?.bind part?).getD 0
      patch := (rest[1]?.bind part?).getD 0 }

def atLeast (v w : ServerVersion) : Bool :=
  if v.major ≠ w.major then w.major < v.major
  else if v.minor ≠ w.minor then w.minor < v.minor
  else w.patch ≤ v.patch

def toJson (v : ServerVersion) : Json :=
  .obj [("major", .ofNat v.major), ("minor", .ofNat v.minor), ("patch", .ofNat v.patch)]

end ServerVersion

inductive Dialect where
  | postgresql
  | sqlite
  | mysql (version : Option ServerVersion)
  | mariadb (version : Option ServerVersion)
deriving DecidableEq, Repr

namespace Dialect

def name : Dialect → String
  | postgresql => "postgresql"
  | sqlite => "sqlite"
  | mysql _ => "mysql"
  | mariadb _ => "mariadb"

def toJson : Dialect → Json
  | postgresql => .str "PostgreSQL"
  | sqlite => .str "SQLite"
  | mysql v => .obj [("MySQL", .obj [("version", Json.ofOption ServerVersion.toJson v)])]
  | mariadb v => .obj [("MariaDB", .obj [("version", Json.ofOption ServerVersion.toJson v)])]

/-- Reads a name, which a version may follow after a colon. -/
def parse? (text : String) : Option Dialect :=
  match Text.splitFirst? ':' text.toList with
  | none => match text with
    | "postgresql" => some postgresql
    | "sqlite" => some sqlite
    | "mysql" => some (mysql none)
    | "mariadb" => some (mariadb none)
    | _ => none
  | some (kind, version) =>
    let version := ServerVersion.parse? (String.ofList version)
    match String.ofList kind with
    | "mysql" => some (mysql version)
    | "mariadb" => some (mariadb version)
    | _ => none

def numbersPlaceholders : Dialect → Bool
  | postgresql => true
  | _ => false

def quoteMark : Dialect → Char
  | postgresql | sqlite => '\x22'
  | mysql _ | mariadb _ => '\x60'

/-- An identifier between quote marks, those inside it doubled. -/
def quote (d : Dialect) (identifier : String) : String :=
  let mark := d.quoteMark
  let doubled := identifier.toList.flatMap fun c => if c = mark then [mark, c] else [c]
  String.ofList (mark :: (doubled ++ [mark]))

def qualified (d : Dialect) (table column : String) : String :=
  d.quote table ++ "." ++ d.quote column

def objectFunction : Dialect → String
  | postgresql => "json_build_object"
  | sqlite => "json_object"
  | mysql _ | mariadb _ => "JSON_OBJECT"

/-- Whether the server has an aggregate for JSON arrays; an unknown version is taken to have it. -/
def hasArrayAggregate : Dialect → Bool
  | postgresql | sqlite => true
  | mysql version => version.all fun v => v.atLeast ⟨5, 7, 22⟩
  | mariadb version => version.all fun v => v.atLeast ⟨10, 5, 0⟩

/-- Whether the array aggregate takes an order of its own. -/
def ordersAggregate (d : Dialect) : Bool :=
  match d with
  | postgresql => true
  | sqlite => false
  | mysql _ | mariadb _ => !d.hasArrayAggregate

/-- The text before and after the aggregated rows and their order. Without rows the aggregate is an
empty array, never NULL. -/
def arrayAggregate : Dialect → String × String
  | postgresql => ("COALESCE(json_agg(", "), '[]'::json)")
  | sqlite => ("COALESCE(json_group_array(", "), '[]')")
  | d =>
    if d.hasArrayAggregate then ("COALESCE(JSON_ARRAYAGG(", "), JSON_ARRAY())")
    else ("COALESCE(CONCAT('[', GROUP_CONCAT(", " SEPARATOR ','), ']'), '[]')")

/-- The aggregate of a row expression; the order is left out where it is empty or not taken. -/
def aggregateArray (d : Dialect) (row : String) (order : Option String) : String :=
  let (opening, closing) := d.arrayAggregate
  let ordered := match order with
    | some o => if o ≠ "" ∧ d.ordersAggregate then " ORDER BY " ++ o else ""
    | none => ""
  opening ++ row ++ ordered ++ closing

def textCast : Dialect → String
  | postgresql => "::text"
  | _ => ""

def numericCast : Dialect → String
  | postgresql => "::float8"
  | _ => ""

def likeOperator : Dialect → String
  | postgresql => "ILIKE"
  | _ => "LIKE"

/-- Seconds always have a plain point, none after a whole number, and a tie goes to the larger
digit. -/
def secondsStyle : Decimal.Style := ⟨none, false, .upward⟩

/-- The statement that sets a time limit on the statements after it. A limit is at least a
millisecond. -/
def timeoutStatement? (d : Dialect) (limit : Duration) : Option String :=
  let millis := toString (max limit.millis 1)
  match d with
  | postgresql => some ("SET statement_timeout = " ++ millis)
  | mysql _ => some ("SET SESSION MAX_EXECUTION_TIME = " ++ millis)
  | mariadb _ =>
    let millisecond := (Binary64.ofNat 1).divMagnitude (Binary64.ofNat 1000)
    some ("SET SESSION max_statement_time = " ++
      Decimal.text secondsStyle (limit.seconds.maxMagnitude millisecond))
  | sqlite => none

/-- A limit and an offset. An offset alone needs a limit too, except in PostgreSQL. -/
def limitOffset (d : Dialect) : Option Nat → Option Nat → String
  | none, none => ""
  | some limit, none => " LIMIT " ++ toString limit
  | some limit, some offset => " LIMIT " ++ toString limit ++ " OFFSET " ++ toString offset
  | none, some offset =>
    let unlimited := match d with
      | postgresql => ""
      | sqlite => " LIMIT -1"
      | mysql _ | mariadb _ => " LIMIT 18446744073709551615"
    unlimited ++ " OFFSET " ++ toString offset

end Dialect
end EagerLoad
