import EagerLoad.Error
import EagerLoad.Localization
import EagerLoad.Notice
import EagerLoad.Sql.Dialect
import EagerLoad.Sql.Placeholder
import EagerLoad.Sql.Value

/-! # Drafts of SQL text

A draft lists the steps by which a statement is written: text, names to be checked and quoted,
values to be bound. Drafts are put together by appending lists. Writing stops at the first step
that cannot be carried out; until then text and bindings grow together. -/
namespace EagerLoad

/-- A piece of SQL text with the values of its placeholders, in order. -/
structure Fragment where
  sql : String
  bindings : List DbValue
deriving DecidableEq, Inhabited

namespace Fragment

def empty : Fragment := ⟨"", []⟩

def append (f g : Fragment) : Fragment := ⟨f.sql ++ g.sql, f.bindings ++ g.bindings⟩

def placeholders (f : Fragment) : Nat := Sql.countPlaceholders f.sql

end Fragment

namespace Sql

inductive Step where
  | text (sql : String)
  /-- A name, checked and quoted. -/
  | name (identifier : String)
  /-- A placeholder and its value. -/
  | bind (value : DbValue)
  /-- Raw text whose placeholders must be as many as its values. -/
  | raw (sql : String) (bindings : List DbValue)
  | fragment (contents : Fragment)
  /-- A name that is checked here and written elsewhere. -/
  | require (identifier : String)
  /-- A notice, without text. -/
  | notice (n : Notice)
  /-- A localization looked up for a type, without text. -/
  | consult (type : String) (found : Option Localization)
  | fail (error : CompileError)
deriving DecidableEq

abbrev Draft := List Step

namespace Step

def failure? : Step → Option CompileError
  | name identifier | require identifier =>
    (Identifier.fault? identifier).map CompileError.invalidIdentifier
  | raw sql bindings =>
    let expected := countPlaceholders sql
    if expected = bindings.length then none else some (.bindingMismatch expected bindings.length)
  | fail e => some e
  | _ => none

def sql (d : Dialect) : Step → String
  | text s | raw s _ => s
  | name identifier => d.quote identifier
  | bind _ => "?"
  | fragment f => f.sql
  | _ => ""

def bindings : Step → List DbValue
  | bind v => [v]
  | raw _ vs => vs
  | fragment f => f.bindings
  | _ => []

end Step

namespace Draft

/-- The steps before the first that fails. -/
def carriedOut (draft : Draft) : Draft := draft.takeWhile fun s => s.failure?.isNone

def failure? (draft : Draft) : Option CompileError := draft.findSome? Step.failure?

def fragment (d : Dialect) (draft : Draft) : Fragment :=
  ⟨String.join (draft.map (Step.sql d)), draft.flatMap Step.bindings⟩

def compile (d : Dialect) (draft : Draft) : Except CompileError Fragment :=
  match draft.failure? with
  | some e => .error e
  | none => .ok (draft.fragment d)

/-- The notices given before the draft ends or fails. -/
def notices (draft : Draft) : List Notice :=
  draft.carriedOut.filterMap fun
    | .notice n => some n
    | _ => none

/-- The localizations looked up before the draft ends or fails. -/
def consulted (draft : Draft) : List (String × Option Localization) :=
  draft.carriedOut.filterMap fun
    | .consult type found => some (type, found)
    | _ => none

/-- Goes on with a result, or fails with its error. -/
def andThen (x : Except CompileError α) (next : α → Draft) : Draft :=
  match x with
  | .ok a => next a
  | .error e => [.fail e]

def separated (separator : String) : List Draft → Draft
  | [] => []
  | [draft] => draft
  | draft :: rest => draft ++ .text separator :: separated separator rest

def bindList (values : List DbValue) : Draft := separated ", " (values.map fun v => [.bind v])

def qualified (table column : String) : Draft := [.name table, .text ".", .name column]

/-- A column reference. One with a point names its own table; another takes the qualifier if there
is one. -/
def column (qualifier : Option String) (column : String) : Draft :=
  match Text.splitFirst? '.' column.toList, qualifier with
  | some (table, column), _ => qualified (String.ofList table) (String.ofList column)
  | none, some table => qualified table column
  | none, none => [.name column]

end Draft
end Sql

/-- A finished statement: on a dialect with numbered placeholders they are numbered in the order of
the text. -/
structure Statement where
  sql : String
  bindings : List DbValue
deriving DecidableEq, Inhabited

namespace Statement

def ofFragment (d : Dialect) (f : Fragment) : Statement :=
  ⟨if d.numbersPlaceholders then Sql.numberPlaceholders f.sql else f.sql, f.bindings⟩

def placeholders (s : Statement) : Nat := Sql.countPlaceholders s.sql

def ofDraft (d : Dialect) (draft : Sql.Draft) : Except CompileError Statement :=
  (draft.compile d).map (ofFragment d)

end Statement
end EagerLoad
