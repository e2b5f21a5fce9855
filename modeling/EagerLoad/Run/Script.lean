import EagerLoad.Run.State
import EagerLoad.Text.Occurrence

/-! # Scripted executors

A scripted executor answers by rules instead of a database, and records the statements sent to
it. -/
namespace EagerLoad

/-- An answer to the statements that hold certain texts. -/
structure Rule where
  contains : List String
  answer : Except ExecutionError (List Row)
  uses : Option Nat := none
  /-- The table written to whenever the rule is used. -/
  written : Option String := none

namespace Rule

/-- Whether the rule is not used up and every one of its texts occurs in the statement. -/
def applies (r : Rule) (sql : String) : Bool :=
  r.uses != some 0 && r.contains.all fun part => Text.occurs part sql

def used (r : Rule) : Rule := { r with uses := r.uses.map (· - 1) }

/-- The first rule that applies, and the rules after its use. -/
def take? (sql : String) : List Rule → Option (Rule × List Rule)
  | [] => none
  | r :: rest =>
    if r.applies sql then some (r, r.used :: rest)
    else (take? sql rest).map fun (found, rest) => (found, r :: rest)

private def errorOf? : Json → Option ExecutionError
  | .arr [.str kind, .str detail] => match kind with
    | "Database" => some (.database detail)
    | "Timeout" => some (.timeout detail)
    | "Connection" => some (.connection detail)
    | _ => none
  | _ => none

/-- Reads a rule: its texts, its rows or its error, how often it may be used, and the table that is
written to. -/
def ofJson? (j : Json) : Option Rule := do
  let contains ← (j.get "contains").listOrEmpty? Json.string?
  let error ← (j.get "error").nullable? errorOf?
  let rows ← (j.get "rows").listOrEmpty? Row.ofPairs?
  let uses ← (j.get "times").nullable? Json.word?
  let written ← (j.get "invalidate").nullable? Json.string?
  let answer := match error with
    | some e => .error e
    | none => .ok rows
  some { contains, answer, uses, written }

end Rule

structure Sent where
  statement : Statement
  timeout : Option Duration

structure Script where
  rules : List Rule := []
  sent : List Sent := []

namespace Script

/-- Answers a statement by the first rule that applies, or else by no rows. -/
def reply (statement : Statement) (timeout : Option Duration) (s : Script) : Reply Script :=
  let sent := s.sent ++ [⟨statement, timeout⟩]
  match Rule.take? statement.sql s.rules with
  | none => { answer := .ok [], next := { s with sent } }
  | some (rule, rules) =>
    { answer := rule.answer, written := rule.written.toList, next := { rules, sent } }

def executor (d : Dialect) : Executor Script := ⟨d, reply⟩

end Script
end EagerLoad
