import EagerLoad.Plan.Template

/-! # Compiling plans

A plan with more relations than one statement may carry is split: the first batch of relations goes
with the base statement, and each later batch becomes a template to which the keys of the base rows
are bound. -/
namespace EagerLoad

/-- A later batch of a split plan: the relations it loads and the statement up to its keys. -/
structure FollowUp where
  relations : List String
  template : Fragment
deriving DecidableEq

def FollowUp.bind (f : FollowUp) (d : Dialect) (keys : List DbValue) : Statement :=
  Statement.ofFragment d
    ⟨f.template.sql ++ ", ".intercalate (keys.map fun _ => "?") ++ ")",
      f.template.bindings ++ keys⟩

structure Split where
  base : Statement
  followUps : List FollowUp
  primaryKey : String
deriving DecidableEq

def Split.statements (s : Split) : Nat := 1 + s.followUps.length

inductive CompiledQuery where
  | single (statement : Statement)
  | split (plan : Split)
deriving DecidableEq

def CompiledQuery.base : CompiledQuery → Statement
  | single s => s
  | split s => s.base

structure CompiledPlan where
  query : CompiledQuery
  layout : Layout
  subqueries : Nat
deriving DecidableEq

/-- Cuts a list into pieces of the given size, the last of which may be shorter. -/
def chunksOf (size : Nat) : List α → List (List α)
  | [] => []
  | x :: rest => (x :: rest.take (size - 1)) :: chunksOf size (rest.drop (size - 1))
termination_by items => items.length
decreasing_by simp only [List.length_drop, List.length_cons]; omega

namespace Plan

def wholePart (p : Plan) : Part :=
  { relations := p.relations, scalars := true, forced := [], byKeys := false, bounded := true }

/-- The base rows alone, with further columns. -/
def basePart (forced : List String) : Part :=
  { relations := [], scalars := false, forced, byKeys := false, bounded := true }

/-- The base rows with their first relations, and with the primary key. -/
def firstPart (p : Plan) (relations : List RelationRequest) : Part :=
  { relations, scalars := true, forced := [p.entity.primaryKey], byKeys := false, bounded := true }

/-- Some relations of the rows with given keys. -/
def laterPart (p : Plan) (relations : List RelationRequest) : Part :=
  { relations, scalars := false, forced := [p.entity.primaryKey], byKeys := true, bounded := false }

def unsplitDraft (p : Plan) (c : Compiler) : Sql.Draft := p.draft c p.wholePart

def unsplit (p : Plan) (c : Compiler) : Except CompileError Statement :=
  Statement.ofDraft c.dialect (p.unsplitDraft c)

def baseOnlyDraft (p : Plan) (c : Compiler) (forced : List String) : Sql.Draft :=
  p.draft c (basePart forced)

def baseOnly (p : Plan) (c : Compiler) (forced : List String) : Except CompileError Statement :=
  Statement.ofDraft c.dialect (p.baseOnlyDraft c forced)

/-- What is counted: the rows without order and limit. Unless rows are grouped or tested as groups,
their keys are enough. -/
def counted (p : Plan) : Plan :=
  let p := { p with relations := [], order := [], limit := none, offset := none }
  if p.groupBy.isEmpty && !p.having.hasConditions then
    { p with counts := [], aggregates := [], columns := .columns [p.entity.primaryKey] }
  else p

def countDraft (p : Plan) (c : Compiler) : Sql.Draft :=
  p.counted.draft c
    { relations := [], scalars := true, forced := [], byKeys := false, bounded := false }

/-- The number of rows, counted over the inner statement. -/
def count (p : Plan) (c : Compiler) : Except CompileError Statement :=
  (Statement.ofDraft c.dialect (p.countDraft c)).map fun inner =>
    ⟨"SELECT COUNT(*) AS " ++ c.dialect.quote "aggregate" ++ " FROM (" ++ inner.sql ++ ") AS " ++
      c.dialect.quote "aggregate_table", inner.bindings⟩

/-- What shows that there is a row: the key of one. -/
def probed (p : Plan) : Plan :=
  { p with
    relations := [], counts := [], aggregates := [], order := [], offset := none, limit := some 1
    columns := .columns [p.entity.primaryKey] }

def existsDraft (p : Plan) (c : Compiler) : Sql.Draft := p.probed.baseOnlyDraft c []

def existence (p : Plan) (c : Compiler) : Except CompileError Statement :=
  Statement.ofDraft c.dialect (p.existsDraft c)

/-- The most relations of one statement, the plan's own number before the configured one. -/
def relationLimit (p : Plan) (config : Config) : Nat := p.maxRelations.getD config.maxRelations

def isSplit (p : Plan) (config : Config) : Bool :=
  0 < p.relationLimit config && p.relationLimit config < p.relations.length

def batches (p : Plan) (config : Config) : List (List RelationRequest) :=
  chunksOf (p.relationLimit config) p.relations

def firstDraft (p : Plan) (c : Compiler) : Sql.Draft :=
  p.draft c (p.firstPart ((p.batches c.config).headD []))

def laterBatches (p : Plan) (config : Config) : List (List RelationRequest) :=
  (p.batches config).drop 1

def followUp (p : Plan) (c : Compiler) (relations : List RelationRequest) :
    Except CompileError FollowUp :=
  ((p.draft c (p.laterPart relations)).compile c.dialect).map fun template =>
    ⟨relations.map RelationRequest.label, template⟩

def split (p : Plan) (c : Compiler) : Except CompileError Split := do
  let base ← Statement.ofDraft c.dialect (p.firstDraft c)
  let followUps ← (p.laterBatches c.config).mapM (p.followUp c)
  return ⟨base, followUps, p.entity.primaryKey⟩

def compile (p : Plan) (c : Compiler) : Except CompileError CompiledPlan := do
  let layout ← p.layout
  let query ←
    if p.isSplit c.config then (p.split c).map .split
    else (p.unsplit c).map .single
  return ⟨query, layout, p.subqueries⟩

/-- All that compilation writes, with its notices and look-ups, as one draft. It fails with the
error that compilation fails with. -/
def trail (p : Plan) (c : Compiler) : Sql.Draft :=
  (if c.config.debug && c.config.complexityThreshold < p.subqueries then
    [.notice .manySubqueries]
  else []) ++
    Sql.Draft.andThen p.layout fun _ =>
      if p.isSplit c.config then
        p.firstDraft c ++
          (p.laterBatches c.config).flatMap fun batch => p.draft c (p.laterPart batch)
      else p.unsplitDraft c

end Plan
end EagerLoad
