import EagerLoad.Cache.Key
import EagerLoad.Run.Fallback

/-! # Running plans

A run compiles its plan, looks for its rows in both caches, executes the statements, and keeps the
rows it got. If execution fails and safe mode is on, the relations are loaded one by one instead,
and nothing is kept. -/
namespace EagerLoad

inductive CacheTier where
  | request
  | external
deriving DecidableEq, Repr

def CacheTier.name : CacheTier → String
  | request => "request"
  | external => "external"

structure Report where
  statements : Nat := 0
  cacheHit : Option CacheTier := none
  usedFallback : Bool := false
  splitBatches : Nat := 0
  failedBatches : Nat := 0
  subqueries : Nat := 0
  rows : Nat := 0
deriving DecidableEq, Repr

structure Execution where
  rows : List Row
  layout : Layout
  report : Report

/-- A run that has to execute: its compiled plan, the key and the time to live under which its rows
are to be kept, and the generation in which it began. -/
structure Pending where
  compiled : CompiledPlan
  cacheAs : Option (String × Duration)
  generation : Nat

inductive Begun where
  | failed (error : CompileError)
  | hit (execution : Execution)
  | miss (pending : Pending)

namespace Optimizer

def cacheTtl (o : Optimizer ε σ) (p : Plan) : Option Duration :=
  if o.config.cacheEnabled && p.cache.enabled then p.cache.ttl.or o.config.cacheTtl else none

/-- The tags of a plan's rows: its own, or else the base table. -/
def cacheTags (p : Plan) : List String := if p.cache.tags.isEmpty then [p.table] else p.cache.tags

def compile (o : Optimizer ε σ) (p : Plan) : Run ε σ (Except CompileError CompiledPlan) := do
  let c := o.compiler (← get).memo
  Run.follow (p.trail c)
  return p.compile c

/-- Reads rows from the store. A store that refuses, and a text that holds no rows, are misses. -/
def externalGet (o : Optimizer ε σ) (key : String) : Run ε σ (Option (List Row)) :=
  match o.store with
  | none => return none
  | some ops => do
    let s ← get
    let (found, store) := ops.get s.clock key s.store
    set { s with store }
    match found with
    | .error _ =>
      Run.note .storeReadFailed
      return none
    | .ok none => return none
    | .ok (some text) => match Rows.parse? text with
      | some rows => return some rows
      | none =>
        Run.note .undecodableEntry
        return none

def externalPut (o : Optimizer ε σ) (key : String) (rows : List Row) (ttl : Duration)
    (tags : List String) : Run ε σ Unit :=
  match o.store with
  | none => return ()
  | some ops => do
    let s ← get
    let (written, store) := ops.put s.clock key (Rows.text rows) (some ttl) tags s.store
    set { s with store }
    match written with
    | .error _ => Run.note .storeWriteFailed
    | .ok _ => return ()

/-- Keeps rows in the request cache if no clear came in between. -/
def requestPut (key : String) (rows : List Row) (generation : Nat) : Run ε σ Unit :=
  modify fun s => { s with request := (s.request.put key rows generation).1 }

def hitReport (tier : CacheTier) (c : CompiledPlan) (rows : List Row) : Execution :=
  ⟨rows, c.layout, { cacheHit := some tier, subqueries := c.subqueries, rows := rows.length }⟩

/-- Compiles a plan and looks for its rows in both caches. -/
def begin (o : Optimizer ε σ) (p : Plan) : Run ε σ Begun := do
  match ← o.compile p with
  | .error e => return .failed e
  | .ok compiled =>
    let cacheAs := (o.cacheTtl p).map fun ttl =>
      (CacheKey.derive o.config.cacheNamespace p compiled.query.base, ttl)
    let generation := (← get).request.generation
    match cacheAs with
    | none => return .miss ⟨compiled, cacheAs, generation⟩
    | some (key, _) =>
      match (← get).request.get? key with
      | some rows =>
        Run.note .requestHit
        return .hit (hitReport .request compiled rows)
      | none =>
        match ← o.externalGet key with
        | some rows =>
          Run.note .externalHit
          requestPut key rows generation
          return .hit (hitReport .external compiled rows)
        | none => return .miss ⟨compiled, cacheAs, generation⟩

def executeSingle (o : Optimizer ε σ) (statement : Statement) (timeout : Option Duration) :
    Run ε σ (Except ExecutionError (List Row × Report)) := do
  match ← o.fetchLogged statement timeout with
  | .error e => return .error e
  | .ok rows => return .ok (rows, { statements := 1 })

/-- Executes the later batches of a split plan for the keys of the base rows. -/
def executeBatches (o : Optimizer ε σ) (primaryKey : String) (keys : List DbValue)
    (timeout : Option Duration) : List FollowUp → List Row → Report →
    Run ε σ (Except ExecutionError (List Row × Report))
  | [], rows, report => return .ok (rows, report)
  | batch :: rest, rows, report => do
    let report := { report with statements := report.statements + 1 }
    match ← o.fetchLogged (batch.bind o.executor.dialect keys) timeout with
    | .ok incoming =>
      o.executeBatches primaryKey keys timeout rest
        (Rows.merge rows incoming primaryKey batch.relations) report
    | .error e =>
      match o.config.splitFailure with
      | .fail => return .error e
      | .skip =>
        Run.note .batchFailed
        o.executeBatches primaryKey keys timeout rest rows
          { report with failedBatches := report.failedBatches + 1 }

def asksFor (p : Plan) (column : String) : Bool :=
  match p.columns with
  | .all => true
  | .columns names => names.contains column

/-- Executes a split plan. The primary key is removed if it was selected only to merge by it. -/
def executeSplit (o : Optimizer ε σ) (p : Plan) (split : Split) (timeout : Option Duration) :
    Run ε σ (Except ExecutionError (List Row × Report)) := do
  match ← o.fetchLogged split.base timeout with
  | .error e => return .error e
  | .ok rows =>
    let report : Report := { statements := 1, splitBatches := split.followUps.length }
    let keys := Rows.collectKeys rows split.primaryKey
    let followUps := if keys.isEmpty then [] else split.followUps
    match ← o.executeBatches split.primaryKey keys timeout followUps rows report with
    | .error e => return .error e
    | .ok (rows, report) =>
      let shown :=
        if asksFor p split.primaryKey then rows else rows.map fun row => row.remove split.primaryKey
      return .ok (shown, report)

def execute (o : Optimizer ε σ) (p : Plan) (compiled : CompiledPlan) :
    Run ε σ (Except ExecutionError (List Row × Report)) :=
  match compiled.query with
  | .single statement => o.executeSingle statement (o.timeout p)
  | .split split => o.executeSplit p split (o.timeout p)

def publish (o : Optimizer ε σ) (p : Plan) (pending : Pending) (rows : List Row) : Run ε σ Unit :=
  match pending.cacheAs with
  | none => return ()
  | some (key, ttl) => do
    requestPut key rows pending.generation
    o.externalPut key rows ttl (cacheTags p)

/-- What comes after a failed execution: the fallback in safe mode, else the error. -/
def recover (o : Optimizer ε σ) (p : Plan) (layout : Layout) (e : ExecutionError) :
    Run ε σ (Except QueryError Execution) := do
  if o.safeMode p then
    Run.note .fallingBack
    match ← (Fallback.load o p (o.timeout p)).run with
    | .ok loaded => return .ok ⟨loaded.rows, layout, { usedFallback := true }⟩
    | .error e => return .error e
  else
    Run.note .optimizedFailed
    return .error (.execution e)

def run (o : Optimizer ε σ) (p : Plan) : Run ε σ (Except QueryError Execution) := do
  match ← o.begin p with
  | .failed e => return .error (.compile e)
  | .hit execution => return .ok execution
  | .miss pending =>
    match ← o.execute p pending.compiled with
    | .error e => o.recover p pending.compiled.layout e
    | .ok (rows, report) =>
      o.publish p pending rows
      return .ok ⟨rows, pending.compiled.layout,
        { report with subqueries := pending.compiled.subqueries, rows := rows.length }⟩

def fetchPlain (o : Optimizer ε σ) (p : Plan) (statement : Statement) :
    Run ε σ (Except QueryError (List Row)) := do
  match ← o.fetchLogged statement (o.timeout p) with
  | .ok rows => return .ok rows
  | .error e =>
    Run.note .queryFailed
    return .error (.execution e)

end Optimizer
end EagerLoad
