import EagerLoad.Query.Call
import EagerLoad.Run.Execution

/-! # Results of queries

The ways to ask for a query's result: all rows, the first one, the one with a key, their number, a
page, or page after page. -/
namespace EagerLoad

structure Page where
  data : List Row
  total : Nat
  perPage : Nat
  current : Nat
  last : Nat

namespace Page

/-- The greatest number of 64 bits, at which page numbers stop. -/
def most : Nat := Bounds.unsigned64 - 1

def hasMore (p : Page) : Bool := p.current < p.last

def first? (p : Page) : Option Nat :=
  if p.data.isEmpty then none
  else some (min (min ((p.current - 1) * p.perPage) most + 1) most)

def last? (p : Page) : Option Nat := p.first?.map fun n => min (n + (p.data.length - 1)) most

end Page

inductive Ending where
  | finished
  | failed (error : QueryError)
  /-- More pages would have to be asked for than allowed. -/
  | unfinished

namespace Optimizer

def noted (result : α × List Notice) : Run ε σ α := do
  Run.noteAll result.2
  return result.1

def attempt (x : Run ε σ (Except QueryError α)) : Attempt ε σ α := ExceptT.mk x

def query (o : Optimizer ε σ) (type : String) : Except QueryError Plan :=
  match o.registry.resolve type with
  | .ok e => .ok { entity := e }
  | .error e => .error (.compile e)

/-- The decoded rows of a plan and what its run did. -/
def getWithReport (o : Optimizer ε σ) (p : Plan) : Attempt ε σ (List Row × Report) := do
  let x ← attempt (o.run p)
  let rows ← ExceptT.lift (noted (Decode.rows x.layout x.rows))
  return (rows, x.report)

def rows (o : Optimizer ε σ) (p : Plan) : Attempt ε σ (List Row) := do
  return (← o.getWithReport p).1

def output (o : Optimizer ε σ) (p : Plan) (format : OutputFormat) (type : EntityType) :
    Attempt ε σ Output := do
  let x ← attempt (o.run p)
  attempt (noted (Output.decode format type x.layout x.rows))

/-- The rows of a plan in the format of the plan, or else of the configuration. -/
def fetchOutput (o : Optimizer ε σ) (p : Plan) (type : EntityType) : Attempt ε σ Output :=
  o.output p (p.format.getD o.config.format) type

def first (o : Optimizer ε σ) (p : Plan) : Attempt ε σ (Option Row) := do
  return (← o.rows (p.withLimit 1)).head?

def firstOrFail (o : Optimizer ε σ) (p : Plan) : Attempt ε σ Row := do
  match ← o.first p with
  | some row => return row
  | none => throw (.notFound p.table)

def find (o : Optimizer ε σ) (p : Plan) (id : DbValue) : Attempt ε σ (Option Row) :=
  o.first (p.whereEqual p.entity.primaryKey id)

def findOrFail (o : Optimizer ε σ) (p : Plan) (id : DbValue) : Attempt ε σ Row := do
  match ← o.find p id with
  | some row => return row
  | none => throw (.notFound p.table)

def plainRows (o : Optimizer ε σ) (p : Plan) (draft : Compiler → Sql.Draft)
    (statement : Compiler → Except CompileError Statement) : Attempt ε σ (List Row) := do
  let c := o.compiler (← get).memo
  ExceptT.lift (Run.follow (draft c))
  match statement c with
  | .error e => throw (.compile e)
  | .ok s => attempt (o.fetchPlain p s)

/-- The number in the first row; zero where there is none. -/
def countOf (rows : List Row) : Nat :=
  match (rows.head?.bind fun row => row.get? Keyed.valueAlias) with
  | some (.int (.ofNat n)) => n
  | some (.str s) => (Text.natural? Bounds.unsigned64 s).getD 0
  | _ => 0

def count (o : Optimizer ε σ) (p : Plan) : Attempt ε σ Nat := do
  return countOf (← plainRows o p p.countDraft p.count)

def hasRows (o : Optimizer ε σ) (p : Plan) : Attempt ε σ Bool := do
  return !(← plainRows o p p.existsDraft p.existence).isEmpty

/-- One page; pages and rows are counted from one. -/
def paginate (o : Optimizer ε σ) (p : Plan) (perPage page : Nat) : Attempt ε σ Page := do
  let perPage := max perPage 1
  let current := max page 1
  let total ← o.count p
  let last := max ((total + perPage - 1) / perPage) 1
  let offset := min ((current - 1) * perPage) Page.most
  let data ← o.rows ((p.withLimit perPage).withOffset offset)
  return { data, total, perPage, current, last }

/-- The plan whose pages are asked for one after another: rows without an order are ordered by the
primary key. -/
def pagedPlan (p : Plan) : Plan :=
  if p.order.isEmpty then p.orderBy p.entity.primaryKey .ascending else p

def pagingNotices (p : Plan) : List Notice :=
  (if p.limit.isSome || p.offset.isSome then [.pagingReplaced] else []) ++
    (if p.order.isEmpty then [.pagingOrdered] else [])

/-- Asks for pages from an offset on and hands each to the receiver, which answers by all chunks so
far. Gives the chunks handed over. The fuel bounds the pages. -/
def chunkFrom (o : Optimizer ε σ) (p : Plan) (size : Nat)
    (receive : List (List Row) → Option QueryError) :
    Nat → Nat → List (List Row) → Run ε σ (List (List Row) × Ending)
  | 0, _, seen => return (seen, .unfinished)
  | fuel + 1, offset, seen => do
    match ← (o.rows ((p.withLimit size).withOffset offset)).run with
    | .error e => return (seen, .failed e)
    | .ok [] => return (seen, .finished)
    | .ok page =>
      let seen := seen ++ [page]
      match receive seen with
      | some e => return (seen, .failed e)
      | none =>
        if page.length < size then return (seen, .finished)
        else o.chunkFrom p size receive fuel (offset + size) seen

def chunk (o : Optimizer ε σ) (p : Plan) (size : Nat)
    (receive : List (List Row) → Option QueryError) (fuel : Nat) :
    Run ε σ (List (List Row) × Ending) := do
  Run.noteAll (pagingNotices p)
  o.chunkFrom (pagedPlan p) (max size 1) receive fuel 0 []

structure Cursor where
  offset : Nat := 0
  exhausted : Bool := false

/-- The next rows of an iteration, none at its end. -/
def advance (o : Optimizer ε σ) (p : Plan) (size : Nat) (cursor : Cursor) :
    Attempt ε σ (List Row × Cursor) := do
  if cursor.exhausted then return ([], cursor)
  let page ← o.rows ((p.withLimit size).withOffset cursor.offset)
  return (page, { offset := cursor.offset + size, exhausted := page.length < size })

/-- All rows from a cursor on, up to the first error. The fuel bounds the pages. -/
def drain (o : Optimizer ε σ) (p : Plan) (size : Nat) :
    Nat → Cursor → Run ε σ (List Row × Ending)
  | 0, _ => return ([], .unfinished)
  | fuel + 1, cursor => do
    match ← (o.advance p size cursor).run with
    | .error e => return ([], .failed e)
    | .ok ([], _) => return ([], .finished)
    | .ok (page, next) =>
      let (rows, ending) ← o.drain p size fuel next
      return (page ++ rows, ending)

def lazily (o : Optimizer ε σ) (p : Plan) (size fuel : Nat) : Run ε σ (List Row × Ending) := do
  Run.noteAll (pagingNotices p)
  o.drain (pagedPlan p) (max size 1) fuel {}

def clearCache (o : Optimizer ε σ) : Attempt ε σ Unit := do
  modify fun s => { s with request := s.request.clear }
  match o.store with
  | none => return ()
  | some ops =>
    let s ← get
    let (flushed, store) := ops.flush s.clock s.store
    set { s with store }
    match flushed with
    | .ok _ => return ()
    | .error e => throw (.cache e)

end Optimizer
end EagerLoad
