import EagerLoad.Proofs.Run.Paged

/-! # Visiting rows chunk by chunk

Chunks are asked for until one is shorter than the size asked for. A greatest limit below that size cuts
the first chunk short already, so the rows after it are never asked for. Otherwise every row is visited
once, in order. -/
namespace EagerLoad

namespace Paging

variable (g : Paging ε)

/-- The rows that are visited chunk by chunk. -/
def visited : List Row := if g.reach < g.size then g.rows.take g.reach else g.rows

variable {g}

theorem length_slice_le (i : Nat) : (g.slice i).length ≤ g.reach := List.length_take_le _ _

/-- Either pages are as long as asked for or all rows fit into one, unless the greatest limit is less than
both. -/
theorem reach_covers_iff :
    (∀ most, g.optimizer.config.maxLimit = some most → g.size ≤ most ∨ g.rows.length ≤ most) ↔
      g.reach = g.size ∨ g.rows.length ≤ g.reach := by
  rw [reach, Config.reach]
  cases g.optimizer.config.maxLimit with
  | none => simp
  | some most =>
    simp only [Option.some.injEq, forall_eq', Option.elim_some]
    omega

theorem visited_eq_iff : g.visited = g.rows ↔
    ∀ most, g.optimizer.config.maxLimit = some most → g.size ≤ most ∨ g.rows.length ≤ most := by
  have most : g.reach ≤ g.size := g.optimizer.config.reach_le g.size
  rw [reach_covers_iff, visited]
  split
  · rw [List.take_eq_self_iff]
    omega
  · exact ⟨fun _ => .inl (by omega), fun _ => rfl⟩

/-- The rows that are visited from a page on. -/
def visitedFrom (g : Paging ε) (i : Nat) : List Row :=
  if g.reach < g.size then g.slice i else g.rows.drop (i * g.size)

theorem visitedFrom_of_short {i : Nat} (short : (g.slice i).length < g.size) :
    g.visitedFrom i = g.slice i := by
  unfold visitedFrom
  split
  · rfl
  · have reached : g.reach = g.size := by
      have most : g.reach ≤ g.size := g.optimizer.config.reach_le g.size
      omega
    rw [slice, reached, List.length_take] at short
    rw [slice, reached, List.take_of_length_le (by omega)]

theorem visitedFrom_of_full {i : Nat} (asked : g.Asked i) (full : g.size ≤ (g.slice i).length) :
    g.visitedFrom i = g.slice i ++ g.visitedFrom (i + 1) ∧ g.Asked (i + 1) := by
  have most : g.reach ≤ g.size := g.optimizer.config.reach_le g.size
  have bound := g.length_slice_le i
  have reached : g.reach = g.size := by omega
  have next : (i + 1) * g.size = i * g.size + g.size := Nat.succ_mul i g.size
  refine ⟨?_, ?_⟩
  · have whole : ¬g.reach < g.size := by omega
    rw [visitedFrom, visitedFrom, if_neg whole, if_neg whole, slice, reached, next,
      ← List.drop_drop, List.take_append_drop]
  · rw [slice, reached, List.length_take, List.length_drop] at full
    rw [Asked] at asked ⊢
    omega

variable {compiled : CompiledPlan} (fits : g.Fits compiled) (size : 0 < g.size)
  {receive : List (List Row) → Option QueryError} (accepts : ∀ seen, receive seen = none)
include fits size accepts

/-- From a page on, the chunks are the rows that are visited from it on, cut into pages none of which is
empty. -/
theorem Ready.chunkFrom {fuel i : Nat} (asked : g.Asked i)
    (enough : g.rows.length < fuel + i * g.size) (seen : List (List Row)) {s : State ε MemoryStore}
    (ready : g.Ready (fun j => i ≤ j ∧ g.Asked j) s) :
    ∃ chunks, (g.optimizer.chunkFrom g.plan g.size receive fuel (i * g.size) seen s).1 =
        (seen ++ chunks, .finished) ∧ (∀ chunk ∈ chunks, chunk ≠ []) ∧
      List.Forall₂ (g.optimizer.Presents g.plan compiled.layout) (g.visitedFrom i)
        chunks.flatten := by
  -- By induction on the fuel, which the pages that the rows left can fill are fewer than.
  induction fuel generalizing i seen s with
  | zero =>
    rw [Asked] at asked
    omega
  | succ fuel ih =>
    obtain ⟨shown, s', ran, presents, after⟩ :=
      ready.rows fits size (fun j listed => listed.2) ⟨Nat.le_refl i, asked⟩
    have asks : (g.optimizer.rows ((g.plan.withLimit g.size).withOffset (i * g.size))).run s =
        (.ok shown, s') := ran
    rw [Optimizer.chunkFrom, run_bind, asks]
    have length := presents.length_eq
    cases shown with
    | nil =>
      have short : (g.slice i).length < g.size := by
        rw [length]
        exact size
      refine ⟨[], by rw [List.append_nil]; rfl, by simp, ?_⟩
      rw [visitedFrom_of_short short]
      exact presents
    | cons row rest =>
      simp only [accepts]
      split
      · rename_i short
        rw [← length] at short
        refine ⟨[row :: rest], rfl, by simp, ?_⟩
        rw [visitedFrom_of_short short, List.flatten_cons, List.flatten_nil, List.append_nil]
        exact presents
      · rename_i full
        rw [← length, Nat.not_lt] at full
        obtain ⟨cut, next⟩ := visitedFrom_of_full asked full
        have offset : (i + 1) * g.size = i * g.size + g.size := Nat.succ_mul i g.size
        have later : g.Ready (fun j => i + 1 ≤ j ∧ g.Asked j) s' :=
          after.mono fun j listed => ⟨⟨by omega, listed.2⟩, by omega⟩
        obtain ⟨chunks, ended, filled, rows⟩ := ih next (by omega) (seen ++ [row :: rest]) later
        rw [offset] at ended
        refine ⟨(row :: rest) :: chunks, ?_, ?_, ?_⟩
        · rw [ended, List.append_assoc]
          rfl
        · exact List.forall_mem_cons.mpr ⟨List.cons_ne_nil row rest, filled⟩
        · rw [cut, List.flatten_cons]
          exact List.rel_append presents rows

end Paging

namespace Optimizer

/-- The pages that chunks of a size are asked for as. -/
def chunking (o : Optimizer ε MemoryStore) (p : Plan) (size : Nat) (rows : List Row) (memo : Memo) :
    Paging ε :=
  ⟨o, pagedPlan p, max size 1, rows, memo⟩

/-- Chunks that are all accepted come to an end, and none of them is empty. Together they are all rows
in order, exactly if the greatest limit is not less than both the size of a chunk and the number of rows.
Else they are no more rows than the greatest limit, from the first one on. -/
theorem chunk_visits (o : Optimizer ε MemoryStore) (p : Plan) (size : Nat) (rows : List Row)
    {s : State ε MemoryStore} {compiled : CompiledPlan}
    (fits : (o.chunking p size rows s.memo).Fits compiled)
    (ready : (o.chunking p size rows s.memo).Ready (o.chunking p size rows s.memo).Asked s)
    {receive : List (List Row) → Option QueryError} (accepts : ∀ seen, receive seen = none)
    {fuel : Nat} (enough : rows.length < fuel) :
    ∃ chunks, (o.chunk p size receive fuel s).1 = (chunks, .finished) ∧
      (∀ chunk ∈ chunks, chunk ≠ []) ∧
      List.Forall₂ (o.Presents (pagedPlan p) compiled.layout)
        (o.chunking p size rows s.memo).visited chunks.flatten ∧
      ((o.chunking p size rows s.memo).visited = rows ↔
        ∀ most, o.config.maxLimit = some most → max size 1 ≤ most ∨ rows.length ≤ most) := by
  have some : 0 < (o.chunking p size rows s.memo).size := Nat.le_max_right size 1
  have first : (o.chunking p size rows s.memo).Asked 0 := by
    rw [Paging.Asked, Nat.zero_mul]
    exact Nat.zero_le _
  have later : (o.chunking p size rows s.memo).Ready
      (fun j => 0 ≤ j ∧ (o.chunking p size rows s.memo).Asked j) s := ready.mono fun j listed => listed.2
  have noted := Paging.Ready.noteAll (pagingNotices p) s later
  obtain ⟨chunks, ended, filled, presents⟩ :=
    Paging.Ready.chunkFrom fits some accepts first
      (by rw [Nat.zero_mul]; exact enough) [] noted
  have all : (o.chunking p size rows s.memo).visitedFrom 0 =
      (o.chunking p size rows s.memo).visited := by
    rw [Paging.visitedFrom, Paging.visited, Paging.slice, Nat.zero_mul, List.drop_zero]
  rw [all] at presents
  rw [Nat.zero_mul] at ended
  exact ⟨chunks, ended, filled, presents, Paging.visited_eq_iff⟩

end Optimizer

deriving instance DecidableEq for Ending

namespace Ledger

def entry : Entity := { type := "Entry", table := "entries", columns := ["text"] }

def entries : Plan := { entity := entry }

def held : List Row :=
  ["a", "b", "c", "d", "e"].zipIdx.map fun (text, i) => [("id", .int (i + 1)), ("text", .str text)]

def read (reversed : List Char) : Nat := Nat.ofDigitChars 10 reversed.reverse 0

/-- A statement that ends with a limit and an offset is answered by a slice of the entries, any other one
by their number. -/
def answer (statement : Statement) : List Row :=
  let back := statement.sql.toList.reverse
  let front := (back.dropWhile Char.isDigit).drop " OFFSET ".length
  if (back.takeWhile Char.isDigit).isEmpty then [[("aggregate", .int held.length)]]
  else (held.drop (read (back.takeWhile Char.isDigit))).take (read (front.takeWhile Char.isDigit))

/-- No statement may ask for more than two entries. -/
def optimizer : Optimizer Unit MemoryStore :=
  { config := { maxLimit := some 2 }
    registry := [("Entry", entry)]
    executor := ⟨.sqlite, fun statement _ _ => { answer := .ok (answer statement), next := () }⟩
    store := none }

def start : State Unit MemoryStore := { executor := (), store := {} }

theorem takeWhile_digits (n : Nat) (rest : List Char) :
    ((Nat.repr n).toList.reverse ++ ' ' :: rest).takeWhile Char.isDigit =
      (Nat.repr n).toList.reverse ∧
    ((Nat.repr n).toList.reverse ++ ' ' :: rest).dropWhile Char.isDigit = ' ' :: rest := by
  have digits : ∀ c ∈ (Nat.repr n).toList.reverse, c.isDigit = true :=
    fun c found => Json.natDigits_digits n c (List.mem_reverse.mp found)
  rw [List.takeWhile_append_of_pos digits, List.dropWhile_append_of_pos digits]
  exact ⟨List.append_nil _, rfl⟩

theorem read_digits (n : Nat) : read (Nat.repr n).toList.reverse = n := by
  rw [read, List.reverse_reverse, Nat.repr, String.toList_ofList]
  exact Nat.ofDigitChars_toDigits (by decide) (by decide)

theorem answer_page (front : String) (bindings : List DbValue) (limit offset : Nat) :
    answer ⟨front ++ Sql.pageEnd limit offset, bindings⟩ = (held.drop offset).take limit := by
  generalize limited : ['T', 'I', 'M', 'I', 'L', ' '] ++ front.toList.reverse = words
  generalize middle : ['T', 'E', 'S', 'F', 'F', 'O', ' '] ++
    ((Nat.repr limit).toList.reverse ++ ' ' :: words) = rest
  have back : (front ++ Sql.pageEnd limit offset).toList.reverse =
      (Nat.repr offset).toList.reverse ++ ' ' :: rest := by
    rw [← middle, ← limited]
    simp [Sql.pageEnd]
  obtain ⟨offsetDigits, behind⟩ := takeWhile_digits offset rest
  obtain ⟨limitDigits, -⟩ := takeWhile_digits limit words
  have skipped : (' ' :: rest).drop " OFFSET ".length =
      (Nat.repr limit).toList.reverse ++ ' ' :: words := by
    rw [← middle]
    rfl
  have some : (Nat.repr offset).toList.reverse.isEmpty = false := by
    simp [Nat.repr]
  simp only [answer, back, offsetDigits, behind, skipped, limitDigits, read_digits, some]
  exact if_neg Bool.false_ne_true

def compiled (p : Plan) : CompiledPlan :=
  ⟨.single (.ofFragment .sqlite ((p.unsplitDraft (optimizer.compiler [])).fragment .sqlite)), [], 0⟩

theorem written : (Optimizer.pagedPlan entries).compile (optimizer.compiler []) =
    .ok (compiled (Optimizer.pagedPlan entries)) :=
  Plan.compile_eq_ok_iff.mpr
    ⟨rfl, rfl, _, (Sql.Draft.ofDraft_eq_ok_iff _ _ _).mpr ⟨by decide, rfl⟩, rfl⟩

/-- Entries can be asked for in pages of any size; nothing is cached. -/
theorem fits {p : Plan} (uncached : p.cache.ttl = none) {compiled : CompiledPlan}
    (written : p.compile (optimizer.compiler []) = .ok compiled) (size : Nat) :
    Paging.Fits ⟨optimizer, p, size, held, []⟩ compiled where
  sound := Registry.sound_nil.register entry
  inMemory := .inl rfl
  compiled := written
  page front bindings limit offset _ _ :=
    congrArg Except.ok (answer_page front bindings limit offset)
  followUp _ statement _ _ := ⟨answer statement, rfl⟩
  apart caching := by
    have never : optimizer.cacheTtl p = none := by
      rw [Optimizer.cacheTtl, uncached]
      split <;> rfl
    rw [never] at caching
    exact absurd caching Bool.false_ne_true

theorem ready (g : Paging Unit) (memo : g.memo = []) (ahead : Nat → Prop) : g.Ready ahead start where
  finds := by
    rw [memo]
    exact Memo.Alike.refl _ _ _
  kept := ⟨fun _ _ listed => absurd listed (by simp [start]),
    fun _ _ listed => absurd listed (by simp [start])⟩

end Ledger

open Ledger in
theorem Optimizer.chunk_visits_ledger :
    (optimizer.chunking entries 2 held start.memo).Fits (compiled (pagedPlan entries)) ∧
      (optimizer.chunking entries 2 held start.memo).Ready
        (optimizer.chunking entries 2 held start.memo).Asked start ∧
      ∃ chunks, (optimizer.chunk entries 2 (fun _ => none) 6 start).1 = (chunks, .finished) ∧
        (∀ chunk ∈ chunks, chunk ≠ []) ∧
        List.Forall₂ (optimizer.Presents (pagedPlan entries) (compiled (pagedPlan entries)).layout)
          (optimizer.chunking entries 2 held start.memo).visited chunks.flatten ∧
        ((optimizer.chunking entries 2 held start.memo).visited = held ↔
          ∀ most, optimizer.config.maxLimit = some most → max 2 1 ≤ most ∨ held.length ≤ most) :=
  ⟨fits rfl written 2, ready _ rfl _,
    chunk_visits (s := start) optimizer entries 2 held (fits rfl written 2) (ready _ rfl _)
      (fun _ => rfl) (by decide)⟩

open Ledger in
/-- Chunks of three entries, where a statement gives two at most, end after the first one. -/
theorem Optimizer.chunk_loses_entries :
    optimizer.config.validate = .ok () ∧
      (optimizer.chunking entries 3 held start.memo).Fits (compiled (pagedPlan entries)) ∧
      (optimizer.chunk entries 3 (fun _ => none) 6 start).1 = ([held.take 2], .finished) ∧
      [held.take 2].flatten ≠ held :=
  ⟨rfl, fits rfl written 3, by decide +kernel, by decide⟩

end EagerLoad
