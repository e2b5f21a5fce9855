import EagerLoad.Proofs.Run.Chunked

/-! # Asking for all pages

The pages from the first to the last one that is promised begin at the multiples of the size asked for.
If the greatest limit is below that size and some rows are left for later, each page lacks the rows
between its end and the next one. Otherwise the pages are all rows, each once and in order. -/
namespace EagerLoad

namespace Paging

variable (g : Paging ε)

/-- The number of pages that all rows take; there is always a first one. -/
def last : Nat := max ((g.rows.length + g.size - 1) / g.size) 1

/-- The rows on all pages. -/
def onPages : List Row := (List.range g.last).flatMap g.slice

variable {g}

section Slices

variable (size : 0 < g.size)
include size

theorem length_le_last : g.rows.length ≤ g.last * g.size := by
  have cut := Nat.div_add_mod (g.rows.length + g.size - 1) g.size
  have less := Nat.mod_lt (g.rows.length + g.size - 1) size
  have pages : (g.rows.length + g.size - 1) / g.size * g.size ≤ g.last * g.size :=
    Nat.mul_le_mul_right _ (Nat.le_max_left _ _)
  rw [Nat.mul_comm] at cut
  omega

theorem asked_of_lt_last {i : Nat} (listed : i < g.last) : g.Asked i := by
  rw [Asked]
  by_cases first : i = 0
  · rw [first, Nat.zero_mul]
    exact Nat.zero_le _
  · have below : i < (g.rows.length + g.size - 1) / g.size := by
      rw [last] at listed
      omega
    have most := Nat.div_mul_le_self (g.rows.length + g.size - 1) g.size
    have steps : (i + 1) * g.size ≤ (g.rows.length + g.size - 1) / g.size * g.size :=
      Nat.mul_le_mul_right _ below
    rw [Nat.succ_mul] at steps
    omega

omit size in
/-- Pages as long as asked for follow one upon the other. -/
theorem flatMap_slice (full : g.reach = g.size) (n : Nat) :
    (List.range n).flatMap g.slice = g.rows.take (n * g.size) := by
  induction n with
  | zero => simp
  | succ n ih =>
    rw [List.range_succ, List.flatMap_append, ih, List.flatMap_singleton, slice, full, Nat.succ_mul,
      List.take_add]

omit size in
/-- Shorter pages lose rows from the first page on. -/
theorem length_flatMap_slice_lt (short : g.reach < g.size) (more : g.reach < g.rows.length) (n : Nat) :
    ((List.range (n + 1)).flatMap g.slice).length < min g.rows.length ((n + 1) * g.size) := by
  induction n with
  | zero =>
    simp only [Nat.zero_add, List.range_one, List.flatMap_singleton, slice, Nat.zero_mul,
      List.drop_zero, List.length_take]
    omega
  | succ n ih =>
    rw [List.range_succ, List.flatMap_append, List.length_append, List.flatMap_singleton, slice,
      List.length_take, List.length_drop, Nat.succ_mul (n + 1)]
    omega

theorem onPages_eq_iff : g.onPages = g.rows ↔
    ∀ most, g.optimizer.config.maxLimit = some most → g.size ≤ most ∨ g.rows.length ≤ most := by
  have most : g.reach ≤ g.size := g.optimizer.config.reach_le g.size
  rw [reach_covers_iff, onPages]
  constructor
  · intro whole
    by_contra lossy
    rw [not_or, Nat.not_le] at lossy
    obtain ⟨pages, counted⟩ := Nat.exists_eq_succ_of_ne_zero (n := g.last) (by rw [last]; omega)
    have fewer := length_flatMap_slice_lt (by omega) lossy.2 pages
    rw [← Nat.succ_eq_add_one, ← counted, whole] at fewer
    omega
  · rintro (full | few)
    · rw [flatMap_slice full, List.take_of_length_le (length_le_last size)]
    · have one : g.last = 1 := by
        have pages : (g.rows.length + g.size - 1) / g.size < 2 :=
          (Nat.div_lt_iff_lt_mul size).mpr (by omega)
        rw [last]
        omega
      rw [one, List.range_one, List.flatMap_singleton, slice, Nat.zero_mul, List.drop_zero,
        List.take_of_length_le few]

end Slices

/-- Whether the rows can be counted: the statement that counts them is answered their number. -/
def Counted (g : Paging ε) : Prop :=
  ∃ statement, g.plan.count (g.optimizer.compiler g.memo) = .ok statement ∧
    ∀ timeout e, ∃ found, (g.optimizer.executor.fetch statement timeout e).answer = .ok found ∧
      Optimizer.countOf found = g.rows.length

variable {compiled : CompiledPlan} (fits : g.Fits compiled) {ahead : Nat → Prop}
  {s : State ε MemoryStore}
include fits

/-- Counting gives the number of rows and leaves the pages ahead undisturbed. -/
theorem Ready.count (counted : g.Counted) (ready : g.Ready ahead s) :
    Returns (g.optimizer.count g.plan) s fun n s' => n = g.rows.length ∧ g.Ready ahead s' := by
  obtain ⟨statement, written, answers⟩ := counted
  have compiles : g.plan.count (g.optimizer.compiler s.memo) = .ok statement :=
    (Plan.count_alike (g.optimizer.compiler_alike ready.finds) fits.sound).trans written
  have followed := Plan.alike_follow (c := g.optimizer.compiler s.memo) (p := g.plan)
    (Plan.countDraft_finds fits.sound) (Memo.Alike.refl g.optimizer.registry g.plan.entity s.memo)
  have after : g.Ready ahead (Run.follow (g.plan.countDraft (g.optimizer.compiler s.memo)) s).2 :=
    ⟨followed.trans ready.finds, ready.kept.of_keeps (.follow _)⟩
  generalize noted : (Run.follow (g.plan.countDraft (g.optimizer.compiler s.memo)) s).2 = t at after
  obtain ⟨found, answer, number⟩ := answers (g.optimizer.timeout g.plan) t.executor
  have fetched : (g.optimizer.fetchPlain g.plan statement t).1 = .ok found := by
    rw [Optimizer.fetchPlain, run_bind, Optimizer.fetchLogged_answer, answer]
    rfl
  have kept := Maintains.fetchPlain (Ready.fetch fits.inMemory) Ready.note g.plan statement t after
  have plain : Returns (g.optimizer.plainRows g.plan g.plan.countDraft g.plan.count) s
      fun rows s' => rows = found ∧ g.Ready ahead s' := by
    unfold Optimizer.plainRows
    refine Returns.bind_get (Returns.bind (Returns.lift (q := fun _ t' => t' = t) noted)
      fun _ t' same => ?_)
    subst same
    simp only [compiles]
    exact ⟨found, _, Prod.ext fetched rfl, rfl, kept⟩
  refine Returns.bind plain fun rows s' both => Returns.pure ?_
  rw [both.1]
  exact ⟨number, both.2⟩

/-- Asking for a page by number gives the number of rows and of pages, and the rows of its slice. -/
theorem Ready.paginate {perPage : Nat} (size : max perPage 1 = g.size)
    (few : g.rows.length ≤ Page.most) (counted : g.Counted) (ready : g.Ready ahead s)
    (asked : ∀ j, ahead j → g.Asked j) {i : Nat} (here : ahead i) :
    Returns (g.optimizer.paginate g.plan perPage (i + 1)) s fun page s' =>
      (page.total = g.rows.length ∧ page.last = g.last ∧
        List.Forall₂ (g.optimizer.Presents g.plan compiled.layout) (g.slice i) page.data) ∧
      g.Ready (fun j => ahead j ∧ j ≠ i) s' := by
  have some : 0 < g.size := by omega
  have begins := asked i here
  rw [Asked] at begins
  have offset : min ((max (i + 1) 1 - 1) * g.size) Page.most = i * g.size := by
    rw [Nat.max_eq_left (Nat.le_add_left 1 i), Nat.add_sub_cancel]
    exact Nat.min_eq_left (begins.trans few)
  unfold Optimizer.paginate
  dsimp only
  rw [size, offset]
  refine Returns.bind (ready.count fits counted) fun total s' both => ?_
  obtain ⟨rfl, again⟩ := both
  refine Returns.bind (again.rows fits some asked here) fun data s'' both => ?_
  exact Returns.pure ⟨⟨rfl, rfl, both.1⟩, both.2⟩

/-- Pages asked for one after another, none of them twice, each give the rows of their slices. -/
theorem Ready.mapM_paginate {perPage : Nat} (size : max perPage 1 = g.size)
    (few : g.rows.length ≤ Page.most) (counted : g.Counted) {numbers : List Nat}
    (distinct : numbers.Nodup) (asked : ∀ i ∈ numbers, g.Asked i)
    (ready : g.Ready (· ∈ numbers) s) :
    ∃ pages s', (numbers.mapM fun i => g.optimizer.paginate g.plan perPage (i + 1)).run s =
        (.ok pages, s') ∧
      List.Forall₂ (fun i page => page.total = g.rows.length ∧ page.last = g.last ∧
        List.Forall₂ (g.optimizer.Presents g.plan compiled.layout) (g.slice i) page.data)
        numbers pages := by
  have each (i : Nat) (rest : List Nat) (s : State ε MemoryStore)
      (held : (i :: rest).Nodup ∧ (∀ j ∈ i :: rest, g.Asked j) ∧ g.Ready (· ∈ i :: rest) s) :
      Returns (g.optimizer.paginate g.plan perPage (i + 1)) s fun page s' =>
        (page.total = g.rows.length ∧ page.last = g.last ∧
          List.Forall₂ (g.optimizer.Presents g.plan compiled.layout) (g.slice i) page.data) ∧
        rest.Nodup ∧ (∀ j ∈ rest, g.Asked j) ∧ g.Ready (· ∈ rest) s' := by
    obtain ⟨distinct, asked, ready⟩ := held
    rw [List.nodup_cons] at distinct
    refine (ready.paginate fits size few counted asked List.mem_cons_self).mono
      fun page s' both => ⟨both.1, distinct.2, fun j listed => asked j (by simp [listed]), ?_⟩
    refine both.2.mono fun j listed => ⟨List.mem_cons_of_mem i listed, ?_⟩
    rintro rfl
    exact distinct.1 listed
  obtain ⟨pages, s', ran, given, -⟩ := Returns.mapM _
    (fun remaining s => remaining.Nodup ∧ (∀ j ∈ remaining, g.Asked j) ∧ g.Ready (· ∈ remaining) s)
    each ⟨distinct, asked, ready⟩
  exact ⟨pages, s', ran, given⟩

end Paging

namespace Optimizer

/-- The rows that pages of a size are asked for. -/
def paginating (o : Optimizer ε MemoryStore) (p : Plan) (perPage : Nat) (rows : List Row)
    (memo : Memo) : Paging ε :=
  ⟨o, p, max perPage 1, rows, memo⟩

/-- Every page from the first to the last one is given, with the number of rows. Together they are all
rows, each once and in order, exactly if the greatest limit is not less than both the size of a page and
the number of rows. -/
theorem paginate_covers (o : Optimizer ε MemoryStore) (p : Plan) (perPage : Nat) (rows : List Row)
    {s : State ε MemoryStore} {compiled : CompiledPlan}
    (fits : (o.paginating p perPage rows s.memo).Fits compiled)
    (counted : (o.paginating p perPage rows s.memo).Counted) (few : rows.length ≤ Page.most)
    (ready : (o.paginating p perPage rows s.memo).Ready (o.paginating p perPage rows s.memo).Asked
      s) :
    ∃ pages s', ((List.range (o.paginating p perPage rows s.memo).last).mapM fun i =>
        o.paginate p perPage (i + 1)).run s = (.ok pages, s') ∧
      (∀ page ∈ pages, page.total = rows.length ∧
        page.last = (o.paginating p perPage rows s.memo).last) ∧
      List.Forall₂ (o.Presents p compiled.layout) (o.paginating p perPage rows s.memo).onPages
        (pages.flatMap Page.data) ∧
      ((o.paginating p perPage rows s.memo).onPages = rows ↔
        ∀ most, o.config.maxLimit = some most → max perPage 1 ≤ most ∨ rows.length ≤ most) := by
  have size : max perPage 1 = (o.paginating p perPage rows s.memo).size := rfl
  have some : 0 < (o.paginating p perPage rows s.memo).size := Nat.le_max_right perPage 1
  have asked : ∀ i ∈ List.range (o.paginating p perPage rows s.memo).last,
      (o.paginating p perPage rows s.memo).Asked i :=
    fun i listed => Paging.asked_of_lt_last some (List.mem_range.mp listed)
  obtain ⟨pages, s', ran, given⟩ := Paging.Ready.mapM_paginate fits size few counted
    List.nodup_range asked (ready.mono asked)
  refine ⟨pages, s', ran, fun page found => ?_, ?_, Paging.onPages_eq_iff some⟩
  · obtain ⟨i, -, total, last, -⟩ := exists_of_forall₂ given.flip found
    exact ⟨total, last⟩
  · exact List.rel_flatMap given fun i page each => each.2.2

end Optimizer

namespace Ledger

theorem entries_written : entries.compile (optimizer.compiler []) = .ok (compiled entries) :=
  Plan.compile_eq_ok_iff.mpr
    ⟨rfl, rfl, _, (Sql.Draft.ofDraft_eq_ok_iff _ _ _).mpr ⟨by decide, rfl⟩, rfl⟩

def counting : Statement :=
  ⟨"SELECT COUNT(*) AS \"aggregate\" FROM (SELECT \"entries\".\"id\" FROM \"entries\") " ++
    "AS \"aggregate_table\"", []⟩

theorem counting_written : entries.count (optimizer.compiler []) = .ok counting := by decide +kernel

theorem countOf_counting : Optimizer.countOf (answer counting) = held.length := by decide +kernel

theorem counted (size : Nat) : Paging.Counted ⟨optimizer, entries, size, held, []⟩ :=
  ⟨counting, counting_written, fun _ _ => ⟨answer counting, rfl, countOf_counting⟩⟩

end Ledger

open Ledger in
theorem Optimizer.paginate_covers_ledger :
    (optimizer.paginating entries 2 held start.memo).Fits (compiled entries) ∧
      (optimizer.paginating entries 2 held start.memo).Counted ∧ held.length ≤ Page.most ∧
      (optimizer.paginating entries 2 held start.memo).Ready
        (optimizer.paginating entries 2 held start.memo).Asked start ∧
      ∃ pages s', ((List.range (optimizer.paginating entries 2 held start.memo).last).mapM fun i =>
          optimizer.paginate entries 2 (i + 1)).run start = (.ok pages, s') ∧
        (∀ page ∈ pages, page.total = held.length ∧
          page.last = (optimizer.paginating entries 2 held start.memo).last) ∧
        List.Forall₂ (optimizer.Presents entries (compiled entries).layout)
          (optimizer.paginating entries 2 held start.memo).onPages (pages.flatMap Page.data) ∧
        ((optimizer.paginating entries 2 held start.memo).onPages = held ↔
          ∀ most, optimizer.config.maxLimit = some most → max 2 1 ≤ most ∨ held.length ≤ most) :=
  ⟨fits rfl entries_written 2, counted 2, by decide, ready _ rfl _,
    paginate_covers (s := start) optimizer entries 2 held (fits rfl entries_written 2) (counted 2)
      (by decide) (ready _ rfl _)⟩

open Ledger in
/-- Of five entries on pages of three, where a statement gives two at most, the third is on no page. -/
theorem Optimizer.paginate_loses_entries :
    optimizer.config.validate = .ok () ∧
      (optimizer.paginating entries 3 held start.memo).Fits (compiled entries) ∧
      (optimizer.paginating entries 3 held start.memo).Counted ∧
      (optimizer.paginating entries 3 held start.memo).last = 2 ∧
      (((List.range 2).mapM fun i => optimizer.paginate entries 3 (i + 1)).run start).1.map
        (fun pages => pages.map fun page => (page.data, page.total, page.last)) =
          .ok [(held.take 2, 5, 2), (held.drop 3, 5, 2)] ∧
      held.take 2 ++ held.drop 3 ≠ held :=
  ⟨rfl, fits rfl entries_written 3, counted 3, rfl, by decide +kernel, by decide⟩

end EagerLoad
