import EagerLoad.Proofs.Run.Chunked
import EagerLoad.Proofs.Run.Journal

/-! # Going through pages

Chunks and single rows are taken from the same pages: both ask for the next one until a page is empty,
shorter than asked for or cannot be had. A receiver that refuses a chunk has seen the last page. -/
namespace EagerLoad

theorem Run.noteAll_nil : (Run.noteAll [] : Run ε σ Unit) = pure () := by
  funext s
  simp only [Run.noteAll, run_modify, List.append_nil]
  rfl

theorem Run.noteAll_cons (n : Notice) (ns : List Notice) :
    (Run.noteAll (n :: ns) : Run ε σ Unit) = (do Run.note n; Run.noteAll ns) := by
  funext s
  simp [Run.noteAll, Run.note, run_bind, run_modify]

namespace Optimizer

/-! ## Beside a journal -/

namespace Twins

variable {R : State ε σ → State δ τ → Prop} {o : Optimizer ε σ} {o' : Optimizer δ τ}
  (twins : Twins R o o')
include twins

theorem noteAll (ns : List Notice) :
    Parallel R (Run.noteAll ns : Run ε σ Unit) (Run.noteAll ns : Run δ τ Unit) := by
  induction ns with
  | nil => rw [Run.noteAll_nil, Run.noteAll_nil]; exact .pure _
  | cons n ns ih => rw [Run.noteAll_cons, Run.noteAll_cons]; exact .bind (twins.note n) fun _ => ih

theorem rows (p : Plan) : Parallel R (o.rows p).run (o'.rows p).run := by
  have report : Parallel R (o.getWithReport p).run (o'.getWithReport p).run := by
    refine .attempt (twins.run p) fun x => ?_
    exact .attempt (.lift (.bind (twins.noteAll _) fun _ => .pure _)) fun rows => .pure _
  exact .attempt report fun found => .pure _

theorem chunkFrom (p : Plan) (size : Nat) (receive : List (List Row) → Option QueryError)
    (fuel offset : Nat) (seen : List (List Row)) :
    Parallel R (o.chunkFrom p size receive fuel offset seen)
      (o'.chunkFrom p size receive fuel offset seen) := by
  induction fuel generalizing offset seen with
  | zero => exact .pure _
  | succ fuel ih =>
    refine .bind (twins.rows _) fun answer => ?_
    match answer with
    | .error e => exact .pure _
    | .ok [] => exact .pure _
    | .ok (row :: rest) =>
      dsimp only
      split
      · exact .pure _
      · split
        · exact .pure _
        · exact ih _ _

theorem drain (p : Plan) (size fuel : Nat) (cursor : Cursor) :
    Parallel R (o.drain p size fuel cursor) (o'.drain p size fuel cursor) := by
  induction fuel generalizing cursor with
  | zero => exact .pure _
  | succ fuel ih =>
    have advance : Parallel R (o.advance p size cursor).run (o'.advance p size cursor).run := by
      unfold advance
      split
      · exact .pure _
      · exact .attempt (twins.rows _) fun page => .pure _
    refine .bind advance fun answer => ?_
    match answer with
    | .error e => exact .pure _
    | .ok ([], _) => exact .pure _
    | .ok (row :: rest, next) => exact .bind (ih next) fun later => .pure _

end Twins

/-! ## One page -/

variable {o : Optimizer ε σ} {p : Plan} {size fuel offset : Nat}
  {receive : List (List Row) → Option QueryError} {seen : List (List Row)} {s t : State ε σ}

section Page

theorem chunkFrom_failed {e : QueryError}
    (asked : (o.rows ((p.withLimit size).withOffset offset)).run s = (.error e, t)) :
    o.chunkFrom p size receive (fuel + 1) offset seen s = ((seen, .failed e), t) := by
  rw [chunkFrom, run_bind, asked]
  rfl

theorem chunkFrom_empty
    (asked : (o.rows ((p.withLimit size).withOffset offset)).run s = (.ok [], t)) :
    o.chunkFrom p size receive (fuel + 1) offset seen s = ((seen, .finished), t) := by
  rw [chunkFrom, run_bind, asked]
  rfl

variable {page : List Row} (some : page ≠ [])
  (asked : (o.rows ((p.withLimit size).withOffset offset)).run s = (.ok page, t))
include some asked

theorem chunkFrom_refused {e : QueryError} (refused : receive (seen ++ [page]) = .some e) :
    o.chunkFrom p size receive (fuel + 1) offset seen s = ((seen ++ [page], .failed e), t) := by
  obtain ⟨row, rest, rfl⟩ := List.exists_cons_of_ne_nil some
  rw [chunkFrom, run_bind, asked]
  simp only [refused]
  rfl

theorem chunkFrom_accepted (accepted : receive (seen ++ [page]) = none) :
    o.chunkFrom p size receive (fuel + 1) offset seen s =
      if page.length < size then ((seen ++ [page], .finished), t)
      else o.chunkFrom p size receive fuel (offset + size) (seen ++ [page]) t := by
  obtain ⟨row, rest, rfl⟩ := List.exists_cons_of_ne_nil some
  rw [chunkFrom, run_bind, asked]
  simp only [accepted]
  split <;> rfl

end Page

theorem drain_exhausted : o.drain p size (fuel + 1) ⟨offset, true⟩ s = (([], .finished), s) := rfl

theorem advance_run : (o.advance p size ⟨offset, false⟩).run s =
    match (o.rows ((p.withLimit size).withOffset offset)).run s with
    | (.ok page, t) => (.ok (page, ⟨offset + size, page.length < size⟩), t)
    | (.error e, t) => (.error e, t) := by
  let next (page : List Row) : Attempt ε σ (List Row × Cursor) :=
    pure (page, ⟨offset + size, page.length < size⟩)
  let asked := (o.rows ((p.withLimit size).withOffset offset)).run s
  change ExceptT.bindCont next asked.1 asked.2 = match asked with
    | (.ok page, t) => (.ok (page, ⟨offset + size, page.length < size⟩), t)
    | (.error e, t) => (.error e, t)
  rcases asked with ⟨_ | page, t⟩ <;> rfl

theorem drain_failed {e : QueryError}
    (asked : (o.rows ((p.withLimit size).withOffset offset)).run s = (.error e, t)) :
    o.drain p size (fuel + 1) ⟨offset, false⟩ s = (([], .failed e), t) := by
  rw [drain, run_bind, advance_run, asked]
  rfl

theorem drain_empty
    (asked : (o.rows ((p.withLimit size).withOffset offset)).run s = (.ok [], t)) :
    o.drain p size (fuel + 1) ⟨offset, false⟩ s = (([], .finished), t) := by
  rw [drain, run_bind, advance_run, asked]
  rfl

theorem drain_page (fuel : Nat) {page : List Row} (some : page ≠ [])
    (asked : (o.rows ((p.withLimit size).withOffset offset)).run s = (.ok page, t))
    {rows : List Row} {ending : Ending} {u : State ε σ}
    (later : o.drain p size fuel ⟨offset + size, page.length < size⟩ t = ((rows, ending), u)) :
    o.drain p size (fuel + 1) ⟨offset, false⟩ s = ((page ++ rows, ending), u) := by
  obtain ⟨row, rest, rfl⟩ := List.exists_cons_of_ne_nil some
  rw [drain, run_bind, advance_run, asked]
  simp only [run_bind, later]
  rfl

/-! ## All pages -/

/-- One more page is allowed for, since drained rows end only when the next ones are asked for. -/
theorem drain_of_chunkFrom (seen : List (List Row))
    (ended : (o.chunkFrom p size (fun _ => none) fuel offset seen s).1.2 ≠ .unfinished) :
    ∃ chunks ending t,
      o.chunkFrom p size (fun _ => none) fuel offset seen s = ((seen ++ chunks, ending), t) ∧
      o.drain p size (fuel + 1) ⟨offset, false⟩ s = ((chunks.flatten, ending), t) := by
  induction fuel generalizing offset seen s with
  | zero => exact absurd rfl ended
  | succ fuel ih =>
    match asked : (o.rows ((p.withLimit size).withOffset offset)).run s with
    | (.error e, t) =>
      exact ⟨[], .failed e, t, by rw [chunkFrom_failed asked, List.append_nil], drain_failed asked⟩
    | (.ok [], t) =>
      exact ⟨[], .finished, t, by rw [chunkFrom_empty asked, List.append_nil], drain_empty asked⟩
    | (.ok (row :: rest), t) =>
      have some : row :: rest ≠ [] := List.cons_ne_nil row rest
      rw [chunkFrom_accepted some asked rfl] at ended ⊢
      by_cases short : (row :: rest).length < size
      · refine ⟨[row :: rest], .finished, t, if_pos short, ?_⟩
        exact drain_page (fuel + 1) (u := t) some asked
          (by rw [decide_eq_true short]; exact drain_exhausted)
      · rw [if_neg short] at ended ⊢
        obtain ⟨chunks, ending, u, visited, drained⟩ := ih (seen ++ [row :: rest]) ended
        rw [List.append_assoc] at visited
        refine ⟨(row :: rest) :: chunks, ending, u, visited, ?_⟩
        rw [List.flatten_cons]
        apply drain_page _ some asked
        rw [decide_eq_false short]
        exact drained

theorem chunkFrom_of_drain (seen : List (List Row))
    (ended : (o.drain p size fuel ⟨offset, false⟩ s).1.2 ≠ .unfinished) :
    ∃ chunks ending t,
      o.chunkFrom p size (fun _ => none) fuel offset seen s = ((seen ++ chunks, ending), t) ∧
      o.drain p size fuel ⟨offset, false⟩ s = ((chunks.flatten, ending), t) := by
  induction fuel generalizing offset seen s with
  | zero => exact absurd rfl ended
  | succ fuel ih =>
    match asked : (o.rows ((p.withLimit size).withOffset offset)).run s with
    | (.error e, t) =>
      exact ⟨[], .failed e, t, by rw [chunkFrom_failed asked, List.append_nil], drain_failed asked⟩
    | (.ok [], t) =>
      exact ⟨[], .finished, t, by rw [chunkFrom_empty asked, List.append_nil], drain_empty asked⟩
    | (.ok (row :: rest), t) =>
      have some : row :: rest ≠ [] := List.cons_ne_nil row rest
      have both := drain_page fuel some asked rfl
      rw [both] at ended ⊢
      rw [chunkFrom_accepted some asked rfl]
      by_cases short : (row :: rest).length < size
      · rw [decide_eq_true short] at ended ⊢
        cases fuel with
        | zero => exact absurd rfl ended
        | succ fuel => exact ⟨[row :: rest], .finished, t, if_pos short, rfl⟩
      · rw [decide_eq_false short] at ended ⊢
        rw [if_neg short]
        obtain ⟨chunks, ending, u, visited, drained⟩ := ih (seen ++ [row :: rest]) ended
        rw [List.append_assoc] at visited
        exact ⟨(row :: rest) :: chunks, ending, u, visited, by rw [drained, List.flatten_cons]⟩

/-- An iteration that has ended asks for no more pages. -/
theorem chunkFrom_of_ended (ended : (o.chunkFrom p size receive fuel offset seen s).1.2 ≠ .unfinished)
    {more : Nat} (enough : fuel ≤ more) :
    o.chunkFrom p size receive more offset seen s = o.chunkFrom p size receive fuel offset seen s := by
  induction fuel generalizing more offset seen s with
  | zero => exact absurd rfl ended
  | succ fuel ih =>
    obtain ⟨more, rfl⟩ : ∃ m, more = m + 1 := Nat.exists_eq_add_of_le' (Nat.le_of_add_left_le enough)
    match asked : (o.rows ((p.withLimit size).withOffset offset)).run s with
    | (.error e, t) => rw [chunkFrom_failed asked, chunkFrom_failed asked]
    | (.ok [], t) => rw [chunkFrom_empty asked, chunkFrom_empty asked]
    | (.ok (row :: rest), t) =>
      have some : row :: rest ≠ [] := List.cons_ne_nil row rest
      cases answer : receive (seen ++ [row :: rest]) with
      | some e => rw [chunkFrom_refused some asked answer, chunkFrom_refused some asked answer]
      | none =>
        rw [chunkFrom_accepted some asked answer] at ended
        rw [chunkFrom_accepted some asked answer, chunkFrom_accepted some asked answer]
        split
        · rfl
        · rename_i full
          rw [if_neg full] at ended
          exact ih ended (Nat.le_of_succ_le_succ enough)

/-- Chunks are handed over one after the other, and none of them is empty. -/
theorem chunkFrom_appends (receive : List (List Row) → Option QueryError) (fuel offset : Nat)
    (seen : List (List Row)) (s : State ε σ) :
    ∃ more, (o.chunkFrom p size receive fuel offset seen s).1.1 = seen ++ more ∧
      ∀ chunk ∈ more, chunk ≠ [] := by
  have nothing (seen : List (List Row)) : ∃ more, seen = seen ++ more ∧ ∀ chunk ∈ more, chunk ≠ [] :=
    ⟨[], (List.append_nil seen).symm, nofun⟩
  induction fuel generalizing offset seen s with
  | zero => exact nothing seen
  | succ fuel ih =>
    match asked : (o.rows ((p.withLimit size).withOffset offset)).run s with
    | (.error e, t) => rw [chunkFrom_failed asked]; exact nothing seen
    | (.ok [], t) => rw [chunkFrom_empty asked]; exact nothing seen
    | (.ok (row :: rest), t) =>
      have some : row :: rest ≠ [] := List.cons_ne_nil row rest
      have one : ∀ chunk ∈ [row :: rest], chunk ≠ [] := by simp
      cases answer : receive (seen ++ [row :: rest]) with
      | some e =>
        rw [chunkFrom_refused some asked answer]
        exact ⟨[row :: rest], rfl, one⟩
      | none =>
        rw [chunkFrom_accepted some asked answer]
        split
        · exact ⟨[row :: rest], rfl, one⟩
        · obtain ⟨more, same, filled⟩ := ih (offset + size) (seen ++ [row :: rest]) t
          rw [List.append_assoc] at same
          exact ⟨(row :: rest) :: more, same, List.forall_mem_cons.mpr ⟨some, filled⟩⟩

/-- The chunk that is refused is the last page that is asked for. -/
theorem chunkFrom_of_refused (seen : List (List Row)) {e : QueryError} {n : Nat}
    {handed : List (List Row)} (enough : n ≤ fuel)
    (pages : (o.chunkFrom p size (fun _ => none) n offset seen s).1.1 = seen ++ handed)
    (all : handed.length = n) (positive : 0 < n)
    (accepted : ∀ m, 0 < m → m < n → receive (seen ++ handed.take m) = none)
    (refused : receive (seen ++ handed) = some e) :
    o.chunkFrom p size receive fuel offset seen s =
      ((seen ++ handed, .failed e), (o.chunkFrom p size (fun _ => none) n offset seen s).2) := by
  induction n generalizing fuel offset seen s handed with
  | zero => exact absurd positive (Nat.lt_irrefl 0)
  | succ n ih =>
    obtain ⟨fuel, rfl⟩ : ∃ f, fuel = f + 1 := Nat.exists_eq_add_of_le' (Nat.le_of_add_left_le enough)
    have nonempty : handed ≠ [] := List.ne_nil_of_length_pos (by omega)
    match asked : (o.rows ((p.withLimit size).withOffset offset)).run s with
    | (.error e, t) =>
      rw [chunkFrom_failed asked] at pages
      exact absurd (List.self_eq_append_right.mp pages) nonempty
    | (.ok [], t) =>
      rw [chunkFrom_empty asked] at pages
      exact absurd (List.self_eq_append_right.mp pages) nonempty
    | (.ok (row :: rest), t) =>
      have some : row :: rest ≠ [] := List.cons_ne_nil row rest
      have bounded : o.chunkFrom p size (fun _ => none) (n + 1) offset seen s =
          if (row :: rest).length < size then ((seen ++ [row :: rest], .finished), t)
          else o.chunkFrom p size (fun _ => none) n (offset + size) (seen ++ [row :: rest]) t :=
        chunkFrom_accepted some asked rfl
      rw [bounded] at pages ⊢
      by_cases short : (row :: rest).length < size
      · rw [if_pos short] at pages ⊢
        obtain rfl : [row :: rest] = handed := List.append_cancel_left pages
        exact chunkFrom_refused some asked refused
      · rw [if_neg short] at pages ⊢
        obtain ⟨more, longer, -⟩ := chunkFrom_appends (o := o) (p := p) (fun _ => none) n
          (offset + size) (seen ++ [row :: rest]) t
        obtain rfl : [row :: rest] ++ more = handed := by
          rw [longer, List.append_assoc] at pages
          exact List.append_cancel_left pages
        rw [List.length_append, List.length_singleton] at all
        rw [← List.append_assoc] at pages refused ⊢
        cases n with
        | zero =>
          obtain rfl : more = [] := List.eq_nil_of_length_eq_zero (by omega)
          rw [List.append_nil] at refused ⊢
          exact chunkFrom_refused some asked refused
        | succ n =>
          have taken : receive (seen ++ [row :: rest]) = none := accepted 1 Nat.one_pos (by omega)
          rw [chunkFrom_accepted some asked taken, if_neg short]
          apply ih _ (by omega) pages (by omega) (Nat.succ_pos n) _ refused
          intro m positive fewer
          rw [List.append_assoc]
          exact accepted (m + 1) (Nat.succ_pos m) (by omega)

/-! ## Whole iterations -/

/-- Whether an iteration gives something and ends in some way, having sent some statements and leaving a
state, if enough pages may be asked for. The second function is the iteration with a journal. -/
def Ends (x : Nat → Run ε σ (α × Ending))
    (journaled : Nat → Run (ε × List Exchange) (σ × List (String × String)) (α × Ending))
    (s : State ε σ) (a : α) (ending : Ending) (sent : List Exchange) (left : State ε σ) : Prop :=
  ending ≠ .unfinished ∧ ∃ enough, ∀ fuel, enough ≤ fuel →
    x fuel s = ((a, ending), left) ∧ Journaled.exchanges (journaled fuel s.opened).2 = sent

/-- What is handed to a receiver chunk by chunk. -/
def Chunks (o : Optimizer ε σ) (p : Plan) (size : Nat)
    (receive : List (List Row) → Option QueryError) :=
  Ends (o.chunk p size receive) (o.journaled.chunk p size receive)

/-- What is yielded row by row. -/
def Yields (o : Optimizer ε σ) (p : Plan) (size : Nat) :=
  Ends (o.lazily p size) (o.journaled.lazily p size)

section Twice

variable (o p size fuel s)

theorem lazily_of_chunk (ended : (o.chunk p size (fun _ => none) fuel s).1.2 ≠ .unfinished) :
    ∃ chunks ending t, o.chunk p size (fun _ => none) fuel s = ((chunks, ending), t) ∧
      o.lazily p size (fuel + 1) s = ((chunks.flatten, ending), t) :=
  drain_of_chunkFrom [] ended

theorem chunk_of_lazily (ended : (o.lazily p size fuel s).1.2 ≠ .unfinished) :
    ∃ chunks ending t, o.chunk p size (fun _ => none) fuel s = ((chunks, ending), t) ∧
      o.lazily p size fuel s = ((chunks.flatten, ending), t) :=
  chunkFrom_of_drain [] ended

end Twice

/-- Beside a journal the same is handed over. -/
theorem chunk_opened (receive : List (List Row) → Option QueryError) :
    (o.journaled.chunk p size receive fuel s.opened).1 = (o.chunk p size receive fuel s).1 :=
  (mirrors_iff_parallel.mpr (.bind (o.journaled_twins.noteAll _) fun _ =>
    o.journaled_twins.chunkFrom _ _ _ _ _ _) s.opened).1

theorem lazily_opened : (o.journaled.lazily p size fuel s.opened).1 = (o.lazily p size fuel s).1 :=
  (mirrors_iff_parallel.mpr (.bind (o.journaled_twins.noteAll _) fun _ =>
    o.journaled_twins.drain _ _ _ _) s.opened).1

theorem chunk_ne_nil : ∀ chunk ∈ (o.chunk p size receive fuel s).1.1, chunk ≠ [] := by
  obtain ⟨more, same, filled⟩ :
      ∃ more, (o.chunk p size receive fuel s).1.1 = [] ++ more ∧ ∀ chunk ∈ more, chunk ≠ [] :=
    chunkFrom_appends receive fuel 0 [] _
  rw [same]
  exact filled

/-- Chunks that have ended once end in the same way if more pages may be asked for. -/
theorem chunks_of_ended {chunks : List (List Row)} {ending : Ending} {left : State ε σ}
    (ended : ending ≠ .unfinished) (ran : o.chunk p size receive fuel s = ((chunks, ending), left)) :
    o.Chunks p size receive s chunks ending
      (Journaled.exchanges (o.journaled.chunk p size receive fuel s.opened).2) left := by
  refine ⟨ended, fuel, fun more enough => ⟨?_, ?_⟩⟩
  · have plain : (o.chunk p size receive fuel s).1.2 ≠ .unfinished := by
      rw [ran]
      exact ended
    exact (chunkFrom_of_ended plain enough).trans ran
  · have journaled : (o.journaled.chunk p size receive fuel s.opened).1.2 ≠ .unfinished := by
      rw [chunk_opened, ran]
      exact ended
    exact congrArg (fun y => Journaled.exchanges y.2) (chunkFrom_of_ended journaled enough)

/-- What is yielded are the rows of all chunks in order. Both iterations end in the same way, having sent
the same statements. -/
theorem yields_iff {rows : List Row} {ending : Ending} {sent : List Exchange} {left : State ε σ} :
    o.Yields p size s rows ending sent left ↔
      ∃ chunks, o.Chunks p size (fun _ => none) s chunks ending sent left ∧ chunks.flatten = rows := by
  constructor
  · rintro ⟨ended, fuel, ran⟩
    obtain ⟨yielded, rfl⟩ := ran fuel (Nat.le_refl fuel)
    obtain ⟨chunks, _, _, visited, drained⟩ := chunk_of_lazily o p size fuel s
      (by rw [yielded]; exact ended)
    obtain ⟨same, rfl⟩ := Prod.mk.inj (yielded.symm.trans drained)
    obtain ⟨rfl, rfl⟩ := Prod.mk.inj same
    obtain ⟨_, _, _, journaled, others⟩ := chunk_of_lazily o.journaled p size fuel s.opened
      (by rw [lazily_opened, drained]; exact ended)
    have handed := chunks_of_ended ended visited
    rw [journaled] at handed
    rw [others]
    exact ⟨chunks, handed, rfl⟩
  · rintro ⟨chunks, ⟨ended, enough, ran⟩, rfl⟩
    refine ⟨ended, enough + 1, fun fuel more => ?_⟩
    obtain ⟨fuel, rfl⟩ : ∃ f, fuel = f + 1 := Nat.exists_eq_add_of_le' (Nat.le_of_add_left_le more)
    obtain ⟨handed, rfl⟩ := ran fuel (Nat.le_of_succ_le_succ more)
    obtain ⟨_, _, _, visited, drained⟩ := lazily_of_chunk o p size fuel s (by rw [handed]; exact ended)
    obtain ⟨_, _, _, journaled, others⟩ := lazily_of_chunk o.journaled p size fuel s.opened
      (by rw [chunk_opened, handed]; exact ended)
    obtain ⟨same, rfl⟩ := Prod.mk.inj (handed.symm.trans visited)
    obtain ⟨rfl, rfl⟩ := Prod.mk.inj same
    rw [journaled, others]
    exact ⟨drained, rfl⟩

/-- A receiver that refuses a chunk gets no other one, and no statement is sent after it. -/
theorem chunks_of_refused {e : QueryError} {n : Nat} {handed : List (List Row)}
    (pages : (o.chunk p size (fun _ => none) n s).1.1 = handed) (all : handed.length = n)
    (positive : 0 < n) (accepted : ∀ m, 0 < m → m < n → receive (handed.take m) = none)
    (refused : receive handed = some e) :
    o.Chunks p size receive s handed (.failed e)
      (Journaled.exchanges (o.journaled.chunk p size (fun _ => none) n s.opened).2)
      (o.chunk p size (fun _ => none) n s).2 := by
  have beside : (o.journaled.chunk p size (fun _ => none) n s.opened).1.1 = handed := by
    rw [chunk_opened, pages]
  have journaled : o.journaled.chunk p size receive n s.opened = ((handed, .failed e),
      (o.journaled.chunk p size (fun _ => none) n s.opened).2) :=
    chunkFrom_of_refused [] (Nat.le_refl n) beside all positive accepted refused
  have ran : o.chunk p size receive n s =
      ((handed, .failed e), (o.chunk p size (fun _ => none) n s).2) :=
    chunkFrom_of_refused [] (Nat.le_refl n) pages all positive accepted refused
  have stopped := chunks_of_ended (by simp) ran
  rw [journaled] at stopped
  exact stopped

/-- Whatever the executor answers, the rows that are yielded are those of the chunks in order, and both ways
end alike after the same statements. No chunk is empty. The first chunk that a receiver refuses ends the
iteration with its error: what was sent is what was sent for the pages so far. -/
theorem yields_chunks (o : Optimizer ε σ) (p : Plan) (size : Nat) (s : State ε σ) :
    (∀ receive : List (List Row) → Option QueryError, (∀ seen, receive seen = none) →
      ∀ rows ending sent left, o.Yields p size s rows ending sent left ↔
        ∃ chunks, o.Chunks p size receive s chunks ending sent left ∧ chunks.flatten = rows) ∧
    (∀ receive fuel, ∀ chunk ∈ (o.chunk p size receive fuel s).1.1, chunk ≠ []) ∧
    ∀ (receive : List (List Row) → Option QueryError) n handed e,
      (o.chunk p size (fun _ => none) n s).1.1 = handed → handed.length = n → 0 < n →
      (∀ m, 0 < m → m < n → receive (handed.take m) = none) → receive handed = some e →
      o.Chunks p size receive s handed (.failed e)
        (Journaled.exchanges (o.journaled.chunk p size (fun _ => none) n s.opened).2)
        (o.chunk p size (fun _ => none) n s).2 := by
  refine ⟨?_, ?_, ?_⟩
  · intro receive accepts rows ending sent left
    obtain rfl : receive = fun _ => none := funext accepts
    exact yields_iff
  · exact fun receive fuel => chunk_ne_nil
  · intro receive n handed e pages all positive accepted refused
    exact chunks_of_refused pages all positive accepted refused

end Optimizer

namespace Scripted

open Ledger (entry entries held)

/-- The pages of a script answer one statement after the other, whatever these ask for. -/
def optimizer : Optimizer (List (List Row)) MemoryStore :=
  { config := {}
    registry := [("Entry", entry)]
    executor := ⟨.sqlite, fun _ _ pages => { answer := .ok (pages.headD []), next := pages.tail }⟩
    store := none }

/-- The first page is longer than asked for. -/
def pages : List (List Row) := [held.take 3, held.drop 3]

def start : State (List (List Row)) MemoryStore := { executor := pages, store := {} }

/-- A receiver that has no room for more than four entries. -/
def crowded (seen : List (List Row)) : Option QueryError :=
  if seen.flatten.length ≤ 4 then none else some (.notFound "room")

theorem all : (optimizer.chunk entries 2 (fun _ => none) 3 start).1 = (pages, .finished) := by
  decide +kernel

theorem two : (optimizer.chunk entries 2 (fun _ => none) 2 start).1.1 = pages := by
  decide +kernel

end Scripted

open Scripted in
/-- The third page would be empty. It is not asked for if the second chunk is refused. -/
theorem Optimizer.yields_chunks_scripted :
    (∃ sent left, optimizer.Yields Ledger.entries 2 start Ledger.held .finished sent left ∧
        sent.length = 3) ∧
      (∀ chunk ∈ pages, chunk ≠ []) ∧
      ∃ sent left, optimizer.Chunks Ledger.entries 2 crowded start pages (.failed (.notFound "room"))
        sent left ∧ sent.length = 2 := by
  obtain ⟨yields, filled, stops⟩ := yields_chunks optimizer Ledger.entries 2 start
  have ran : optimizer.chunk Ledger.entries 2 (fun _ => none) 3 start =
      ((pages, .finished), (optimizer.chunk Ledger.entries 2 (fun _ => none) 3 start).2) := by
    rw [← all, Prod.mk.eta]
  have handed := chunks_of_ended (by decide) ran
  have yielded := (yields (fun _ => none) (fun _ => rfl) Ledger.held .finished _ _).mpr
    ⟨pages, handed, rfl⟩
  have accepted : ∀ m, 0 < m → m < 2 → crowded (pages.take m) = none := by
    intro m positive fewer
    obtain rfl : m = 1 := by omega
    rfl
  have stopped := stops crowded 2 pages (.notFound "room") two rfl Nat.two_pos accepted rfl
  have nonempty := filled (fun _ => none) 3
  rw [all] at nonempty
  exact ⟨⟨_, _, yielded, by decide +kernel⟩, nonempty, ⟨_, _, stopped, by decide +kernel⟩⟩

end EagerLoad
