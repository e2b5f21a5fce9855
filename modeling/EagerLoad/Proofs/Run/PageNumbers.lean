import EagerLoad.Proofs.Run.Counted
import EagerLoad.Proofs.Run.Iterated
import EagerLoad.Proofs.Run.Paginated
import EagerLoad.Proofs.Run.Stems

/-! # The numbers of a page

A page is asked for by numbers of 64 bits and tells numbers of 64 bits. Its words are added and multiplied
up to the greatest one and never beyond it, so they are the numbers that they stand for: which rows are
asked for, how many pages there are, whether one follows, and which rows the page shows. -/
namespace EagerLoad

/-! ## Words -/

namespace Word

def greatest : UInt64 := 0 - 1

/-- Adds up to the greatest word. -/
def addUpTo (a b : UInt64) : UInt64 := if a ≤ greatest - b then a + b else greatest

/-- Multiplies up to the greatest word. -/
def mulUpTo (a b : UInt64) : UInt64 :=
  if b = 0 then 0 else if a ≤ greatest / b then a * b else greatest

/-- Divides, counting one more for what is left. -/
def divUp (a b : UInt64) : UInt64 := if a % b = 0 then a / b else a / b + 1

theorem toNat_greatest : greatest.toNat = Page.most := by decide

theorem toNat_le_most (a : UInt64) : a.toNat ≤ Page.most := Nat.le_of_lt_succ a.toNat_lt

theorem mod_of_le_most {n : Nat} (fits : n ≤ Page.most) : n % 2 ^ 64 = n :=
  Nat.mod_eq_of_lt (Nat.lt_succ_of_le fits)

theorem toNat_max (a b : UInt64) : (max a b).toNat = max a.toNat b.toNat := by
  show (if a ≤ b then b else a).toNat = _
  by_cases less : a ≤ b
  · rw [if_pos less, Nat.max_eq_right (UInt64.le_iff_toNat_le.mp less)]
  · rw [if_neg less, Nat.max_eq_left]
    exact Nat.le_of_not_le fun other => less (UInt64.le_iff_toNat_le.mpr other)

theorem toNat_addUpTo (a b : UInt64) : (addUpTo a b).toNat = min (a.toNat + b.toNat) Page.most := by
  have below := toNat_le_most b
  have room : (greatest - b).toNat = Page.most - b.toNat := by
    rw [UInt64.toNat_sub_of_le _ _ (UInt64.le_iff_toNat_le.mpr (toNat_greatest ▸ below)), toNat_greatest]
  unfold addUpTo
  by_cases fits : a ≤ greatest - b
  · have sum : a.toNat + b.toNat ≤ Page.most := by
      have less := UInt64.le_iff_toNat_le.mp fits
      omega
    rw [if_pos fits, UInt64.toNat_add, mod_of_le_most sum, Nat.min_eq_left sum]
  · have beyond : Page.most ≤ a.toNat + b.toNat := by
      rw [UInt64.le_iff_toNat_le] at fits
      omega
    rw [if_neg fits, toNat_greatest, Nat.min_eq_right beyond]

theorem toNat_mulUpTo (a b : UInt64) : (mulUpTo a b).toNat = min (a.toNat * b.toNat) Page.most := by
  unfold mulUpTo
  by_cases none : b = 0
  · subst none
    simp
  · have positive : 0 < b.toNat := Nat.pos_of_ne_zero fun zero => none (UInt64.toNat_inj.mp zero)
    have room : a ≤ greatest / b ↔ a.toNat * b.toNat ≤ Page.most := by
      rw [UInt64.le_iff_toNat_le, UInt64.toNat_div, toNat_greatest, Nat.le_div_iff_mul_le positive]
    rw [if_neg none]
    by_cases fits : a ≤ greatest / b
    · have product := room.mp fits
      rw [if_pos fits, UInt64.toNat_mul, mod_of_le_most product,
        Nat.min_eq_left product]
    · rw [if_neg fits, toNat_greatest, Nat.min_eq_right (Nat.le_of_not_le fun less => fits (room.mpr less))]

theorem toNat_divUp (a : UInt64) {b : UInt64} (positive : 0 < b.toNat) :
    (divUp a b).toNat = (a.toNat + b.toNat - 1) / b.toNat := by
  have parts : a.toNat / b.toNat * b.toNat + a.toNat % b.toNat = a.toNat := Nat.div_add_mod' _ _
  have less : a.toNat % b.toNat < b.toNat := Nat.mod_lt _ positive
  have fits := toNat_le_most a
  have many : a.toNat / b.toNat ≤ a.toNat / b.toNat * b.toNat := Nat.le_mul_of_pos_right _ positive
  have left : a % b = 0 ↔ a.toNat % b.toNat = 0 := by
    rw [← UInt64.toNat_inj, UInt64.toNat_mod]
    rfl
  unfold divUp
  by_cases even : a % b = 0
  · have none := left.mp even
    rw [if_pos even, UInt64.toNat_div]
    refine (Nat.div_eq_of_lt_le ?_ ?_).symm
    · omega
    · rw [Nat.succ_mul]
      omega
  · have some : 0 < a.toNat % b.toNat := Nat.pos_of_ne_zero (mt left.mpr even)
    have fits' : a.toNat / b.toNat + 1 ≤ Page.most := by omega
    have one : (a / b + 1).toNat = a.toNat / b.toNat + 1 := by
      rw [UInt64.toNat_add, UInt64.toNat_div]
      exact mod_of_le_most fits'
    rw [if_neg even, one]
    refine (Nat.div_eq_of_lt_le ?_ ?_).symm
    · rw [Nat.succ_mul]
      omega
    · rw [Nat.succ_mul, Nat.succ_mul]
      omega

end Word

/-- The words that a page is asked for and told by: its size and number, how many rows there are, and how
many are on it. -/
structure PageWords where
  perPage : UInt64
  page : UInt64
  total : UInt64
  found : UInt64

namespace PageWords

variable (w : PageWords)

def size : UInt64 := max w.perPage 1

def current : UInt64 := max w.page 1

def offset : UInt64 := Word.mulUpTo (w.current - 1) w.size

def last : UInt64 := max (Word.divUp w.total w.size) 1

def hasMore : Bool := w.current < w.last

def first? : Option UInt64 := if w.found = 0 then none else some (Word.addUpTo w.offset 1)

def last? : Option UInt64 := w.first?.map fun n => Word.addUpTo n (w.found - 1)

theorem toNat_size : w.size.toNat = max w.perPage.toNat 1 := Word.toNat_max w.perPage 1

theorem toNat_current : w.current.toNat = max w.page.toNat 1 := Word.toNat_max w.page 1

theorem toNat_offset :
    w.offset.toNat = min ((max w.page.toNat 1 - 1) * max w.perPage.toNat 1) Page.most := by
  have before : (w.current - 1).toNat = max w.page.toNat 1 - 1 := by
    rw [UInt64.toNat_sub_of_le _ _ (UInt64.le_iff_toNat_le.mpr ?_), toNat_current]
    · rfl
    · rw [toNat_current]
      exact Nat.le_max_right _ _
  rw [offset, Word.toNat_mulUpTo, before, toNat_size]

theorem toNat_last : w.last.toNat =
    max ((w.total.toNat + max w.perPage.toNat 1 - 1) / max w.perPage.toNat 1) 1 := by
  have positive : 0 < w.size.toNat := by
    rw [toNat_size]
    exact Nat.le_max_right _ _
  rw [last, Word.toNat_max, Word.toNat_divUp _ positive, toNat_size]
  rfl

/-- Whether the words are the numbers of a page. -/
structure Tells (w : PageWords) (x : Page) : Prop where
  perPage : w.size.toNat = x.perPage
  current : w.current.toNat = x.current
  last : w.last.toNat = x.last
  more : w.hasMore = x.hasMore
  first : w.first?.map UInt64.toNat = x.first?
  final : w.last?.map UInt64.toNat = x.last?

end PageWords

namespace Page

/-- So many pieces are needed for a number that it is more than fit into fewer of them. -/
theorem lt_pieces_iff {size : Nat} (positive : 0 < size) (n k : Nat) :
    k < (n + size - 1) / size ↔ k * size < n := by
  rw [Nat.lt_iff_add_one_le, Nat.le_div_iff_mul_le positive, Nat.succ_mul]
  omega

/-- What holds of the numbers of a page that was asked for by its size and number. -/
structure Numbered (x : Page) (size number : UInt64) : Prop where
  perPage : x.perPage = max size.toNat 1
  current : x.current = max number.toNat 1
  some : 1 ≤ x.last
  /-- The pages have room for all rows, and one page less has not. -/
  covers : x.total ≤ x.last * x.perPage
  tight : 0 < x.total → (x.last - 1) * x.perPage < x.total
  /-- There is another page exactly if there are rows after this one. -/
  more : x.hasMore = true ↔ x.current * x.perPage < x.total
  first : x.data ≠ [] → x.first? = .some (min ((x.current - 1) * x.perPage + 1) most)
  final : x.data ≠ [] → x.last? =
    .some (min (min ((x.current - 1) * x.perPage + 1) most + x.data.length - 1) most)
  none : x.data = [] → x.first? = .none ∧ x.last? = .none
  words : ∀ total found : UInt64, total.toNat = x.total → found.toNat = x.data.length →
    PageWords.Tells ⟨size, number, total, found⟩ x

/-- The page that is made of the rows and their number. -/
def numbered (perPage page total : Nat) (data : List Row) : Page :=
  { data, total
    perPage := max perPage 1
    current := max page 1
    last := max ((total + max perPage 1 - 1) / max perPage 1) 1 }

variable (perPage page : UInt64) (total : Nat) (data : List Row)

theorem tells_numbered (w : PageWords) (found : w.found.toNat = data.length) :
    w.Tells (numbered w.perPage.toNat w.page.toNat w.total.toNat data) := by
  have empty : data.isEmpty = true ↔ w.found = 0 := by
    rw [List.isEmpty_iff_length_eq_zero, ← found, ← UInt64.toNat_inj]
    rfl
  have first : w.first?.map UInt64.toNat =
      (numbered w.perPage.toNat w.page.toNat w.total.toNat data).first? := by
    unfold PageWords.first? first?
    by_cases none : w.found = 0
    · rw [if_pos none, numbered, if_pos (empty.mpr none)]
      rfl
    · rw [if_neg none, numbered, if_neg (mt empty.mp none), Option.map_some, Word.toNat_addUpTo,
        PageWords.toNat_offset]
      rfl
  refine ⟨w.toNat_size, w.toNat_current, w.toNat_last, ?_, first, ?_⟩
  · rw [PageWords.hasMore, hasMore]
    exact decide_eq_decide.mpr (by
      rw [UInt64.lt_iff_toNat_lt, w.toNat_current, w.toNat_last]
      rfl)
  · unfold PageWords.last? last?
    rw [← first]
    cases here : w.first? with
    | none => rfl
    | some n =>
      have some : w.found ≠ 0 := by
        intro none
        rw [PageWords.first?, if_pos none] at here
        cases here
      have one : (1 : UInt64) ≤ w.found := UInt64.le_iff_toNat_le.mpr <|
        Nat.pos_of_ne_zero fun zero => some (UInt64.toNat_inj.mp zero)
      have fewer : (w.found - 1).toNat = data.length - 1 := by
        rw [UInt64.toNat_sub_of_le _ _ one, found]
        rfl
      rw [Option.map_some, Option.map_some, Option.map_some, Option.map_some, Word.toNat_addUpTo, fewer]
      rfl

theorem numbered_numbered : (numbered perPage.toNat page.toNat total data).Numbered perPage page := by
  have positive : 0 < max perPage.toNat 1 := Nat.le_max_right _ _
  have begun : 1 ≤ max page.toNat 1 := Nat.le_max_right _ _
  have pieces := lt_pieces_iff positive total
  have first (filled : data ≠ []) : (numbered perPage.toNat page.toNat total data).first? =
      .some (min ((max page.toNat 1 - 1) * max perPage.toNat 1 + 1) most) := by
    have once (n : Nat) : min (min n most + 1) most = min (n + 1) most := by omega
    rw [← once]
    exact if_neg (mt List.isEmpty_iff.mp filled)
  constructor
  case perPage => rfl
  case current => rfl
  case some => exact Nat.le_max_right _ _
  case covers =>
    refine Nat.le_of_not_lt fun less => ?_
    exact absurd ((pieces _).mpr less) (Nat.not_lt_of_le (Nat.le_max_left _ _))
  case tight =>
    dsimp only [numbered]
    intro rows
    have one := (pieces 0).mpr (by omega)
    refine (pieces _).mp ?_
    omega
  case more =>
    dsimp only [numbered, hasMore]
    rw [← pieces, decide_eq_true_eq]
    omega
  case first => exact first
  case final =>
    intro filled
    have some : 0 < data.length := List.length_pos_of_ne_nil filled
    have reached (n : Nat) : n + (data.length - 1) = n + data.length - 1 := by omega
    rw [last?, first filled, Option.map_some]
    simp only [numbered, reached]
  case none =>
    rintro empty
    rw [last?, first?, if_pos (List.isEmpty_iff.mpr empty)]
    exact ⟨rfl, rfl⟩
  case words =>
    rintro counted found rfl rows
    exact tells_numbered data ⟨perPage, page, counted, found⟩ rows

end Page

namespace Optimizer

theorem Twins.count {R : State ε σ → State δ τ → Prop} {o : Optimizer ε σ} {o' : Optimizer δ τ}
    (twins : Twins R o o') (p : Plan) : Parallel R (o.count p).run (o'.count p).run := by
  have plain : Parallel R (plainRows o p p.countDraft p.count).run
      (plainRows o' p p.countDraft p.count).run := by
    refine .attempt_get fun s t related => ?_
    dsimp only
    rw [twins.compiler related]
    refine .attempt (.lift (twins.follow _)) fun _ => ?_
    cases p.count (o.compiler s.memo) with
    | error e => exact .pure _
    | ok statement =>
      show Parallel R (o.fetchPlain p statement) (o'.fetchPlain p statement)
      unfold fetchPlain
      rw [twins.timeout]
      refine .bind (twins.fetchLogged statement _) fun answer => ?_
      cases answer with
      | ok rows => exact .pure _
      | error e => exact .bind (twins.note _) fun _ => .pure _
  exact .attempt plain fun rows => .pure _

section Asking

theorem attempt_bind_of_ok {x : Attempt ε σ β} {next : β → Attempt ε σ α} {s : State ε σ} {b : β}
    (found : (x.run s).1 = .ok b) : (x >>= next).run s = (next b).run (x.run s).2 := by
  rw [attempt_bind, run_bind, found]
  rfl

/-- What comes of a result after an attempt leaves the journal as it is. -/
theorem exchanges_map (x : JournaledAttempt ε σ β) (f : β → α) (s : Journaled ε σ) :
    Journaled.exchanges ((x >>= fun b => pure (f b)).run s).2 = Journaled.exchanges (x.run s).2 := by
  rw [attempt_bind, run_bind]
  cases (x.run s).1 <;> rfl

/-- The statement is written once what its draft is about is noted. -/
theorem plainRows_run (o : Optimizer ε σ) (p : Plan) (draft : Compiler → Sql.Draft)
    (statement : Compiler → Except CompileError Statement) (s : State ε σ) :
    (plainRows o p draft statement).run s =
      (Fallback.compileStep (statement (o.compiler s.memo)) >>= fun sent =>
        attempt (o.fetchPlain p sent) : Attempt ε σ (List Row)).run
          (Run.follow (draft (o.compiler s.memo)) s).2 := by
  have read : ((get : Attempt ε σ (State ε σ)).run s).1 = .ok s := rfl
  unfold plainRows
  rw [attempt_bind_of_ok read, attempt_bind_of_ok rfl]
  cases statement (o.compiler s.memo) <;> rfl

variable {o : Optimizer ε σ} {p : Plan} {s : Journaled ε σ}

theorem plainRows_exchanges {draft : Compiler → Sql.Draft}
    {statement : Compiler → Except CompileError Statement} {rows : List Row}
    (answered : ((plainRows o.journaled p draft statement).run s).1 = .ok rows) :
    ∃ sent, statement (o.compiler s.memo) = .ok sent ∧
      Journaled.exchanges ((plainRows o.journaled p draft statement).run s).2 =
        s.exchanges ++ [⟨sent, .ok rows⟩] := by
  have writer : o.journaled.compiler s.memo = o.compiler s.memo := rfl
  rw [plainRows_run, writer] at answered ⊢
  cases written : statement (o.compiler s.memo) with
  | error e =>
    rw [written] at answered
    cases answered
  | ok sent =>
    rw [written] at answered
    have journal := o.fetchLogged_exchanges sent (o.journaled.timeout p)
      (Run.follow (draft (o.compiler s.memo)) s).2
    change (o.journaled.fetchPlain p sent _).1 = _ at answered
    refine ⟨sent, rfl, ?_⟩
    change Journaled.exchanges (o.journaled.fetchPlain p sent _).2 = _
    rw [fetchPlain, run_bind] at answered ⊢
    generalize o.journaled.fetchLogged sent _ _ = fetched at answered journal ⊢
    rcases fetched with ⟨e | found, t⟩
    · cases answered
    · obtain rfl := Except.ok.inj answered
      exact journal

theorem count_exchanges {total : Nat} (counted : ((o.journaled.count p).run s).1 = .ok total) :
    ∃ counting rows, p.count (o.compiler s.memo) = .ok counting ∧ countOf rows = total ∧
      Journaled.exchanges ((o.journaled.count p).run s).2 = s.exchanges ++ [⟨counting, .ok rows⟩] := by
  obtain ⟨rows, answered, number⟩ := attempt_bind_eq_ok_iff.mp counted
  obtain ⟨counting, written, exchanges⟩ := plainRows_exchanges answered
  refine ⟨counting, rows, written, Except.ok.inj number, ?_⟩
  rw [count, attempt_bind_of_ok answered]
  exact exchanges

/-- The base statement of a plan is the first that is sent when it is executed. -/
theorem execute_first (o : Optimizer ε σ) (p : Plan) (compiled : CompiledPlan) (s : Journaled ε σ) :
    ∃ answer later, Journaled.exchanges (o.journaled.execute p compiled s).2 =
      s.exchanges ++ ⟨compiled.query.base, answer⟩ :: later := by
  unfold execute
  rcases compiled with ⟨statement | split, layout, subqueries⟩
  · have sent := o.fetchLogged_exchanges statement (o.journaled.timeout p) s
    change ∃ answer later,
      Journaled.exchanges (o.journaled.executeSingle statement (o.journaled.timeout p) s).2 = _
    rw [executeSingle, run_bind]
    generalize o.journaled.fetchLogged statement (o.journaled.timeout p) s = fetched at sent ⊢
    rcases fetched with ⟨e | rows, t⟩ <;> exact ⟨_, [], sent⟩
  · obtain ⟨e, -, sent, -⟩ | ⟨rows, later, result, -, sent, -⟩ :=
      o.executeSplit_batches p split (o.journaled.timeout p) s
    · exact ⟨_, [], sent⟩
    · exact ⟨_, later, sent⟩

/-- The first statement that a run sends asks for the base rows of its plan. -/
theorem run_first (o : Optimizer ε σ) (p : Plan) (s : Journaled ε σ) :
    ∃ sent, Journaled.exchanges (o.journaled.run p s).2 = s.exchanges ++ sent ∧
      ∀ x ∈ sent.head?, o.AsksBase p x.statement := by
  obtain ⟨unsent, -, -⟩ := o.begin_unsent p s
  cases start : (o.journaled.begin p s).1 with
  | failed e =>
    rw [run_of_failed start]
    exact ⟨[], by rw [unsent, List.append_nil], nofun⟩
  | hit x =>
    rw [run_of_hit start]
    exact ⟨[], by rw [unsent, List.append_nil], nofun⟩
  | miss pending =>
    obtain ⟨c, compiles, -, same⟩ := begin_eq_miss_iff.mp start
    have base : o.AsksBase p pending.compiled.query.base := ⟨s.memo, .inl ⟨c, compiles, by rw [same]⟩⟩
    obtain ⟨answer, later, sent⟩ := o.execute_first p pending.compiled (o.journaled.begin p s).2
    rw [unsent] at sent
    cases executed : (o.journaled.execute p pending.compiled (o.journaled.begin p s).2).1 with
    | error e =>
      rw [run_of_unexecuted start executed]
      obtain ⟨more, longer⟩ := (o.recover_asks p pending.compiled.layout e
        (o.journaled.execute p pending.compiled (o.journaled.begin p s).2).2).exchanges
      refine ⟨⟨pending.compiled.query.base, answer⟩ :: (later ++ more), ?_, ?_⟩
      · rw [← longer, sent, List.append_assoc, List.cons_append]
      · rintro _ ⟨⟩
        exact base
    | ok found =>
      rw [run_of_executed start executed, (o.publish_journal p pending _ _).1]
      refine ⟨_, sent, ?_⟩
      rintro _ ⟨⟩
      exact base

theorem rows_first (o : Optimizer ε σ) (p : Plan) (s : Journaled ε σ) :
    ∃ sent, Journaled.exchanges ((o.journaled.rows p).run s).2 = s.exchanges ++ sent ∧
      ∀ x ∈ sent.head?, o.AsksBase p x.statement := by
  obtain ⟨sent, exchanges, first⟩ := o.run_first p s
  refine ⟨sent, ?_, first⟩
  have reported : (o.journaled.getWithReport p).run s = ExceptT.bindCont
      (fun x => (do
        let rows ← ExceptT.lift (noted (Decode.rows x.layout x.rows))
        return (rows, x.report) : JournaledAttempt ε σ (List Row × Report)))
      (o.journaled.run p s).1 (o.journaled.run p s).2 := rfl
  rw [rows, exchanges_map, reported, ← exchanges]
  cases (o.journaled.run p s).1 <;> rfl

end Asking

/-- Whether its relations are loaded along or not, a page is asked for with its limit and offset at the end. -/
theorem AsksBase.ends {o : Optimizer ε σ} {p : Plan} {limit offset : Nat} {statement : Statement}
    (asks : o.AsksBase (p.page limit offset) statement) :
    ∃ front, statement.sql = front ++ Sql.pageEnd (o.config.reach limit) offset := by
  obtain ⟨memo, ⟨c, compiles, rfl⟩ | ⟨keys, written⟩⟩ := asks
  · have ends := Plan.base_page compiles
    exact ends
  · have ends := Plan.baseOnly_page written
    exact ends

/-- The statements that a page is asked for by, and the numbers that it tells. -/
structure Paginates (o : Optimizer ε σ) (p : Plan) (perPage page : UInt64) (s : State ε σ) (total : Nat) :
    Prop where
  /-- After the statement that counts the rows, the first one asks for the rows of the page. -/
  asks : ∃ counting rows later, p.count (o.compiler s.memo) = .ok counting ∧ countOf rows = total ∧
    Journaled.exchanges ((o.journaled.paginate p perPage.toNat page.toNat).run s.opened).2 =
      ⟨counting, .ok rows⟩ :: later ∧
    ∀ x ∈ later.head?, o.AsksBase (p.page (max perPage.toNat 1)
      (min ((max page.toNat 1 - 1) * max perPage.toNat 1) Page.most)) x.statement
  /-- Every statement that asks for the rows of the page ends with its limit, lowered to the greatest one
  that is allowed, and its offset. -/
  bounds : ∀ statement, o.AsksBase (p.page (max perPage.toNat 1)
      (min ((max page.toNat 1 - 1) * max perPage.toNat 1) Page.most)) statement →
    ∃ front, statement.sql = front ++ Sql.pageEnd (o.config.reach (max perPage.toNat 1))
      (min ((max page.toNat 1 - 1) * max perPage.toNat 1) Page.most)
  /-- The offset is that of the words. -/
  offset : ∀ total found : UInt64, (⟨perPage, page, total, found⟩ : PageWords).offset.toNat =
    min ((max page.toNat 1 - 1) * max perPage.toNat 1) Page.most
  numbers : ∀ x, ((o.paginate p perPage.toNat page.toNat).run s).1 = .ok x →
    x.total = total ∧ x.Numbered perPage page

/-- The numbers of every page are exact or stop at the greatest one of 64 bits, whatever the size and the
number that it was asked for by and whatever the rows. -/
theorem paginate_numbers (o : Optimizer ε σ) (p : Plan) (perPage page : UInt64) (s : State ε σ)
    {total : Nat} (counted : ((o.count p).run s).1 = .ok total) : o.Paginates p perPage page s total := by
  constructor
  case asks =>
    have beside := (o.journaled_twins.count p s.opened s rfl).1.trans counted
    obtain ⟨counting, rows, written, number, exchanges⟩ := count_exchanges beside
    obtain ⟨later, all, first⟩ := o.rows_first (p.page (max perPage.toNat 1)
      (min ((max page.toNat 1 - 1) * max perPage.toNat 1) Page.most))
      ((o.journaled.count p).run s.opened).2
    refine ⟨counting, rows, later, written, number, ?_, first⟩
    rw [exchanges] at all
    rw [paginate, attempt_bind_of_ok beside]
    refine Eq.trans ?_ all
    exact exchanges_map _ _ _
  case bounds => exact fun statement asks => asks.ends
  case offset => exact fun total found => PageWords.toNat_offset ⟨perPage, page, total, found⟩
  case numbers =>
    intro x ran
    obtain ⟨number, found, rest⟩ := attempt_bind_eq_ok_iff.mp ran
    obtain rfl := Except.ok.inj (counted.symm.trans found)
    obtain ⟨data, -, same⟩ := attempt_bind_eq_ok_iff.mp rest
    obtain rfl := Except.ok.inj same
    exact ⟨rfl, Page.numbered_numbered perPage page total data⟩

end Optimizer

open Ledger in
/-- Five entries are on one page of the greatest size; the page of the greatest number shows none. -/
theorem Optimizer.paginate_numbers_ledger :
    ((optimizer.count entries).run start).1 = .ok 5 ∧
      ((optimizer.paginate entries Word.greatest.toNat Word.greatest.toNat).run start).1.map
        (fun x => (x.data, x.last, x.first?)) = .ok ([], 1, none) ∧
      optimizer.Paginates entries Word.greatest Word.greatest start 5 := by
  have counted : ((optimizer.count entries).run start).1 = .ok 5 := by decide +kernel
  exact ⟨counted, by decide +kernel,
    paginate_numbers optimizer entries Word.greatest Word.greatest start counted⟩

end EagerLoad
