import EagerLoad.Cache.Key
import EagerLoad.Proofs.Json.Unambiguous
import EagerLoad.Proofs.Plan.Recovered
import EagerLoad.Proofs.Sql.Numbered
import EagerLoad.Query.Call

/-! # The pages of a plan

A page is the plan with a limit and an offset in place of its own. It is compiled whenever the plan is,
to a statement that ends with both, the limit lowered to the greatest one of the configuration. What
is hashed for its key tells its offset. -/
namespace EagerLoad

open Sql Sql.Draft

/-- The end of a statement with a limit and an offset. -/
def Sql.pageEnd (limit offset : Nat) : String :=
  " LIMIT " ++ toString limit ++ " OFFSET " ++ toString offset

theorem Sql.question_notMem_pageEnd (limit offset : Nat) : '?' ∉ (pageEnd limit offset).toList := by
  have digits (n : Nat) : '?' ∉ (Nat.repr n).toList := fun found =>
    absurd (Json.natDigits_digits n '?' found) (by decide)
  rw [pageEnd]
  simp only [String.toList_append, List.mem_append, not_or]
  exact ⟨⟨⟨by decide, digits limit⟩, by decide⟩, digits offset⟩

/-- However a text is numbered, an end without question marks stays as it is. -/
theorem Sql.exists_numberFrom_append {ending : List Char} (plain : '?' ∉ ending) (text : List Char)
    (r : Region) (i : Nat) : ∃ front, numberFrom r i (text ++ ending) = front ++ ending := by
  induction text generalizing r i with
  | nil => exact ⟨[], numberFrom_of_notMem plain i⟩
  | cons c rest ih =>
    rw [List.cons_append, numberFrom]
    split
    · obtain ⟨front, same⟩ := ih r (i + 1)
      exact ⟨'$' :: (Nat.toDigits 10 (i + 1) ++ front), by simp [same]⟩
    · obtain ⟨front, same⟩ := ih (r.next isDoubleQuote c) i
      exact ⟨c :: front, by rw [same, List.cons_append]⟩

theorem Statement.exists_ofFragment_append {ending : String} (plain : '?' ∉ ending.toList)
    (d : Dialect) (draft : Draft) : ∃ front,
      (ofFragment d (fragment d (draft ++ [.text ending]))).sql = front ++ ending := by
  have whole : (fragment d (draft ++ [.text ending])).sql.toList =
      draft.text d ++ ending.toList := by
    have both := text_append d draft [.text ending]
    rw [text_cons, text_nil, List.append_nil] at both
    exact both
  unfold ofFragment
  dsimp only
  split
  · obtain ⟨front, same⟩ := exists_numberFrom_append plain (draft.text d) .plain 0
    refine ⟨String.ofList front, ?_⟩
    rw [numberPlaceholders, whole, same, ← String.toList_inj]
    simp
  · refine ⟨String.ofList (draft.text d), ?_⟩
    rw [← String.toList_inj, whole]
    simp

/-- The most rows that a statement with a limit asks for. -/
def Config.reach (config : Config) (limit : Nat) : Nat := config.maxLimit.elim limit (min limit)

theorem Config.reach_le (config : Config) (limit : Nat) : config.reach limit ≤ limit := by
  unfold reach
  cases config.maxLimit with
  | none => exact Nat.le_refl _
  | some most => exact Nat.min_le_left _ _

namespace Plan

def page (p : Plan) (limit offset : Nat) : Plan := (p.withLimit limit).withOffset offset

variable {p : Plan} {c : Compiler} {limit offset : Nat}

theorem rowLimit_page {part : Part} (bounded : part.bounded = true) :
    (p.page limit offset).rowLimit c part = some (c.config.reach limit) := by
  unfold rowLimit Config.reach
  rw [if_pos bounded]
  cases c.config.maxLimit <;> rfl

theorem orderTail_page (part : Part) (separator : String) (terms : List OrderTerm) :
    (p.page limit offset).orderTail c part separator terms =
      p.orderTail c part separator terms := by
  induction terms generalizing separator with
  | nil => rfl
  | cons term rest ih =>
    unfold orderTail
    rw [ih, ih]
    rfl

/-- The clauses of a plan but for its limit and offset, which stand last. -/
def boundless (p : Plan) (c : Compiler) (part : Part) : Draft := (p.clauses c part).dropLast

theorem clauses_eq (part : Part) : p.clauses c part =
    p.boundless c part ++ [.text (c.dialect.limitOffset (p.rowLimit c part) p.offset)] := by
  rw [boundless, clauses, List.dropLast_concat]

theorem boundless_page (part : Part) :
    (p.page limit offset).boundless c part = p.boundless c part := by
  rw [boundless, boundless, clauses, clauses, List.dropLast_concat, List.dropLast_concat,
    orderTail_page]
  rfl

/-- A part of a page can be completed if that part of the plan can. -/
theorem page_complete_iff (part : Part) :
    ((p.page limit offset).draft c part).failure? = none ↔ (p.draft c part).failure? = none := by
  have clauses : ((p.page limit offset).clauses c part).failure? = none ↔
      (p.clauses c part).failure? = none := by
    rw [clauses_eq, clauses_eq, boundless_page]
    simp [Step.failure?]
  have rest (byKeys : Bool) :
      (if byKeys then p.openKeys else p.satelliteJoin c ++ (p.page limit offset).clauses c part
        ).failure? = none ↔
      (if byKeys then p.openKeys else p.satelliteJoin c ++ p.clauses c part).failure? = none := by
    cases byKeys <;> simp [clauses]
  rw [draft_complete_iff, draft_complete_iff]
  refine exists_congr fun columns => ?_
  exact and_congr_right' (and_congr_right' (and_congr_right' (rest part.byKeys)))

theorem followUp_page : (p.page limit offset).followUp c = p.followUp c := by
  funext batch
  unfold followUp draft
  rfl

theorem compile_page {compiled : CompiledPlan} (h : p.compile c = .ok compiled)
    (limit offset : Nat) : ∃ paged, (p.page limit offset).compile c = .ok paged ∧
      paged.layout = compiled.layout := by
  obtain ⟨shaped, counted, written⟩ := compile_eq_ok_iff.mp h
  have statement {part : Part} {s : Statement}
      (made : Statement.ofDraft c.dialect (p.draft c part) = .ok s) : ∃ s',
        Statement.ofDraft c.dialect ((p.page limit offset).draft c part) = .ok s' := by
    obtain ⟨complete, -⟩ := (ofDraft_eq_ok_iff _ _ _).mp made
    exact ⟨_, (ofDraft_eq_ok_iff _ _ _).mpr ⟨(page_complete_iff part).mpr complete, rfl⟩⟩
  by_cases cut : p.isSplit c.config = true
  · rw [if_pos cut] at written
    obtain ⟨s, split, -⟩ := written
    obtain ⟨first, followUps, key⟩ := split_eq_ok_iff.mp split
    obtain ⟨base, made⟩ := statement first
    have paged : Statement.ofDraft c.dialect ((p.page limit offset).firstDraft c) = .ok base := made
    refine ⟨⟨.split ⟨base, s.followUps, s.primaryKey⟩, compiled.layout, p.subqueries⟩, ?_, rfl⟩
    refine compile_eq_ok_iff.mpr ⟨shaped, rfl, ?_⟩
    have again : (p.page limit offset).isSplit c.config = true := cut
    rw [if_pos again]
    refine ⟨⟨base, s.followUps, s.primaryKey⟩, split_eq_ok_iff.mpr ⟨paged, ?_, key⟩, rfl⟩
    rw [followUp_page]
    exact followUps
  · rw [if_neg cut] at written
    obtain ⟨s, single, -⟩ := written
    obtain ⟨whole, made⟩ := statement single
    refine ⟨⟨.single whole, compiled.layout, p.subqueries⟩, ?_, rfl⟩
    refine compile_eq_ok_iff.mpr ⟨shaped, rfl, ?_⟩
    have again : ¬(p.page limit offset).isSplit c.config = true := cut
    rw [if_neg again]
    exact ⟨whole, made, rfl⟩

/-- A bounded part of a page ends with the limit, as far as it reaches, and with the offset. -/
theorem ofDraft_page {part : Part} (bounded : part.bounded = true) (plain : part.byKeys = false)
    {statement : Statement}
    (written : Statement.ofDraft c.dialect ((p.page limit offset).draft c part) = .ok statement) :
    ∃ front, statement.sql = front ++ pageEnd (c.config.reach limit) offset := by
  obtain ⟨complete, written⟩ := (ofDraft_eq_ok_iff _ _ _).mp written
  obtain ⟨columns, resolved, -⟩ := (draft_complete_iff _ _ _).mp complete
  obtain ⟨front, shape⟩ : ∃ front, (p.page limit offset).draft c part =
      front ++ [.text (pageEnd (c.config.reach limit) offset)] := by
    have bounds : c.dialect.limitOffset ((p.page limit offset).rowLimit c part)
        (p.page limit offset).offset = pageEnd (c.config.reach limit) offset := by
      rw [rowLimit_page bounded]
      rfl
    rw [draft, resolved, Draft.andThen, clauses_eq, bounds, plain, if_neg Bool.false_ne_true,
      ← List.append_assoc, ← List.append_assoc, ← List.append_assoc]
    exact ⟨_, rfl⟩
  rw [← written, shape]
  exact Statement.exists_ofFragment_append (question_notMem_pageEnd _ _) _ _

theorem base_page {compiled : CompiledPlan} (h : (p.page limit offset).compile c = .ok compiled) :
    ∃ front, compiled.query.base.sql = front ++ pageEnd (c.config.reach limit) offset :=
  ofDraft_page rfl rfl (compile_base h)

theorem baseOnly_page {keys : List String} {statement : Statement}
    (written : (p.page limit offset).baseOnly c keys = .ok statement) :
    ∃ front, statement.sql = front ++ pageEnd (c.config.reach limit) offset :=
  ofDraft_page rfl rfl written

end Plan

/-- A field before the last one ends at the comma after it. -/
theorem Json.exists_fieldsText_append (before : List (String × Json)) (name : String) :
    ∃ front, ∀ value next rest, ∃ back,
      (fieldsText (before ++ (name, value) :: next :: rest)).toList =
        front ++ (value.text.toList ++ ',' :: back) := by
  induction before with
  | nil => exact ⟨(quote name ++ ":").toList, fun value next rest =>
      ⟨(fieldsText (next :: rest)).toList, by simp [fieldsText]⟩⟩
  | cons field others ih =>
    obtain ⟨front, shape⟩ := ih
    obtain ⟨label, item⟩ := field
    refine ⟨(quote label ++ ":" ++ item.text ++ ",").toList ++ front, fun value next rest => ?_⟩
    obtain ⟨back, same⟩ := shape value next rest
    refine ⟨back, ?_⟩
    obtain ⟨first, more, list⟩ : ∃ first more, others ++ (name, value) :: next :: rest =
        first :: more := by
      cases others <;> exact ⟨_, _, rfl⟩
    rw [List.append_assoc, ← same, List.cons_append, list, fieldsText]
    · simp
    · simp

/-- What is hashed for a page tells its offset. -/
theorem CacheKey.offset_inj {p : Plan} {limit offset other : Nat} {s t : Statement}
    (same : (material (p.page limit offset) s).text = (material (p.page limit other) t).text) :
    offset = other := by
  obtain ⟨front, shape⟩ := Json.exists_fieldsText_append
    [("entity", .str p.entity.type), ("relations", .arr (p.relations.map RelationRequest.toJson)),
      ("counts", .arr (p.counts.map CountRequest.toJson)),
      ("aggregates", .arr (p.aggregates.map AggregateRequest.toJson)),
      ("columns", p.columns.toJson), ("order", .arr (p.order.map OrderTerm.toJson)),
      ("limit", Json.ofNat limit)] "offset"
  have cut (n : Nat) (u : Statement) : ∃ back, (material (p.page limit n) u).text.toList =
      '\x7b' :: (front ++ ((Json.ofNat n).text.toList ++ ',' :: back)) := by
    obtain ⟨back, found⟩ := shape (Json.ofNat n) ("search", Json.ofOption Search.toJson p.search)
      [("locale", Json.ofOption .str p.locale), ("sql", .str u.sql),
        ("bindings", .arr (u.bindings.map DbValue.tagged))]
    have text (fields : List (String × Json)) : (Json.obj fields).text.toList =
        '\x7b' :: ((Json.fieldsText fields).toList ++ ['\x7d']) := by
      simp [Json.text]
    have braced := congrArg (fun cs => '\x7b' :: (cs ++ ['\x7d'])) found
    exact ⟨back ++ ['\x7d'], (text _).trans (braced.trans (by simp))⟩
  obtain ⟨back, left⟩ := cut offset s
  obtain ⟨back', right⟩ := cut other t
  rw [same, right] at left
  have digits := List.append_cancel_left (List.cons.inj left).2
  obtain ⟨numbers, -⟩ := Json.number_append_inj (a := Json.ofNat other) (b := Json.ofNat offset)
    rfl rfl rfl ⟨',', back', rfl, .inl rfl⟩ ⟨',', back, rfl, .inl rfl⟩ digits
  exact (Int.ofNat.inj (Json.int.inj numbers)).symm

end EagerLoad
