import EagerLoad.Proofs.Plan.Split
import EagerLoad.Proofs.Plan.Values
import EagerLoad.Proofs.Plan.Written

/-! # Statements bind their values

Every statement that a plan compiles to has a placeholder for each of its values, in the same order,
if the raw texts of the plan may stand among others. Numbered placeholders count from one. -/
namespace EagerLoad

open Sql Sql.Draft

/-- A statement that binds the given values, each to the placeholder in its place. -/
structure Statement.Binds (d : Dialect) (values : List DbValue) (s : Statement) : Prop where
  bindings : s.bindings = values
  count : s.placeholders = s.bindings.length
  listed : Sql.placeholders s.sql =
    if d.numbersPlaceholders then numberedFrom 1 s.bindings.length
    else List.replicate s.bindings.length .bare

namespace Statement

/-- A statement whose placeholders are listed has as many of them. -/
theorem binds_of_listed {d : Dialect} {values : List DbValue} {s : Statement}
    (bindings : s.bindings = values)
    (listed : Sql.placeholders s.sql =
      if d.numbersPlaceholders then numberedFrom 1 s.bindings.length
      else List.replicate s.bindings.length .bare) : s.Binds d values := by
  refine ⟨bindings, ?_, listed⟩
  have counted := length_placeholdersFrom .plain s.sql.toList
  rw [Sql.placeholders] at listed
  rw [placeholders, countPlaceholders, ← counted, listed]
  split <;> simp [numberedFrom]

variable {d : Dialect} {f : Fragment}

/-- The text of a statement ends outside quotes and does not begin with a digit. -/
theorem ofFragment_closed (tidy : Tidy d f.sql.toList f.bindings.length) :
    Region.plain.after (ofFragment d f).sql.toList = .plain ∧
      startsWithDigit (ofFragment d f).sql.toList = false := by
  unfold ofFragment
  cases numbered : d.numbersPlaceholders with
  | false => exact ⟨tidy.closed, tidy.start⟩
  | true =>
    dsimp only
    rw [if_pos rfl, numberPlaceholders, String.toList_ofList, startsWithDigit_numberFrom,
      after_numberFrom _ _ _ (tidy.unticked numbered)]
    exact ⟨tidy.closed, tidy.start⟩

theorem binds_ofFragment (tidy : Tidy d f.sql.toList f.bindings.length) :
    (ofFragment d f).Binds d f.bindings := by
  refine binds_of_listed rfl ?_
  unfold ofFragment Sql.placeholders
  cases numbered : d.numbersPlaceholders with
  | false =>
    dsimp only
    rw [if_neg Bool.false_ne_true, placeholdersFrom_eq_replicate _ _ tidy.separated, tidy.count]
    rfl
  | true =>
    dsimp only
    rw [if_pos rfl, numberPlaceholders, String.toList_ofList,
      placeholdersFrom_numberFrom _ _ _ tidy.separated (tidy.unticked numbered), tidy.count]
    rfl

/-- Texts around a statement that hold no placeholders leave its values bound. -/
theorem Binds.wrapped {s : Statement} {values : List DbValue} (binds : s.Binds d values)
    (closed : Region.plain.after s.sql.toList = .plain)
    (start : startsWithDigit s.sql.toList = false) (opening closing : String)
    (ho : Tidy d opening.toList 0) (hc : Tidy d closing.toList 0) :
    (⟨opening ++ s.sql ++ closing, s.bindings⟩ : Statement).Binds d values := by
  refine binds_of_listed binds.bindings ?_
  have silent {text : List Char} (tidy : Tidy d text 0) : placeholdersFrom .plain text = [] := by
    rw [placeholdersFrom_eq_replicate _ _ tidy.separated, tidy.count]
    rfl
  have listed := binds.listed
  rw [Sql.placeholders] at listed ⊢
  rw [String.toList_append, String.toList_append, placeholdersFrom_append _ _ _ hc.start,
    placeholdersFrom_append _ _ _ start, Region.after_append, ho.closed, closed, silent ho, silent hc,
    List.append_nil, List.nil_append, listed]

end Statement

namespace Plan

variable (p : Plan) (c : Compiler)

/-- Whether the raw texts of a plan may stand among others. -/
def RawsStandAlone : Prop := ∀ sql ∈ p.raws, standsAlone sql = true

variable {p c}

private theorem tidy_draft (part : Part) (raws : p.RawsStandAlone)
    (known : part.relations ⊆ p.relations) (complete : (p.draft c part).failure? = none) :
    Tidy c.dialect ((p.draft c part).fragment c.dialect).sql.toList (p.values c part).length := by
  rw [← p.values_draft c part complete]
  let allowed : Allowed := ⟨fun sql => standsAlone sql = true, fun _ _ => True⟩
  have looked : (p.context c).Consults allowed := fun _ _ _ _ => trivial
  have written : Written allowed (p.draft c part) :=
    p.draft_written c part looked (fun _ => trivial) known raws
  exact tidy_of_written c.dialect (fun _ => id) written complete

theorem binds_draft {part : Part} {s : Statement} (raws : p.RawsStandAlone)
    (known : part.relations ⊆ p.relations)
    (written : Statement.ofDraft c.dialect (p.draft c part) = .ok s) :
    s.Binds c.dialect (p.values c part) := by
  obtain ⟨complete, rfl⟩ := (ofDraft_eq_ok_iff _ _ _).mp written
  have tidy := tidy_draft part raws known complete
  rw [← p.values_draft c part complete] at tidy ⊢
  exact Statement.binds_ofFragment tidy

/-- The count of rows binds the values of what is counted. -/
theorem binds_count {s : Statement} (raws : p.RawsStandAlone) (written : p.count c = .ok s) :
    s.Binds c.dialect (p.counted.values c countedPart) := by
  obtain ⟨inner, compiled, rfl⟩ := map_eq_ok_iff.mp written
  have known : countedPart.relations ⊆ p.counted.relations := List.nil_subset _
  have counted : p.counted.RawsStandAlone := fun sql found => raws sql (p.raws_counted found)
  have binds := binds_draft counted known compiled
  obtain ⟨complete, rfl⟩ := (ofDraft_eq_ok_iff _ _ _).mp compiled
  have tidy := tidy_draft countedPart counted known complete
  rw [← p.counted.values_draft c countedPart complete] at tidy
  obtain ⟨closed, start⟩ := Statement.ofFragment_closed tidy
  have word (text : String) (h : isInert text.toList = true) := Tidy.of_isInert c.dialect h
  have name (identifier : String) (h : Identifier.fault? identifier = none) :=
    tidy_quote c.dialect identifier h
  have opening := ((word "SELECT COUNT(*) AS " (by decide)).append
    (name "aggregate" (by decide))).append (word " FROM (" (by decide))
  have closing := (word ") AS " (by decide)).append (name "aggregate_table" (by decide))
  rw [← String.toList_append, ← String.toList_append] at opening
  rw [← String.toList_append] at closing
  have wrapped := binds.wrapped closed start _ _ opening closing
  rwa [← String.append_assoc] at wrapped

private theorem tidy_keys (d : Dialect) (keys : List DbValue) :
    Tidy d (", ".intercalate (keys.map fun _ => "?")).toList keys.length := by
  have sign : Tidy d "?".toList 1 := ⟨by decide, by decide, by decide, by decide, fun _ => by decide⟩
  have comma : Tidy d ", ".toList 0 := Tidy.of_isInert d (by decide)
  induction keys with
  | nil => exact Tidy.nil d
  | cons key rest ih =>
    cases rest with
    | nil => simpa using sign
    | cons next others =>
      have all := (sign.append comma).append ih
      rw [← String.toList_append, ← String.toList_append] at all
      rw [List.map_cons, List.map_cons, String.intercalate_cons_cons, List.length_cons, Nat.add_comm]
      exact all

/-- A follow-up binds its values and then the keys. -/
theorem binds_followUp {batch : List RelationRequest} {f : FollowUp} (raws : p.RawsStandAlone)
    (known : batch ⊆ p.relations) (written : p.followUp c batch = .ok f) (keys : List DbValue) :
    (f.bind c.dialect keys).Binds c.dialect (p.values c (p.laterPart batch) ++ keys) := by
  obtain ⟨complete, rfl⟩ := followUp_eq_ok_iff.mp written
  have template := tidy_draft (p.laterPart batch) raws known complete
  have values := p.values_draft c (p.laterPart batch) complete
  have close : Tidy c.dialect ")".toList 0 := Tidy.of_isInert _ (by decide)
  have all := (template.append (tidy_keys c.dialect keys)).append close
  rw [← String.toList_append, ← String.toList_append, ← List.length_append, Nat.add_zero] at all
  rw [← values] at all ⊢
  exact Statement.binds_ofFragment (f := ⟨_, (p.draft c (p.laterPart batch)).values ++ keys⟩) all

/-- Every statement of a plan binds the values of what it carries, in the order of its text and each
to a placeholder of its own. -/
theorem statements_bind_values (raws : p.RawsStandAlone) :
    (∀ s, p.unsplit c = .ok s → s.Binds c.dialect (p.values c p.wholePart)) ∧
    (∀ forced s, p.baseOnly c forced = .ok s →
      s.Binds c.dialect (p.values c (basePart forced))) ∧
    (∀ s, p.count c = .ok s → s.Binds c.dialect (p.counted.values c countedPart)) ∧
    (∀ s, p.existence c = .ok s → s.Binds c.dialect (p.probed.values c (basePart []))) ∧
    ∀ compiled, p.compile c = .ok compiled → match compiled.query with
      | .single s => s.Binds c.dialect (p.values c p.wholePart)
      | .split s =>
        s.base.Binds c.dialect (p.values c (p.firstPart (p.firstBatch c.config))) ∧
          List.Forall₂ (fun batch f => ∀ keys, (f.bind c.dialect keys).Binds c.dialect
            (p.values c (p.laterPart batch) ++ keys)) (p.laterBatches c.config) s.followUps := by
  have unsplit : ∀ s, p.unsplit c = .ok s → s.Binds c.dialect (p.values c p.wholePart) :=
    fun s written => binds_draft raws (List.Subset.refl _) written
  refine ⟨unsplit, fun forced s written => binds_draft raws (List.nil_subset _) written,
    fun s written => binds_count raws written,
    fun s written => binds_draft (fun sql found => raws sql (p.raws_probed found))
      (List.nil_subset _) written,
    fun compiled written => ?_⟩
  obtain ⟨-, -, query⟩ := compile_eq_ok_iff.mp written
  split at query
  · obtain ⟨s, split, same⟩ := query
    obtain ⟨first, later, -⟩ := split_eq_ok_iff.mp split
    rw [same]
    have subsets : ∀ batch ∈ p.laterBatches c.config, batch ⊆ p.relations :=
      fun _ found => p.laterBatch_subset found
    exact ⟨binds_draft raws (p.firstBatch_subset c.config) first,
      ((List.forall₂_and_left _ _).mpr ⟨subsets, later⟩).imp fun _ _ batch keys =>
        binds_followUp raws batch.1 batch.2 keys⟩
  · obtain ⟨s, single, same⟩ := query
    rw [same]
    exact unsplit s single

/-- Posts and their comments, with numbered placeholders. -/
def blog : Compiler :=
  { dialect := .postgresql
    registry := [("Comment", { type := "Comment", table := "comments" })]
    memo := []
    config := {} }

/-- The posts of an author that mention a word, with the comments that a raw test selects. -/
def feed : Plan :=
  { entity :=
      { type := "Post", table := "posts", relations := [("comments", .hasMany "Comment" "post" "id")] }
    relations :=
      [{ name := "comments", kind := .collection
         filter := some (({} : Filter).and (.raw "score > ?" [.int32 3])) }]
    counts := [{ relation := "comments" }]
    filter := ({} : Filter).and (.compare "author" .equal (.text "ann"))
    search := some ⟨"lean", ["title", "comments.body"]⟩ }

theorem statements_bind_values_feed :
    feed.RawsStandAlone ∧ ∃ s, feed.unsplit blog = .ok s ∧
      s.Binds .postgresql [.int32 3, .text "ann", .text "%lean%", .text "%lean%"] := by
  have raws : feed.RawsStandAlone := by
    unfold RawsStandAlone
    decide
  have complete : (feed.unsplitDraft blog).failure? = none := by decide
  have written := (ofDraft_eq_ok_iff blog.dialect (feed.unsplitDraft blog) _).mpr ⟨complete, rfl⟩
  have values : feed.values blog feed.wholePart =
      [.int32 3, .text "ann", .text "%lean%", .text "%lean%"] := by
    decide
  refine ⟨raws, _, written, ?_⟩
  rw [← values]
  exact (statements_bind_values raws).1 _ written

end Plan
end EagerLoad
