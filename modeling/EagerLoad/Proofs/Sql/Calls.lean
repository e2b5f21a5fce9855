import EagerLoad.Proofs.Sql.Anywhere
import EagerLoad.Proofs.Sql.Draft
import Mathlib.Data.List.Induction

/-! # Writing call by call

A fragment is written by calls. Text and fragments are taken as they are given, names are checked, and raw text
is refused if its placeholders are not as many as its values. That check alone does not keep placeholders and
values in step: it looks at the raw text by itself, and reads signs with numbers of their own, which the numbering
passes over. A check of raw text is enough exactly if it lets through only texts that stand anywhere. -/
namespace EagerLoad

namespace Fragment

/-- That the placeholders of a fragment are as many as its values, and have their places as numbers when it is
finished for a dialect that numbers them. -/
structure InStep (f : Fragment) : Prop where
  counted : f.placeholders = f.bindings.length
  numbered : Sql.placeholders (Statement.ofFragment .postgresql f).sql = Sql.numberedFrom 1 f.bindings.length

/-- A fragment that stays in step wherever it is written. -/
structure Sound (f : Fragment) : Prop where
  stands : Sql.StandsAnywhere f.sql.toList
  counted : f.placeholders = f.bindings.length

variable {f g : Fragment}

theorem sound_empty : empty.Sound := ⟨by decide, rfl⟩

theorem Sound.append (hf : f.Sound) (hg : g.Sound) (detached : Sql.Detached f.sql.toList g.sql.toList) :
    (f.append g).Sound where
  stands := by
    rw [Fragment.append, String.toList_append]
    exact hf.stands.append hg.stands detached
  counted := by
    have left := hf.counted
    have right := hg.counted
    rw [placeholders, Sql.countPlaceholders] at left right
    rw [placeholders, Sql.countPlaceholders, Fragment.append, String.toList_append, hf.stands.count detached, left,
      right, List.length_append]

theorem Sound.inStep (h : f.Sound) : f.InStep where
  counted := h.counted
  numbered := by
    have count := h.counted
    rw [placeholders, Sql.countPlaceholders] at count
    have text : (Statement.ofFragment .postgresql f).sql = Sql.numberPlaceholders f.sql := rfl
    rw [text, Sql.placeholders, Sql.numberPlaceholders, String.toList_ofList, h.stands.numbers, count]

end Fragment

namespace Sql

/-- A call by which more of a fragment is written. -/
inductive DraftCall where
  | push (sql : String)
  | bind (value : DbValue)
  | bindList (values : List DbValue)
  | identifier (name : String)
  | qualified (table name : String)
  | column (qualifier : Option String) (name : String)
  | fragment (contents : Fragment)
  | raw (sql : String) (bindings : List DbValue)

namespace DraftCall

def draft : DraftCall → Draft
  | push sql => [.text sql]
  | bind value => [.bind value]
  | bindList values => Draft.bindList values
  | identifier name => [.name name]
  | qualified table name => Draft.qualified table name
  | column qualifier name => Draft.column qualifier name
  | fragment contents => [.fragment contents]
  | raw sql bindings => [.raw sql bindings]

/-- What a call writes. One that fails writes what comes before its fault. -/
def written (d : Dialect) (call : DraftCall) : Fragment := call.draft.carriedOut.fragment d

def writtenAll (d : Dialect) (calls : List DraftCall) : Fragment :=
  calls.foldl (fun f call => f.append (call.written d)) Fragment.empty

/-- What is expected of the texts that a call is given: those that are taken as they are end outside of quotes and
have as many placeholders as values, and raw text is let through by a check. -/
def IsFair (accepts : String → Prop) : DraftCall → Prop
  | push sql => (Fragment.mk sql []).Sound
  | fragment contents => contents.Sound
  | raw sql _ => accepts sql
  | _ => True

/-- Calls with such texts, none of which goes on with digits after a sign. -/
structure Orderly (d : Dialect) (accepts : String → Prop) (calls : List DraftCall) : Prop where
  fair : ∀ call ∈ calls, call.IsFair accepts
  detached : ∀ done call, done ++ [call] <+: calls →
    Detached (writtenAll d done).sql.toList (call.written d).sql.toList

/-- That a check of raw text keeps placeholders and values in step, after all calls and at any time before. -/
def Enough (accepts : String → Prop) : Prop :=
  ∀ d calls, Orderly d accepts calls → ∀ done, done <+: calls → (writtenAll d done).InStep

end DraftCall

/-- Whether a step writes a name, a value, or what stands between two of them. -/
def Step.IsOwn : Step → Prop
  | .text sql => sql = "." ∨ sql = ", "
  | .name _ | .bind _ => True
  | _ => False

theorem Step.IsOwn.sound {step : Step} (own : step.IsOwn) (d : Dialect) (done : step.failure? = none) :
    (Fragment.mk (step.sql d) step.bindings).Sound ∧ startsWithDigit (step.sql d).toList = false := by
  cases step with
  | name identifier =>
    have valid : Identifier.fault? identifier = none := by simpa [Step.failure?] using done
    have tidy := tidy_quote d identifier valid
    exact ⟨⟨standsAnywhere_quote d identifier valid, tidy.count⟩, tidy.start⟩
  | bind value =>
    have mark : StandsAnywhere "?".toList ∧ countPlaceholders "?" = 1 ∧ startsWithDigit "?".toList = false := by
      decide
    exact ⟨⟨mark.1, mark.2.1⟩, mark.2.2⟩
  | text sql =>
    have inert : StandsAnywhere sql.toList ∧ countPlaceholders sql = 0 ∧ startsWithDigit sql.toList = false := by
      obtain rfl | rfl := own <;> decide
    exact ⟨⟨inert.1, inert.2.1⟩, inert.2.2⟩
  | raw | fragment | require | notice | consult | fail => exact own.elim

theorem Draft.fragment_cons (d : Dialect) (step : Step) (rest : Draft) :
    fragment d (step :: rest) = (Fragment.mk (step.sql d) step.bindings).append (fragment d rest) := by
  simp [fragment, Fragment.append]

/-- Names and values are sound as far as they are written. -/
theorem Draft.sound_carriedOut (d : Dialect) {draft : Draft} (own : ∀ step ∈ draft, step.IsOwn) :
    (draft.carriedOut.fragment d).Sound ∧ startsWithDigit (draft.carriedOut.fragment d).sql.toList = false := by
  induction draft with
  | nil => exact ⟨Fragment.sound_empty, rfl⟩
  | cons step rest ih =>
    rw [carriedOut, List.takeWhile_cons, ← carriedOut]
    cases failed : step.failure? with
    | some e => exact ⟨Fragment.sound_empty, rfl⟩
    | none =>
      obtain ⟨here, start⟩ := (own step List.mem_cons_self).sound d failed
      obtain ⟨later, after⟩ := ih fun other found => own other (List.mem_cons_of_mem step found)
      rw [Option.isNone_none, if_pos rfl, fragment_cons]
      refine ⟨here.append later fun _ => after, ?_⟩
      rw [Fragment.append, String.toList_append]
      cases shape : (step.sql d).toList with
      | nil => exact after
      | cons c text => rwa [shape] at start

theorem Draft.own_bindList (values : List DbValue) : ∀ step ∈ bindList values, step.IsOwn := by
  apply holds_separated (motive := fun draft => ∀ step ∈ draft, step.IsOwn)
  · simp
  · intro a b ha hb step found
    obtain first | rfl | second := by simpa using found
    · exact ha step first
    · exact .inr rfl
    · exact hb step second
  · intro draft listed step found
    obtain ⟨value, -, rfl⟩ := List.mem_map.mp listed
    obtain rfl := List.mem_singleton.mp found
    trivial

theorem Draft.own_qualified (table column : String) : ∀ step ∈ qualified table column, step.IsOwn := by
  simp [qualified, Step.IsOwn]

theorem Draft.own_column (qualifier : Option String) (name : String) :
    ∀ step ∈ column qualifier name, step.IsOwn := by
  unfold column
  split
  · exact own_qualified _ _
  · exact own_qualified _ _
  · simp [Step.IsOwn]

namespace DraftCall

variable {d : Dialect} {accepts : String → Prop} {calls done : List DraftCall} {call : DraftCall}

theorem written_push (d : Dialect) (sql : String) : (push sql).written d = ⟨sql, []⟩ := by
  simp [written, draft, Draft.carriedOut, Step.failure?, Draft.fragment, Step.sql, Step.bindings]

theorem written_fragment (d : Dialect) (contents : Fragment) : (fragment contents).written d = contents := by
  simp [written, draft, Draft.carriedOut, Step.failure?, Draft.fragment, Step.sql, Step.bindings]

theorem written_raw (d : Dialect) (sql : String) (bindings : List DbValue) : (raw sql bindings).written d =
    if countPlaceholders sql = bindings.length then ⟨sql, bindings⟩ else Fragment.empty := by
  by_cases counted : countPlaceholders sql = bindings.length
  · simp [written, draft, Draft.carriedOut, Step.failure?, Draft.fragment, Step.sql, Step.bindings, counted]
  · simp [written, draft, Draft.carriedOut, Step.failure?, Draft.fragment, Fragment.empty, counted]

/-- What a fair call writes is sound, if the raw texts that the check lets through stand anywhere. -/
theorem IsFair.sound (fair : call.IsFair accepts) (d : Dialect)
    (stands : ∀ sql, accepts sql → StandsAnywhere sql.toList) : (call.written d).Sound := by
  cases call with
  | push sql =>
    rw [written_push]
    exact fair
  | bind value => exact (Draft.sound_carriedOut d (by simp [draft, Step.IsOwn])).1
  | bindList values => exact (Draft.sound_carriedOut d (Draft.own_bindList values)).1
  | identifier name => exact (Draft.sound_carriedOut d (by simp [draft, Step.IsOwn])).1
  | qualified table name => exact (Draft.sound_carriedOut d (Draft.own_qualified table name)).1
  | column qualifier name => exact (Draft.sound_carriedOut d (Draft.own_column qualifier name)).1
  | fragment contents =>
    rw [written_fragment]
    exact fair
  | raw sql bindings =>
    rw [written_raw]
    split
    case isTrue counted => exact ⟨stands sql fair, counted⟩
    case isFalse => exact Fragment.sound_empty

@[simp] theorem writtenAll_nil (d : Dialect) : writtenAll d [] = Fragment.empty := rfl

@[simp] theorem writtenAll_concat (d : Dialect) (calls : List DraftCall) (call : DraftCall) :
    writtenAll d (calls ++ [call]) = (writtenAll d calls).append (call.written d) := by
  simp [writtenAll]

namespace Orderly

theorem nil : Orderly d accepts [] where
  fair := by simp
  detached done call first := by simp at first

theorem of_prefix (h : Orderly d accepts calls) (early : done <+: calls) : Orderly d accepts done where
  fair call found := h.fair call (early.subset found)
  detached before call first := h.detached before call (first.trans early)

theorem concat (h : Orderly d accepts calls) (call : DraftCall) (fair : call.IsFair accepts)
    (detached : Detached (writtenAll d calls).sql.toList (call.written d).sql.toList) :
    Orderly d accepts (calls ++ [call]) where
  fair other found := by
    obtain earlier | rfl := by simpa using found
    · exact h.fair other earlier
    · exact fair
  detached before other first := by
    obtain same | earlier := List.prefix_concat_iff.mp first
    · obtain ⟨rfl, last⟩ := List.append_inj' same rfl
      obtain rfl := List.singleton_inj.mp last
      exact detached
    · exact h.detached before other earlier

/-- What orderly calls have written is sound. -/
theorem sound (h : Orderly d accepts calls) (stands : ∀ sql, accepts sql → StandsAnywhere sql.toList) :
    (writtenAll d calls).Sound := by
  induction calls using List.reverseRecOn with
  | nil => exact Fragment.sound_empty
  | append_singleton calls call ih =>
    have earlier := ih (h.of_prefix (List.prefix_append calls [call]))
    have here := (h.fair call (by simp)).sound d stands
    rw [writtenAll_concat]
    exact earlier.append here (h.detached calls call (List.prefix_refl _))

end Orderly

/-! ## A check that is enough

A text that is let through is tried after any number of placeholders and before one more. -/

/-- A raw text with as many values as it has placeholders, between others. -/
def tried (n : Nat) (sql : String) : List DraftCall :=
  List.replicate n (bind .null) ++ [push " "] ++ [raw sql (List.replicate (countPlaceholders sql) .null)] ++
    [bind .null]

theorem written_bind (d : Dialect) (value : DbValue) : (bind value).written d = ⟨"?", [value]⟩ := by
  simp [written, draft, Draft.carriedOut, Step.failure?, Draft.fragment, Step.sql, Step.bindings]

theorem writtenAll_binds (d : Dialect) (n : Nat) :
    (writtenAll d (List.replicate n (bind .null))).sql.toList = List.replicate n '?' ∧
      (writtenAll d (List.replicate n (bind .null))).bindings = List.replicate n .null := by
  induction n with
  | zero => exact ⟨rfl, rfl⟩
  | succ n ih =>
    rw [List.replicate_succ', List.replicate_succ', List.replicate_succ', writtenAll_concat, written_bind,
      Fragment.append, String.toList_append, ih.1, ih.2]
    exact ⟨rfl, rfl⟩

theorem orderly_binds (d : Dialect) (n : Nat) : Orderly d accepts (List.replicate n (bind .null)) := by
  induction n with
  | zero => exact .nil
  | succ n ih =>
    rw [List.replicate_succ']
    refine ih.concat _ trivial fun _ => ?_
    rw [written_bind]
    decide

theorem orderly_tried (d : Dialect) (n : Nat) {sql : String} (accepted : accepts sql) :
    Orderly d accepts (tried n sql) := by
  have gap : (Fragment.mk " " []).Sound := ⟨by decide, by decide⟩
  have before : Orderly d accepts (List.replicate n (bind .null) ++ [push " "]) := by
    refine (orderly_binds d n).concat _ gap fun _ => ?_
    rw [written_push]
    decide
  refine (before.concat (raw _ _) accepted ?_).concat _ trivial fun _ => ?_
  · intro sign
    rw [writtenAll_concat, written_push, Fragment.append, String.toList_append] at sign
    simp [endsInSign, isSign] at sign
  · rw [written_bind]
    decide

theorem writtenAll_tried (d : Dialect) (n : Nat) (sql : String) :
    (writtenAll d (tried n sql)).sql.toList = List.replicate n '?' ++ (' ' :: (sql.toList ++ ['?'])) ∧
      (writtenAll d (tried n sql)).bindings.length = n + (countPlaceholders sql + 1) := by
  obtain ⟨text, values⟩ := writtenAll_binds d n
  have raw : (raw sql (List.replicate (countPlaceholders sql) .null)).written d =
      ⟨sql, List.replicate (countPlaceholders sql) .null⟩ := by
    rw [written_raw, if_pos List.length_replicate.symm]
  rw [tried, writtenAll_concat, writtenAll_concat, writtenAll_concat, written_push, raw, written_bind]
  constructor
  · simp [Fragment.append, text]
  · simp [Fragment.append, values, Nat.add_assoc]

/-- A check of raw text keeps placeholders and values in step, whatever else is written, exactly if it lets
through only texts that stand anywhere. -/
theorem enough_iff (accepts : String → Prop) :
    Enough accepts ↔ ∀ sql, accepts sql → StandsAnywhere sql.toList := by
  constructor
  · intro enough sql accepted
    apply standsAnywhere_of_numbered
    intro n
    have numbered := (enough .postgresql _ (orderly_tried .postgresql n accepted) _ (List.prefix_refl _)).numbered
    obtain ⟨text, length⟩ := writtenAll_tried .postgresql n sql
    have finished : placeholders (Statement.ofFragment .postgresql (writtenAll .postgresql (tried n sql))).sql =
        placeholdersFrom .plain (numberFrom .plain 0 (writtenAll .postgresql (tried n sql)).sql.toList) := by
      rw [Statement.ofFragment, placeholders]
      simp [Dialect.numbersPlaceholders, numberPlaceholders]
    rw [finished, text, length] at numbered
    exact numbered
  · intro stands d calls orderly done early
    exact ((orderly.of_prefix early).sound stands).inStep

/-- Raw text with a number of its own, which the count takes for a placeholder and the numbering does not. -/
def colliding : List DraftCall := [push "a = ", bind (.int32 7), raw " AND b = $1" [.int32 5]]

/-- Counting its placeholders is no check that is enough. -/
theorem not_enough_counting : ¬ Enough fun _ => True := by
  intro enough
  have orderly : Orderly .postgresql (fun _ => True) colliding := by
    have text : (Fragment.mk "a = " []).Sound := ⟨by decide, by decide⟩
    have opening : Orderly .postgresql (fun _ => True) ([] ++ [push "a = "]) :=
      Orderly.nil.concat _ text fun sign => absurd sign (by decide)
    have bound := opening.concat (bind (.int32 7)) trivial fun _ => by decide
    exact bound.concat (raw " AND b = $1" [.int32 5]) trivial fun _ => by decide
  have numbered := (enough .postgresql colliding orderly colliding (List.prefix_refl _)).numbered
  exact absurd numbered (by decide +kernel)

end DraftCall
end Sql
end EagerLoad
