import EagerLoad.Proofs.Sql.Numbered
import EagerLoad.Proofs.Sql.Written

/-! # Drafts of well worded texts

What a draft without faults writes is described as a text to be read on: names are quoted, so they begin
no keyword and hold no parentheses, and a placeholder is a word of its own. -/
namespace EagerLoad.Sql

/-- Whether none of the avoided characters begins a name or a placeholder. -/
def Apart (avoid : List Char) : Prop := '\x22' ∉ avoid ∧ '\x60' ∉ avoid ∧ '?' ∉ avoid

instance (avoid : List Char) : Decidable (Apart avoid) := inferInstanceAs (Decidable (_ ∧ _ ∧ _))

/-- Within quotes a text is read to its end if no character of it ends the quotes. -/
private theorem readOn_quoted {avoid : List Char} {r : Region} {depth : Nat} {text : List Char}
    (inside : r ≠ .plain) (stays : ∀ c ∈ text, r.next isNameQuote c = r) (rest : List Char) :
    readOn avoid r depth false (text ++ rest) = readOn avoid r depth false rest := by
  induction text with
  | nil => rfl
  | cons c text ih =>
    have gap : ¬r.isGap depth c = true := by simp [Region.isGap, inside]
    have tied : ¬(r.isLoose depth c || false && avoid.contains c) = true := by
      simp [Region.isLoose, inside]
    have level : r.depth depth c = depth := by simp [Region.depth, inside]
    rw [List.cons_append, readOn, if_neg gap, if_neg tied, stays c List.mem_cons_self, level]
    exact ih fun x found => stays x (List.mem_cons_of_mem c found)

private theorem name_stays {name : String} (valid : Identifier.fault? name = none) :
    ∀ c ∈ name.toList, Region.name.next isNameQuote c = .name ∧
      Region.literal.next isNameQuote c = .literal := by
  intro c found
  have allowed := isAllowed_of_fault?_eq_none name valid c found
  have other (quote : Char) (h : Identifier.isAllowed quote = false) : c ≠ quote := by
    rintro rfl
    exact absurd allowed (by simp [h])
  simp [Region.next, isNameQuote, other '\x22' rfl, other '\x60' rfl, other '\x27' rfl]

theorem worded_quote {avoid : List Char} (apart : Apart avoid) (d : Dialect) {name : String}
    (valid : Identifier.fault? name = none) (fresh : Bool) :
    Worded avoid fresh (d.quote name).toList false := by
  have opens (mark : Char) (known : mark = '\x22' ∨ mark = '\x60') (rest : List Char) :
      readOn avoid .plain 0 fresh (mark :: rest) = readOn avoid .name 0 false rest := by
    obtain ⟨double, back, -⟩ := apart
    obtain rfl | rfl := known <;>
      simp [readOn, Region.isGap, Region.isLoose, Region.next, Region.depth, isNameQuote, double, back]
  have ends (mark : Char) (known : mark = '\x22' ∨ mark = '\x60') :
      readOn avoid .name 0 false [mark] = some (.plain, 0, false) := by
    obtain rfl | rfl := known <;>
      simp [readOn, Region.isGap, Region.isLoose, Region.next, Region.depth, isNameQuote]
  have marks : d.quoteMark = '\x22' ∨ d.quoteMark = '\x60' := by cases d <;> simp [Dialect.quoteMark]
  rw [quote_of_valid d name valid, Worded, opens _ marks,
    readOn_quoted (by simp) fun c found => (name_stays valid c found).1]
  exact ends _ marks

/-- A name in a literal is balanced. -/
theorem balanced_literal {name : String} (valid : Identifier.fault? name = none) :
    Balanced ('\x27' :: (name.toList ++ ['\x27'])) := by
  have read : readOn [] .plain 0 false ('\x27' :: (name.toList ++ ['\x27'])) =
      readOn [] .literal 0 false (name.toList ++ ['\x27']) := rfl
  rw [readOn_quoted (by simp) fun c found => (name_stays valid c found).2] at read
  exact closes_of_readOn (read.trans rfl)

/-- A number after a keyword is a word of its own. -/
private theorem worded_numbered {fresh : Bool} {word : String}
    (known : Worded ['W'] fresh word.toList true) (n : Nat) :
    Worded ['W'] fresh (word ++ toString n).toList false := by
  have digits : ∀ c ∈ Nat.toDigits 10 n, c.isDigit = true := fun c found =>
    Nat.isDigit_of_mem_toDigits (by omega) (by omega) found
  have free : ∀ c ∈ Nat.toDigits 10 n, c ∉ ['W'] := by
    rintro c found start
    obtain rfl := List.mem_singleton.mp start
    exact absurd (digits 'W' found) (by decide)
  have some : (Nat.toDigits 10 n).isEmpty = false := by
    rw [List.isEmpty_eq_false_iff]
    exact Nat.toDigits_ne_nil
  have number : Worded ['W'] true (Nat.toDigits 10 n) false := by
    have read := readOn_digits digits (fun _ : true = true => free) 0 []
    rwa [List.append_nil, some, Bool.and_false] at read
  have text : (word ++ toString n).toList = word.toList ++ Nat.toDigits 10 n := by simp
  rw [text]
  exact known.append number

/-- Limit and offset are well worded, and they end the tests before them. -/
theorem worded_limitOffset (d : Dialect) (limit offset : Option Nat) :
    Worded ['W'] false (d.limitOffset limit offset).toList false ∧
      Ends (d.limitOffset limit offset).toList := by
  have limited (n : Nat) : Worded ['W'] false (" LIMIT " ++ toString n).toList false ∧
      Ends (" LIMIT " ++ toString n).toList :=
    ⟨worded_numbered (by decide) n, .inr ⟨"LIMIT".toList, by decide, (toString n).toList, by simp⟩⟩
  have skipped (n : Nat) : Worded ['W'] false (" OFFSET " ++ toString n).toList false ∧
      Ends (" OFFSET " ++ toString n).toList :=
    ⟨worded_numbered (by decide) n, .inr ⟨"OFFSET".toList, by decide, (toString n).toList, by simp⟩⟩
  have after (unlimited : String) (n : Nat) (known : Worded ['W'] false unlimited.toList false)
      (ends : Ends unlimited.toList) :
      Worded ['W'] false (unlimited ++ " OFFSET " ++ toString n).toList false ∧
        Ends (unlimited ++ " OFFSET " ++ toString n).toList := by
    rw [String.append_assoc, String.toList_append]
    exact ⟨known.append (skipped n).1, ends.append (skipped n).2⟩
  have begins (count : String) : Ends (" LIMIT " ++ count).toList :=
    .inr ⟨"LIMIT".toList, by decide, count.toList, by simp⟩
  cases limit with
  | none =>
    cases offset with
    | none => exact ⟨.nil ['W'] false, .inl rfl⟩
    | some n =>
      cases d with
      | postgresql => exact after "" n (by decide) (.inl rfl)
      | sqlite => exact after " LIMIT -1" n (by decide) (begins "-1")
      | mysql version =>
        exact after " LIMIT 18446744073709551615" n (by decide) (begins "18446744073709551615")
      | mariadb version =>
        exact after " LIMIT 18446744073709551615" n (by decide) (begins "18446744073709551615")
  | some m =>
    cases offset with
    | none => exact limited m
    | some n => exact after (" LIMIT " ++ toString m) n (limited m).1 (limited m).2

namespace Draft

def Worded (d : Dialect) (avoid : List Char) (fresh : Bool) (draft : Draft) (ends : Bool) : Prop :=
  draft.failure? = none → Sql.Worded avoid fresh (draft.text d) ends

def Balanced (d : Dialect) (draft : Draft) : Prop := draft.failure? = none → Sql.Balanced (draft.text d)

variable {d : Dialect} {avoid : List Char} {fresh mid ends : Bool} {a b draft rest : Draft}

theorem Balanced.append (ha : Balanced d a) (hb : Balanced d b) : Balanced d (a ++ b) := by
  intro complete
  rw [failure?_append] at complete
  rw [text_append]
  exact balanced_append (ha complete.1) (hb complete.2)

theorem Balanced.separated {separator : String} {drafts : List Draft}
    (known : Sql.Balanced separator.toList) (h : ∀ draft ∈ drafts, Balanced d draft) :
    Balanced d (Draft.separated separator drafts) := by
  refine holds_separated (fun _ => rfl) (fun here there => here.append fun complete => ?_) h
  rw [failure?_cons] at complete
  rw [text_cons]
  exact balanced_append known (there complete.2)

namespace Worded

theorem balanced (h : Worded d avoid fresh draft ends) : Balanced d draft :=
  fun complete => (h complete).balanced

theorem mono {fewer : List Char} (h : Worded d avoid fresh draft ends) (less : fewer ⊆ avoid) :
    Worded d fewer fresh draft ends :=
  fun complete => (h complete).mono less

theorem nil : Worded d avoid fresh [] fresh := fun _ => .nil avoid fresh

theorem append (ha : Worded d avoid fresh a mid) (hb : Worded d avoid mid b ends) :
    Worded d avoid fresh (a ++ b) ends := by
  intro complete
  rw [failure?_append] at complete
  rw [text_append]
  exact (ha complete.1).append (hb complete.2)

/-- A draft that ends within a word, and one that goes on from there. -/
theorem followed (ha : Worded d avoid fresh a false) (hb : Worded d avoid false b ends) :
    Worded d avoid fresh (a ++ b) ends :=
  ha.append hb

theorem word {sql : String} (known : Sql.Worded avoid fresh sql.toList mid)
    (h : Worded d avoid mid rest ends) : Worded d avoid fresh (.text sql :: rest) ends := by
  intro complete
  rw [failure?_cons] at complete
  rw [text_cons]
  exact known.append (h complete.2)

/-- A word after which another one begins. -/
theorem spaced {sql : String} (known : Sql.Worded avoid fresh sql.toList true)
    (h : Worded d avoid true rest ends) : Worded d avoid fresh (.text sql :: rest) ends :=
  word known h

theorem name (apart : Apart avoid) (identifier : String) (h : Worded d avoid false rest ends) :
    Worded d avoid fresh (.name identifier :: rest) ends := by
  intro complete
  rw [failure?_cons] at complete
  rw [text_cons]
  have valid : Identifier.fault? identifier = none := by
    simpa [Step.failure?] using complete.1
  exact (worded_quote apart d valid fresh).append (h complete.2)

theorem bind (apart : Apart avoid) (value : DbValue) (h : Worded d avoid false rest ends) :
    Worded d avoid fresh (.bind value :: rest) ends := by
  intro complete
  rw [failure?_cons] at complete
  rw [text_cons]
  have sign : Sql.Worded avoid fresh "?".toList false := by
    simp [Sql.Worded, readOn, Region.isGap, Region.isLoose, Region.next, Region.depth, isNameQuote,
      apart.2.2]
  exact sign.append (h complete.2)

/-- A step that writes nothing. -/
theorem silent {step : Step} (written : step.sql d = "") (h : Worded d avoid fresh rest ends) :
    Worded d avoid fresh (step :: rest) ends := by
  intro complete
  rw [failure?_cons] at complete
  rw [text_cons, written]
  exact h complete.2

theorem qualified (apart : Apart avoid) (table column : String) :
    Worded d avoid fresh (Draft.qualified table column) false := by
  have point : Sql.Worded avoid false ".".toList false := by
    simp [Sql.Worded, readOn, Region.isGap, Region.isLoose, Region.next, Region.depth, isNameQuote]
  exact .name apart table (.word point (.name apart column .nil))

theorem column (apart : Apart avoid) (qualifier : Option String) (column : String) :
    Worded d avoid fresh (Draft.column qualifier column) false := by
  unfold Draft.column
  split
  · exact .qualified apart _ _
  · exact .qualified apart _ _
  · exact .name apart column .nil

theorem separated {separator : String} {drafts : List Draft} (some : drafts ≠ [])
    (known : Sql.Worded avoid false separator.toList true)
    (h : ∀ draft ∈ drafts, ∀ fresh, Worded d avoid fresh draft false) :
    Worded d avoid fresh (Draft.separated separator drafts) false := by
  induction drafts generalizing fresh with
  | nil => exact absurd rfl some
  | cons draft rest ih =>
    have here := h draft List.mem_cons_self fresh
    cases rest with
    | nil => exact here
    | cons next others =>
      refine here.append (.word known (ih (by simp) ?_))
      exact fun other found => h other (List.mem_cons_of_mem draft found)

/-- Drafts that each go on with the text are written one after the other. -/
theorem flatMap {f : α → Draft} {items : List α}
    (h : ∀ item ∈ items, Worded d avoid fresh (f item) fresh) :
    Worded d avoid fresh (items.flatMap f) fresh :=
  holds_flatMap (motive := fun draft => Worded d avoid fresh draft fresh) .nil append h

/-- A balanced draft may stand between texts that open and close its parentheses. -/
theorem enclosed {opening closing : String} (depth : Nat)
    (opens : readOn avoid .plain 0 fresh opening.toList = some (.plain, depth + 1, false))
    (inner : Balanced d draft)
    (close : readOn avoid .plain (depth + 1) false closing.toList = some (.plain, 0, mid))
    (h : Worded d avoid mid rest ends) :
    Worded d avoid fresh (Step.text opening :: (draft ++ Step.text closing :: rest)) ends := by
  intro complete
  simp only [failure?_cons, failure?_append] at complete
  obtain ⟨-, done, -, others⟩ := complete
  have all := (Sql.Worded.enclosed opens (inner done) close).append (h others)
  simpa [text_cons, text_append, Step.sql] using all

end Worded

/-- A draft that begins with the keyword of a clause ends the tests before it. -/
theorem ends_text {sql : String} (keyword more : String) (known : keyword.toList ∈ clauseWords)
    (shape : sql.toList = ' ' :: (keyword.toList ++ ' ' :: more.toList)) (rest : Draft) :
    Ends (Draft.text d (Step.text sql :: rest)) := by
  have text : ((Step.text sql).sql d).toList = ' ' :: (keyword.toList ++ ' ' :: more.toList) := shape
  rw [text_cons, text]
  exact .inr ⟨keyword.toList, known, more.toList ++ rest.text d, by simp⟩

/-- Whether what a draft writes has a WHERE of just the given tests, if the draft has no faults. -/
def Guarded (d : Dialect) (tests : List Draft) (draft : Draft) : Prop :=
  draft.failure? = none → Sql.Guarded (tests.map (Draft.text d)) (draft.text d)

end Draft

/-- Whether the WHERE of a finished statement joins by AND what some tests are written as, each with its
own placeholders numbered, and nothing else, and nothing by OR. -/
def Draft.Tests (d : Dialect) (tests : List Draft) (s : Statement) : Prop :=
  ∃ pieces, List.Forall₂ (Renders d) (tests.map (Draft.text d)) pieces ∧ Requires s.sql.toList pieces

/-- Nothing raw is allowed. -/
def Draft.Allowed.rawless : Draft.Allowed := ⟨fun _ => False, fun _ _ => True⟩

/-- A draft without raw texts becomes a statement with its tests. -/
theorem Draft.Guarded.finished {d : Dialect} {tests : List Draft} {draft : Draft} {s : Statement}
    (guarded : Guarded d tests draft) (written : Written .rawless draft)
    (done : Statement.ofDraft d draft = .ok s) : Tests d tests s := by
  obtain ⟨complete, rfl⟩ := (ofDraft_eq_ok_iff d draft s).mp done
  have tidy := tidy_of_written d (fun _ raw => absurd raw id) written complete
  obtain ⟨pieces, each, finished⟩ := (guarded complete).render tidy.unticked 0
  refine ⟨pieces, each, ?_⟩
  rw [toList_ofFragment]
  exact finished.requires

end EagerLoad.Sql
