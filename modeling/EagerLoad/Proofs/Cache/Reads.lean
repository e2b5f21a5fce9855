import EagerLoad.Proofs.Cache.Standing

/-! # What a memory store gives back

A memory store is called over and over while time passes. What it gives back under a key follows from the
calls alone: the text that was put last, unless it has expired, was forgotten or was flushed with a tag that
the key was registered under. A past lists the calls from the latest one on. -/
namespace EagerLoad.MemoryStore

inductive Call where
  | get (key : String)
  | put (key text : String) (ttl : Option Duration) (tags : List String)
  | forget (key : String)
  | flushTags (tags : List String)
  | flush
  | purge

/-- A call and the time at which it is made. -/
structure Event where
  now : Clock
  call : Call

/-- The store after a call. -/
def after (now : Clock) (s : MemoryStore) : Call → MemoryStore
  | .get key => (s.get now key).2
  | .put key text ttl tags => s.put now key text ttl tags
  | .forget key => (s.forget key).1
  | .flushTags tags => (s.flushTags now tags).1
  | .flush => (ops.flush now s).2
  | .purge => (s.purge now).1

/-- The calls to a new store, the latest one first, the time of the latest one, and what they have made of
the store. Time passes between the calls and never goes back. -/
inductive History : List Event → Clock → MemoryStore → Prop
  | start (now : Clock) : History [] now {}
  | call {past before s} (earlier : History past before s) {now : Clock} (later : before ≤ now)
      (call : Call) : History (⟨now, call⟩ :: past) now (s.after now call)

/-- What a call puts under a key. The tags of what it overwrites stay, unless that has expired. -/
def Event.written? (e : Event) (key : String) (standing : Option Standing) : Option Standing :=
  match e.call with
  | .put k text ttl tags =>
    if k = key then
      some ⟨⟨text, ttl.map fun d => e.now + d.totalNanos⟩,
        tags ++ (current (·.entry) e.now standing).elim [] (·.tags)⟩
    else none
  | _ => none

/-- Whether a call ends what stands under a key that is registered under some tags. -/
def Call.ends (key : String) (registered : List String) : Call → Bool
  | put k _ _ _ => k = key
  | forget k => k = key
  | flushTags tags => tags.any registered.contains
  | flush => true
  | get _ | purge => false

/-- What stands under a key after the calls of a past, expired or not. -/
def standing (key : String) : List Event → Option Standing
  | [] => none
  | e :: past =>
    (e.written? key (standing key past)).or
      ((standing key past).filter fun x => !e.call.ends key x.tags)

variable {s : MemoryStore} {now : Clock}

/-! ## What all calls leave -/

theorem Distinct.after (distinct : s.Distinct) (now : Clock) (call : Call) :
    (s.after now call).Distinct := by
  cases call with
  | get key => exact distinct.get now key
  | put key text ttl tags => exact distinct.put now key text ttl tags
  | forget key => exact distinct.forget key
  | flushTags tags => exact distinct.flushTags now tags
  | flush => exact distinct_empty
  | purge => exact distinct.purged now

section Filter

variable {call : Call} {key : String}

theorem Call.filter_eq_self (kept : ∀ tags, call.ends key tags = false) (x : Option Standing) :
    (x.filter fun x => !call.ends key x.tags) = x := by
  cases x with
  | none => rfl
  | some x => rw [Option.filter_some, kept]; rfl

theorem Call.filter_eq_none (ended : ∀ tags, call.ends key tags = true) (x : Option Standing) :
    (x.filter fun x => !call.ends key x.tags) = none := by
  cases x with
  | none => rfl
  | some x => rw [Option.filter_some, ended]; rfl

end Filter

/-- A call leaves under a key what it puts there, or else what stood there and it does not end. -/
theorem Shows.after (distinct : s.Distinct) {key : String} {x : Option Standing}
    (shows : s.Shows now key (current (·.entry) now x)) (call : Call) :
    (s.after now call).Shows now key (current (·.entry) now
      ((Event.written? ⟨now, call⟩ key x).or (x.filter fun x => !call.ends key x.tags))) := by
  cases call with
  | get k =>
    rw [Call.filter_eq_self fun _ => rfl]
    exact shows.get k
  | purge =>
    rw [Call.filter_eq_self fun _ => rfl]
    exact shows.purged distinct
  | flush =>
    rw [Call.filter_eq_none fun _ => rfl]
    rfl
  | flushTags tags =>
    change MemoryStore.Shows _ _ _ (current (·.entry) now (x.filter fun x => !tags.any x.tags.contains))
    rw [current_filter]
    exact shows.flushTags distinct tags
  | forget k =>
    by_cases same : k = key
    · have ended : ∀ tags, (Call.forget k).ends key tags = true := fun _ => decide_eq_true same
      rw [Call.filter_eq_none ended, same]
      exact forget_same now key
    · have kept : ∀ tags, (Call.forget k).ends key tags = false := fun _ => decide_eq_false same
      rw [Call.filter_eq_self kept]
      exact shows.forget_other (Ne.symm same)
  | put k text ttl tags =>
    by_cases same : k = key
    · subst same
      have written := shows.put_same distinct text ttl tags
      have unexpired (tags : List String) :
          current (·.entry) now
              (some (⟨⟨text, ttl.map fun d => now + d.totalNanos⟩, tags⟩ : Standing)) =
            some ⟨⟨text, ttl.map fun d => now + d.totalNanos⟩, tags⟩ :=
        current_some (not_isExpired_put now text ttl)
      simp only [Event.written?, if_true, Option.some_or, unexpired]
      exact written
    · have kept (added : List String) : (Call.put k text ttl tags).ends key added = false :=
        decide_eq_false same
      rw [Call.filter_eq_self kept]
      simp only [Event.written?, if_neg same, Option.none_or]
      exact shows.put_other distinct (Ne.symm same) text ttl tags

variable {past : List Event}

theorem History.shows (history : History past now s) :
    s.Distinct ∧ ∀ key, s.Shows now key (current (·.entry) now (standing key past)) := by
  induction history with
  | start now => exact ⟨distinct_empty, fun key => rfl⟩
  | @call past before s _ now passed call ih =>
    obtain ⟨distinct, shows⟩ := ih
    refine ⟨distinct.after now call, fun key => ?_⟩
    have later := (shows key).later passed
    rw [current_later passed] at later
    exact Shows.after distinct later call

theorem get_fst (s : MemoryStore) (now : Clock) (key : String) :
    (s.get now key).1 = (s.live now key).map (·.text) := by
  unfold MemoryStore.get live
  cases found : s.entries.lookup key with
  | none => rfl
  | some e =>
    dsimp only
    cases expired : e.isExpired now with
    | true => rw [if_pos rfl, current_eq_none expired]; rfl
    | false => rw [current_some expired]; rfl

/-- What is read under a key is what stands there, unless it has expired. -/
theorem History.get_fst (history : History past now s) {t : Clock} (passed : now ≤ t)
    (key : String) :
    (s.get t key).1 = (current (·.entry) t (standing key past)).map (·.entry.text) := by
  have shows := (history.shows.2 key).later passed
  rw [current_later passed] at shows
  rw [MemoryStore.get_fst]
  cases there : current (·.entry) t (standing key past) with
  | none =>
    rw [there] at shows
    have nothing : s.live t key = none := shows
    rw [nothing]
    rfl
  | some x =>
    rw [there] at shows
    rw [shows.1]
    rfl

/-! ## What the calls say -/

/-- The tags that a key is registered under. -/
def registeredTags (key : String) (past : List Event) : List String :=
  (standing key past).elim [] (·.tags)

def Call.puts (key : String) : Call → Bool
  | put k _ _ _ => k = key
  | _ => false

theorem Event.written?_eq_none {e : Event} {key : String} (unput : e.call.puts key = false)
    (x : Option Standing) : e.written? key x = none := by
  obtain ⟨now, call⟩ := e
  cases call with
  | put k text ttl tags => exact if_neg (of_decide_eq_false unput)
  | _ => rfl

theorem Call.puts_of_not_ends {call : Call} {key : String} {tags : List String}
    (kept : call.ends key tags = false) : call.puts key = false := by
  cases call with
  | put k text ttl tags => exact kept
  | _ => rfl

/-- Calls that do not put anything under a key leave what stands there or end it. -/
theorem standing_append {key : String} {later : List Event}
    (unput : ∀ e ∈ later, e.call.puts key = false) (past : List Event) :
    standing key (later ++ past) =
      (standing key past).filter fun x => later.all fun e => !e.call.ends key x.tags := by
  induction later with
  | nil =>
    rw [List.nil_append]
    cases standing key past <;> rfl
  | cons e later ih =>
    obtain ⟨here, below⟩ := List.forall_mem_cons.mp unput
    rw [List.cons_append, standing, Event.written?_eq_none here, Option.none_or, ih below]
    cases standing key past with
    | none => rfl
    | some x =>
      cases ended : e.call.ends key x.tags <;>
        cases rest : later.all fun e => !e.call.ends key x.tags <;>
          simp [Option.filter_some, ended, rest]

/-- What stands under a key was written by a call that no later one has undone. -/
theorem standing_eq_some_iff {key : String} {x : Standing} :
    standing key past = some x ↔ ∃ later e earlier, past = later ++ e :: earlier ∧
      e.written? key (standing key earlier) = some x ∧
      ∀ e ∈ later, e.call.ends key x.tags = false := by
  constructor
  · intro stands
    induction past with
    | nil => exact nomatch stands
    | cons e past ih =>
      rw [standing, Option.or_eq_some_iff] at stands
      obtain written | ⟨-, kept⟩ := stands
      · exact ⟨[], e, past, rfl, written, by simp⟩
      · obtain ⟨before, unended⟩ := Option.filter_eq_some_iff.mp kept
        obtain ⟨later, first, earlier, rfl, written, below⟩ := ih before
        have here : e.call.ends key x.tags = false := by simpa using unended
        exact ⟨e :: later, first, earlier, rfl, written, List.forall_mem_cons.mpr ⟨here, below⟩⟩
  · rintro ⟨later, e, earlier, rfl, written, kept⟩
    rw [standing_append fun e found => Call.puts_of_not_ends (kept e found), standing, written,
      Option.some_or, Option.filter_some, if_pos]
    simpa using kept

theorem Event.written?_eq_some_iff {e : Event} {key : String} {before : Option Standing}
    {x : Standing} :
    e.written? key before = some x ↔ ∃ text ttl tags, e = ⟨e.now, .put key text ttl tags⟩ ∧
      x = ⟨⟨text, ttl.map fun d => e.now + d.totalNanos⟩,
        tags ++ (current (·.entry) e.now before).elim [] (·.tags)⟩ := by
  constructor
  · intro written
    obtain ⟨now, call⟩ := e
    cases call with
    | put k text ttl tags =>
      change (if k = key then some _ else none) = some x at written
      obtain ⟨rfl, same⟩ := Option.ite_none_right_eq_some.mp written
      obtain rfl := Option.some.inj same
      exact ⟨text, ttl, tags, rfl, rfl⟩
    | _ => exact nomatch written
  · rintro ⟨text, ttl, tags, same, rfl⟩
    rw [same]
    exact if_pos rfl

theorem registeredTags_written (key text : String) (ttl : Option Duration) (tags : List String)
    (now : Clock) (past : List Event) :
    registeredTags key (⟨now, .put key text ttl tags⟩ :: past) =
      tags ++ (current (·.entry) now (standing key past)).elim [] (·.tags) := by
  simp [registeredTags, standing, Event.written?]

theorem standing_put (key text : String) (ttl : Option Duration) (tags : List String) (now : Clock)
    (past : List Event) :
    standing key (⟨now, .put key text ttl tags⟩ :: past) =
      some ⟨⟨text, ttl.map fun d => now + d.totalNanos⟩,
        registeredTags key (⟨now, .put key text ttl tags⟩ :: past)⟩ := by
  simp [registeredTags, standing, Event.written?]

theorem isExpired_put_iff {at₀ t : Clock} {text : String} {ttl : Option Duration} :
    StoreEntry.isExpired ⟨text, ttl.map fun d => at₀ + d.totalNanos⟩ t = false ↔
      ∀ d, ttl = some d → t ≤ at₀ + d.totalNanos := by
  cases ttl with
  | none => exact iff_of_true rfl nofun
  | some d =>
    rw [Option.map_some, not_isExpired_iff]
    constructor
    · intro passed d' same
      rw [← Option.some.inj same]
      exact passed
    · intro all
      exact all d rfl

section Read

variable {t : Clock} (passed : now ≤ t)
include passed

/-- What is read was put last and has not expired, and no later call has ended it. -/
theorem History.get_eq_some_iff (history : History past now s) (key text : String) :
    (s.get t key).1 = some text ↔
      ∃ later at₀ ttl tags earlier, past = later ++ ⟨at₀, .put key text ttl tags⟩ :: earlier ∧
        (∀ d, ttl = some d → t ≤ at₀ + d.totalNanos) ∧
        ∀ e ∈ later, e.call.ends key
          (registeredTags key (⟨at₀, .put key text ttl tags⟩ :: earlier)) = false := by
  rw [history.get_fst passed, Option.map_eq_some_iff]
  constructor
  · rintro ⟨x, shown, rfl⟩
    obtain ⟨stands, unexpired⟩ := Option.filter_eq_some_iff.mp shown
    obtain ⟨later, e, earlier, rfl, written, kept⟩ := standing_eq_some_iff.mp stands
    obtain ⟨text, ttl, tags, same, rfl⟩ := Event.written?_eq_some_iff.mp written
    refine ⟨later, e.now, ttl, tags, earlier, by rw [← same], ?_, ?_⟩
    · exact isExpired_put_iff.mp (by simpa using unexpired)
    · rw [registeredTags_written]
      exact kept
  · rintro ⟨later, at₀, ttl, tags, earlier, rfl, unexpired, kept⟩
    rw [registeredTags_written] at kept
    have stands := standing_eq_some_iff.mpr ⟨later, ⟨at₀, .put key text ttl tags⟩, earlier, rfl,
      Event.written?_eq_some_iff.mpr ⟨text, ttl, tags, rfl, rfl⟩, kept⟩
    exact ⟨_, (congrArg (current (·.entry) t) stands).trans
      (current_some (isExpired_put_iff.mpr unexpired)), rfl⟩

/-- What is overwritten while it can be read leaves its tags to what overwrites it. -/
theorem History.registeredTags_put (history : History past now s) (key text : String)
    (ttl : Option Duration) (tags : List String) :
    registeredTags key (⟨t, .put key text ttl tags⟩ :: past) =
      tags ++ if (s.get t key).1.isSome then registeredTags key past else [] := by
  rw [registeredTags_written, history.get_fst passed, registeredTags]
  cases standing key past with
  | none => rfl
  | some x =>
    cases expired : x.entry.isExpired t with
    | true => rw [current_eq_none expired]; rfl
    | false => rw [current_some expired]; rfl

/-- No key outlives a flush of a tag that it was last put with. -/
theorem History.get_of_flushed (history : History past now s) {key : String} {later between : List Event}
    {at₁ at₀ : Clock} {text : String} {ttl : Option Duration} {flushed tags : List String}
    {earlier : List Event}
    (split : past = later ++ ⟨at₁, .flushTags flushed⟩ :: between ++
      ⟨at₀, .put key text ttl tags⟩ :: earlier)
    (last : ∀ e ∈ later ++ between, e.call.puts key = false)
    (shared : ∃ tag ∈ flushed, tag ∈ tags) : (s.get t key).1 = none := by
  have unput : ∀ e ∈ later ++ ⟨at₁, .flushTags flushed⟩ :: between, e.call.puts key = false := by
    intro e found
    rw [List.mem_append, List.mem_cons] at found
    obtain here | rfl | here := found
    · exact last e (List.mem_append_left between here)
    · rfl
    · exact last e (List.mem_append_right later here)
  have gone : standing key past = none := by
    rw [split, standing_append unput, standing_put]
    obtain ⟨tag, named, listed⟩ := shared
    have registered : tag ∈ registeredTags key (⟨at₀, .put key text ttl tags⟩ :: earlier) := by
      rw [registeredTags_written]
      exact List.mem_append_left _ listed
    apply Option.filter_some.trans
    apply if_neg
    intro kept
    have ended := List.all_eq_true.mp kept ⟨at₁, .flushTags flushed⟩ (by simp)
    have clash : flushed.any (registeredTags key
        (⟨at₀, .put key text ttl tags⟩ :: earlier)).contains = true :=
      List.any_eq_true.mpr ⟨tag, named, List.contains_iff_mem.mpr registered⟩
    simp [Call.ends, clash] at ended
  rw [history.get_fst passed, gone]
  rfl

end Read

namespace Edited

/-- A page is put for good and edited a moment later, for one minute. -/
def calls : List Event :=
  [⟨2, .put "page" "edited" (some ⟨60, 0⟩) ["posts"]⟩, ⟨1, .put "page" "draft" none ["authors"]⟩]

def store : MemoryStore :=
  (MemoryStore.put {} 1 "page" "draft" none ["authors"]).put 2 "page" "edited" (some ⟨60, 0⟩) ["posts"]

theorem made : History calls 2 store :=
  .call (.call (.start 0) (Nat.zero_le 1) (.put "page" "draft" none ["authors"])) (Nat.le_succ 1)
    (.put "page" "edited" (some ⟨60, 0⟩) ["posts"])

def flushed : MemoryStore := (store.flushTags 5 ["authors", "posts"]).1

theorem made_flushed : History (⟨5, .flushTags ["authors", "posts"]⟩ :: calls) 5 flushed :=
  made.call (by decide) (.flushTags ["authors", "posts"])

end Edited

/-- The tags that a key was last put with. -/
def lastTags (key : String) (past : List Event) : List String :=
  (past.findSome? fun e =>
    match e.call with
    | .put k _ _ tags => if k = key then some tags else none
    | _ => none).getD []

/-- The tags of all that was overwritten under a key while it could be read. -/
def overwritten (key : String) : List Event → List String
  | [] => []
  | e :: past =>
    (if e.call.puts key && (current (·.entry) e.now (standing key past)).isSome then
      lastTags key past
    else []) ++ overwritten key past

/-- Whether all that was ever overwritten under a key counts for what is there, also after the key was
forgotten or flushed. -/
def RegistersForGood : Prop :=
  ∀ past now s, History past now s → ∀ t, now ≤ t → ∀ key text,
    (s.get t key).1 = some text ↔
      ∃ later at₀ ttl tags earlier, past = later ++ ⟨at₀, .put key text ttl tags⟩ :: earlier ∧
        (∀ d, ttl = some d → t ≤ at₀ + d.totalNanos) ∧
        ∀ e ∈ later, e.call.ends key
          (tags ++ overwritten key (⟨at₀, .put key text ttl tags⟩ :: earlier)) = false

namespace Recreated

/-- A key is put twice, forgotten and put once more. Then the tag that it was first put with is flushed. -/
def calls : List Event :=
  [⟨0, .flushTags ["x"]⟩, ⟨0, .put "a" "3" none ["z"]⟩, ⟨0, .forget "a"⟩,
    ⟨0, .put "a" "2" none ["y"]⟩, ⟨0, .put "a" "1" none ["x"]⟩]

def store : MemoryStore :=
  calls.foldr (fun e s => s.after e.now e.call) {}

theorem made : History calls 0 store := by
  have step {past s} (earlier : History past 0 s) (call : Call) :
      History (⟨0, call⟩ :: past) 0 (s.after 0 call) := earlier.call (Nat.le_refl 0) call
  exact step (step (step (step (step (.start 0) _) _) _) _) _

end Recreated

end EagerLoad.MemoryStore
