import EagerLoad.Proofs.Cache.Filed
import EagerLoad.Proofs.Run.Cached

/-! # What a store that keeps to its tags holds

The caches are kept in order as with the memory store, but over any store that keeps to its tags: one that
may lose texts and refuse operations. An invalidation that it refuses still clears the request cache. -/
namespace EagerLoad

section Filed

variable {f : Filing σ} {serves : String → List Row → Prop} {stores : String → String → String → Prop}

/-- Something holds of all rows in the request cache, and something of all texts in the store with a tag
that they are registered under. -/
structure Filed (f : Filing σ) (serves : String → List Row → Prop)
    (stores : String → String → String → Prop) (s : State ε σ) : Prop where
  request : ∀ key rows, (key, rows) ∈ s.request.entries → serves key rows
  sound : f.sound s.store
  store : ∀ key text, f.readable s.store key text →
    ∃ tag, f.tagged s.store tag key ∧ stores tag key text

namespace Filed

variable {s s' : State ε σ}

theorem mono {servesMore : String → List Row → Prop} {storesMore : String → String → String → Prop}
    (h : Filed f serves stores s) (served : ∀ key rows, serves key rows → servesMore key rows)
    (stored : ∀ tag key text, stores tag key text → storesMore tag key text) :
    Filed f servesMore storesMore s where
  request key rows kept := served key rows (h.request key rows kept)
  sound := h.sound
  store key text kept := by
    obtain ⟨tag, listed, held⟩ := h.store key text kept
    exact ⟨tag, listed, stored tag key text held⟩

theorem dwindle (h : Filed f serves stores s) (request : s'.request = s.request)
    (dwindles : f.Dwindles s.store s'.store) : Filed f serves stores s' where
  request := by
    rw [request]
    exact h.request
  sound := dwindles.sound
  store key text kept := by
    obtain ⟨tag, listed, held⟩ := h.store key text (dwindles.readable key text kept)
    exact ⟨tag, dwindles.tagged tag key text kept listed, held⟩

theorem of_same (h : Filed f serves stores s) (request : s'.request = s.request)
    (store : s'.store = s.store) : Filed f serves stores s' :=
  h.dwindle request (by rw [store]; exact .refl h.sound)

theorem note (n : Notice) : Maintains (Filed f serves stores) (Run.note n : Run ε σ Unit) :=
  fun _ h => h.of_same rfl rfl

theorem follow (draft : Sql.Draft) : Maintains (Filed f serves stores) (Run.follow draft : Run ε σ Unit) :=
  fun _ h => h.of_same rfl rfl

theorem requestPut (h : Filed f serves stores s) {key : String} {rows : List Row} (generation : Nat)
    (served : serves key rows) : Filed f serves stores (Optimizer.requestPut key rows generation s).2 where
  request k kept listed := by
    simp only [Optimizer.requestPut, run_modify, RequestCache.put] at listed
    split at listed
    · rcases mem_upsert listed with written | earlier
      · obtain ⟨rfl, rfl⟩ := Prod.mk.inj written
        exact served
      · exact h.request k kept earlier
    · exact h.request k kept listed
  sound := h.sound
  store := h.store

variable {o : Optimizer ε σ} (files : ∀ ops, o.store = some ops → ops.Files f)
include files

/-- An invalidation leaves nothing in the request cache, and if the store does not refuse, only texts with
other tags. -/
theorem invalidate (h : Filed f serves stores s) (table : String) :
    Filed f (fun _ _ => False)
      (fun tag key text => ((o.invalidate table s).1 = .ok () → o.store.isSome = true → tag ≠ table) ∧
        stores tag key text)
      (o.invalidate table s).2 := by
  unfold Optimizer.invalidate
  cases present : o.store with
  | none =>
    refine ⟨fun key rows kept => absurd kept List.not_mem_nil, h.sound, fun key text kept => ?_⟩
    obtain ⟨tag, listed, held⟩ := h.store key text kept
    exact ⟨tag, listed, fun _ none => absurd none Bool.false_ne_true, held⟩
  | some ops =>
    have dwindles := (files ops present).flush s.clock table s.store h.sound
    have flushed := (files ops present).flushed s.clock table s.store
    obtain ⟨read, put, flushTags, flush⟩ := ops
    simp only [run_bind, run_modify, run_get, run_set]
    dsimp only at dwindles flushed
    generalize flushTags s.clock [table] s.store = answer at dwindles flushed ⊢
    rcases answer with ⟨e | n, store⟩
    · refine ⟨fun key rows kept => absurd kept List.not_mem_nil, dwindles.sound, fun key text kept => ?_⟩
      obtain ⟨tag, listed, held⟩ := h.store key text (dwindles.readable key text kept)
      refine ⟨tag, dwindles.tagged tag key text kept listed, ?_, held⟩
      intro (refused : Except.error e = .ok ())
      exact nomatch refused
    · refine ⟨fun key rows kept => absurd kept List.not_mem_nil, dwindles.sound, fun key text kept => ?_⟩
      obtain ⟨tag, listed, held⟩ := h.store key text (dwindles.readable key text kept)
      refine ⟨tag, dwindles.tagged tag key text kept listed, fun _ _ => ?_, held⟩
      rintro rfl
      exact flushed n key text h.sound rfl kept listed

theorem fetch (statement : Statement) (timeout : Option Duration) :
    Maintains (Filed f serves stores) (o.fetch statement timeout) := by
  apply Maintains.fetch
  · intro s e h
    exact h.of_same rfl rfl
  · intro table s h
    exact (h.invalidate files table).mono (fun _ _ never => never.elim) fun _ _ _ both => both.2

theorem execute (h : Filed f serves stores s) (p : Plan) (compiled : CompiledPlan) :
    Filed f serves stores (o.execute p compiled s).2 :=
  Maintains.execute (fetch files) note p compiled s h

theorem recover (h : Filed f serves stores s) (p : Plan) (layout : Layout) (e : ExecutionError) :
    Filed f serves stores (o.recover p layout e s).2 :=
  Maintains.recover (fetch files) note follow p layout e s h

/-- Rows found in the store are what one of its texts is read as. -/
theorem externalGet (h : Filed f serves stores s) (key : String) :
    Filed f serves stores (o.externalGet key s).2 ∧
      ∀ rows, (o.externalGet key s).1 = some rows →
        ∃ tag text, stores tag key text ∧ Rows.parse? text = some rows := by
  unfold Optimizer.externalGet
  cases present : o.store with
  | none => exact ⟨h, fun rows none => nomatch none⟩
  | some ops =>
    have dwindles := (files ops present).get s.clock key s.store h.sound
    have read := (files ops present).found s.clock key s.store
    obtain ⟨get, put, flushTags, flush⟩ := ops
    simp only [run_bind, run_get, run_set]
    dsimp only at dwindles read
    generalize get s.clock key s.store = answer at dwindles read ⊢
    have left (notices : List Notice) : Filed f serves stores { s with store := answer.2, notices } :=
      h.dwindle rfl dwindles
    rcases answer with ⟨_ | _ | text, store⟩
    · exact ⟨left _, fun rows none => nomatch none⟩
    · exact ⟨left _, fun rows none => nomatch none⟩
    · dsimp only
      cases parsed : Rows.parse? text with
      | none => exact ⟨left _, fun rows none => nomatch none⟩
      | some found =>
        refine ⟨left _, fun rows same => ?_⟩
        obtain ⟨tag, -, held⟩ := h.store key text (read text h.sound rfl)
        exact ⟨tag, text, held, parsed.trans same⟩

theorem externalPut (h : Filed f serves stores s) {key : String} {rows : List Row} (ttl : Duration)
    {tag : String} {tags : List String} (listed : tag ∈ tags)
    (held : o.store.isSome = true → stores tag key (Rows.text rows)) :
    Filed f serves stores (o.externalPut key rows ttl tags s).2 := by
  unfold Optimizer.externalPut
  cases present : o.store with
  | none => exact h
  | some ops =>
    have gains := (files ops present).put s.clock key (Rows.text rows) (some ttl) tags s.store h.sound
    rw [present] at held
    obtain ⟨get, put, flushTags, flush⟩ := ops
    simp only [run_bind, run_get, run_set]
    dsimp only at gains
    generalize put s.clock key (Rows.text rows) (some ttl) tags s.store = answer at gains ⊢
    have left (notices : List Notice) :
        Filed f serves stores { s with store := answer.2, notices } := by
      refine ⟨h.request, gains.sound, fun k x kept => ?_⟩
      rcases gains.readable k x kept with ⟨rfl, rfl, all⟩ | ⟨before, still⟩
      · exact ⟨tag, all tag listed, held rfl⟩
      · obtain ⟨other, known, holding⟩ := h.store k x before
        exact ⟨other, still other known, holding⟩
    rcases answer with ⟨_ | _, store⟩
    · exact left _
    · exact left _

/-- A run publishes its rows under its tags. -/
theorem publish (h : Filed f serves stores s) {p : Plan} {pending : Pending} {rows : List Row}
    {tag : String} (listed : tag ∈ Optimizer.cacheTags p)
    (served : ∀ key ttl, pending.cacheAs = some (key, ttl) →
      serves key rows ∧ (o.store.isSome = true → stores tag key (Rows.text rows))) :
    Filed f serves stores (o.publish p pending rows s).2 := by
  unfold Optimizer.publish
  cases cached : pending.cacheAs with
  | none => exact h
  | some entry =>
    obtain ⟨key, ttl⟩ := entry
    have both := served key ttl cached
    exact (h.requestPut pending.generation both.1).externalPut files ttl listed both.2

variable (read : ∀ tag key text rows, stores tag key text → Rows.parse? text = some rows →
    serves key rows)
include read

/-- What a beginning run comes to, and that both caches still hold what they should. -/
theorem begin (h : Filed f serves stores s) (p : Plan) :
    Filed f serves stores (o.begin p s).2 ∧ (o.begin p s).1.Fits o p serves s := by
  have followed : Filed f serves stores (Run.follow (p.trail (o.compiler s.memo)) s).2 :=
    follow _ s h
  cases compiled : p.compile (o.compiler s.memo) with
  | error e =>
    rw [Optimizer.begin_of_error compiled]
    exact ⟨followed, compiled⟩
  | ok c =>
    rw [Optimizer.begin_of_compiled compiled]
    unfold Optimizer.seek
    cases ttl : o.cacheTtl p with
    | none => exact ⟨followed, compiled, by rw [ttl]; rfl, rfl⟩
    | some ttl' =>
      have known : (o.cacheTtl p).isSome = true := by
        rw [ttl]
        rfl
      simp only [run_bind, run_get]
      cases found : (Run.follow (p.trail (o.compiler s.memo)) s).2.request.get? (o.keyOf p c) with
      | some rows =>
        have served := followed.request _ _ (mem_of_lookup found)
        exact ⟨note .requestHit _ followed, c, compiled, known, rfl, served⟩
      | none =>
        obtain ⟨kept, stored⟩ := followed.externalGet files (o.keyOf p c)
        simp only [run_bind]
        generalize o.externalGet (o.keyOf p c) (Run.follow (p.trail (o.compiler s.memo)) s).2 = answer
          at kept stored ⊢
        rcases answer with ⟨_ | rows, t⟩
        · exact ⟨kept, compiled, by rw [ttl]; rfl, rfl⟩
        · obtain ⟨tag, text, held, parsed⟩ := stored rows rfl
          have served := read tag _ text rows held parsed
          exact ⟨(note .externalHit t kept).requestPut _ served, c, compiled, known, rfl, served⟩

end Filed
end Filed
end EagerLoad
