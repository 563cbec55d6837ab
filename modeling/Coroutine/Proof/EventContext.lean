import Coroutine.Spec.Event

/-!
# One `FdContext`

`FdContext.OK`: the mask holds no bits but those of `READ` and `WRITE`; an event whose
bit is set has exactly one of fiber and callback, one whose bit is not set has an empty
context. On such a context every way an event is consumed is the same change, `drop`
(`trigger_eq_ok`), and registering is `add`.
-/

namespace Coroutine

/-- The number of bits set in a mask. -/
def bitCount (m : BitVec 32) : ℕ := (List.range 32).countP fun i => m.getLsbD i

/-- A mask of `READ` and `WRITE`. -/
def IsMask (m : BitVec 32) : Prop := m = 0 ∨ m = 1 ∨ m = 4 ∨ m = 5

/-- What an event context runs: its callback, or else its fiber. -/
def EventContext.task (ctx : EventContext) : Option FiberOrcb :=
  match ctx.cb with
  | some f => some (.cb f)
  | none => ctx.fiber.map .fiber

namespace FdContext

variable {c : FdContext} {e : Event}

/-- The event's bit is set in `m_events`. -/
def Has (c : FdContext) (e : Event) : Prop := c.m_events &&& e.bits ≠ 0

instance (c : FdContext) (e : Event) : Decidable (c.Has e) := inferInstanceAs (Decidable (_ ≠ _))

/-- **A well-formed context.** -/
structure OK (c : FdContext) : Prop where
  mask : IsMask c.m_events
  used : ∀ e ctx, c.getContext e = some ctx → c.Has e → ctx.fiber.isSome = !ctx.cb.isSome
  free : ∀ e ctx, c.getContext e = some ctx → ¬ c.Has e → ctx = {}

/-- Take an event out. -/
def drop (c : FdContext) (e : Event) : FdContext :=
  { c with m_events := c.m_events &&& ~~~ e.bits }.setContext e {}

/-- Put an event in. -/
def add (c : FdContext) (e : Event) (ctx : EventContext) : FdContext :=
  { c with m_events := c.m_events ||| e.bits }.setContext e ctx

theorem not_has_none : ¬ c.Has .NONE := by simp [Has, Event.bits]

@[simp] theorem drop_m_events : (c.drop e).m_events = c.m_events &&& ~~~ e.bits := by
  cases e <;> rfl

@[simp] theorem add_m_events {ctx : EventContext} :
    (c.add e ctx).m_events = c.m_events ||| e.bits := by
  cases e <;> rfl

theorem getContext_drop_of_ne {e' : Event} (h : e' ≠ e) :
    (c.drop e).getContext e' = c.getContext e' := by
  cases e <;> cases e' <;> first | rfl | exact absurd rfl h

theorem getContext_add_of_ne {e' : Event} {ctx : EventContext} (h : e' ≠ e) :
    (c.add e ctx).getContext e' = c.getContext e' := by
  cases e <;> cases e' <;> first | rfl | exact absurd rfl h

theorem getContext_add_self {ctx : EventContext} (he : e ≠ .NONE) :
    (c.add e ctx).getContext e = some ctx := by
  cases e <;> first | rfl | exact absurd rfl he

theorem getContext_isSome (he : e ≠ .NONE) : ∃ ctx, c.getContext e = some ctx := by
  cases e <;> first | exact ⟨_, rfl⟩ | exact absurd rfl he

/-! ## Masks -/

theorem isMask_drop (h : IsMask c.m_events) : IsMask (c.drop e).m_events := by
  rw [drop_m_events]
  rcases h with h | h | h | h <;> rw [h] <;> cases e <;> unfold IsMask <;> decide

theorem isMask_add (h : IsMask c.m_events) {ctx : EventContext} : IsMask (c.add e ctx).m_events := by
  rw [add_m_events]
  rcases h with h | h | h | h <;> rw [h] <;> cases e <;> unfold IsMask <;> decide

/-- Dropping an event clears its bit and no other. -/
theorem has_drop (h : IsMask c.m_events) {e' : Event} : (c.drop e).Has e' ↔ e' ≠ e ∧ c.Has e' := by
  unfold Has
  rw [drop_m_events]
  rcases h with h | h | h | h <;> rw [h] <;> cases e <;> cases e' <;> decide

/-- Adding an event sets its bit and no other. -/
theorem has_add (h : IsMask c.m_events) (he : e ≠ .NONE) {e' : Event} {ctx : EventContext} :
    (c.add e ctx).Has e' ↔ e' = e ∨ c.Has e' := by
  unfold Has
  rw [add_m_events]
  rcases h with h | h | h | h <;> rw [h] <;> cases e <;> cases e' <;>
    first | decide | exact absurd rfl he

theorem bitCount_drop (h : IsMask c.m_events) (hh : c.Has e) :
    bitCount (c.drop e).m_events + 1 = bitCount c.m_events := by
  unfold Has at hh
  rw [drop_m_events]
  rcases h with h | h | h | h <;> rw [h] at hh ⊢ <;> cases e <;>
    first | decide | exact absurd (by decide) hh

theorem bitCount_add (h : IsMask c.m_events) (he : e ≠ .NONE) (hh : ¬ c.Has e) {ctx : EventContext} :
    bitCount (c.add e ctx).m_events = bitCount c.m_events + 1 := by
  unfold Has at hh
  rw [add_m_events]
  rcases h with h | h | h | h <;> rw [h] at hh ⊢ <;> cases e <;>
    first | decide | exact absurd (by decide) hh | exact absurd rfl he

/-- A set bit counts. -/
theorem bitCount_pos (h : IsMask c.m_events) (hh : c.Has e) : 0 < bitCount c.m_events := by
  have := bitCount_drop h hh
  omega

/-! ## The two changes keep a context well formed -/

theorem ok_empty {fd : Int32} : ({ fd := fd } : FdContext).OK := by
  refine ⟨Or.inl rfl, ?_, ?_⟩
  · intro e ctx _ h; cases e <;> exact absurd h (by simp [Has])
  · intro e ctx h _
    cases e <;> simp only [getContext, Option.some.injEq, reduceCtorEq] at h <;> exact h.symm

theorem drop_ok (h : c.OK) : (c.drop e).OK := by
  refine ⟨isMask_drop h.mask, ?_, ?_⟩
  · intro e' ctx hc hh
    obtain ⟨hne, hh⟩ := (has_drop h.mask).1 hh
    rw [getContext_drop_of_ne hne] at hc
    exact h.used e' ctx hc hh
  · intro e' ctx hc hh
    by_cases hne : e' = e
    · subst hne
      cases he : e' with
      | NONE => rw [he] at hc; cases hc
      | READ => rw [he] at hc; cases hc; rfl
      | WRITE => rw [he] at hc; cases hc; rfl
    · rw [getContext_drop_of_ne hne] at hc
      exact h.free e' ctx hc fun hh' => hh ((has_drop h.mask).2 ⟨hne, hh'⟩)

theorem add_ok (h : c.OK) (he : e ≠ .NONE) {ctx : EventContext}
    (hctx : ctx.fiber.isSome = !ctx.cb.isSome) : (c.add e ctx).OK := by
  refine ⟨isMask_add h.mask, ?_, ?_⟩
  · intro e' ctx' hc hh
    by_cases hne : e' = e
    · subst hne
      rw [getContext_add_self he, Option.some.injEq] at hc
      subst hc; exact hctx
    · rw [getContext_add_of_ne hne] at hc
      exact h.used e' ctx' hc (((has_add h.mask he).1 hh).resolve_left hne)
  · intro e' ctx' hc hh
    rw [has_add h.mask he, not_or] at hh
    rw [getContext_add_of_ne hh.1] at hc
    exact h.free e' ctx' hc hh.2

/-- The context of a set bit has something to run. -/
theorem task_isSome (h : c.OK) {ctx : EventContext} (hc : c.getContext e = some ctx) (hh : c.Has e) :
    ∃ t, ctx.task = some t := by
  have hx := h.used e ctx hc hh
  unfold EventContext.task
  cases hcb : ctx.cb with
  | some f => exact ⟨_, rfl⟩
  | none =>
    rw [hcb] at hx
    obtain ⟨f, hf⟩ := Option.isSome_iff_exists.1 (by simpa using hx)
    exact ⟨.fiber f, by simp [hf]⟩

/-- **`triggerEvent` on a well-formed context**: it is defined exactly when the bit is
set and the scheduler is not null, and then it drops the event and hands its task over. -/
theorem trigger_eq_ok (h : c.OK) {r : FdContext × ℕ × Option FiberOrcb} :
    c.triggerEvent e = .ok r ↔ ∃ ctx sched, c.getContext e = some ctx ∧ c.Has e ∧
      ctx.scheduler = some sched ∧ r = (c.drop e, sched, ctx.task) := by
  unfold triggerEvent
  by_cases hh : c.Has e
  · rw [if_neg hh]
    have he : e ≠ .NONE := by rintro rfl; exact not_has_none hh
    obtain ⟨ctx, hc⟩ : ∃ ctx, c.getContext e = some ctx := getContext_isSome he
    have hc' : ({ c with m_events := c.m_events &&& ~~~ e.bits } : FdContext).getContext e =
        some ctx := by cases e <;> exact hc
    have hx := h.used e ctx hc hh
    simp only [hc', hc]
    cases hs : ctx.scheduler with
    | none => simp [hs]
    | some sched =>
      -- either way both fields of the context are empty afterwards
      cases hcb : ctx.cb with
      | some f =>
        have hf : ctx.fiber = none := by rw [hcb] at hx; simpa using hx
        simp [hh, hs, hf, hcb, EventContext.task, drop, eq_comm]
      | none => simp [hh, hs, hcb, EventContext.task, drop, eq_comm]
  · rw [if_pos (by simpa [Has] using hh)]
    simp [hh]

end FdContext

end Coroutine
