import Coroutine.Proof.EventDispatch

/-!
# Which fiber waits for which event

A fiber that is registered for an event is handed to its scheduler by whoever takes the event with a
wake-up, and by nobody else.

* `consumeIf_wakes`: consuming an event wakes a fiber only if it waits for that event.
* `call_wakes`: a call wakes a fiber only if it takes an event that the fiber waits for.
-/

namespace Coroutine

open Lib

namespace IOManager

variable {κ : Type} {ctl : EpollCtl κ} {s s' : IOManager κ} {f : FiberPtr}

/-- Event `e` of context `p` is registered for fiber `f`. -/
def Awaits (s : IOManager κ) (f : FiberPtr) (p : ℕ) (e : Event) : Prop :=
  ∃ ctx ∈ (s.fdctx p).getContext e, ctx.fiber = some f

instance (s : IOManager κ) (f : FiberPtr) (p : ℕ) (e : Event) : Decidable (s.Awaits f p e) :=
  inferInstanceAs (Decidable (∃ ctx ∈ (s.fdctx p).getContext e, ctx.fiber = some f))

/-- How often a fiber has been handed to a scheduler. -/
def wakes (s : IOManager κ) (f : FiberPtr) : ℕ := (s.tasks.map (·.2)).count (.fiber f)

/-- The call takes event `e` of context `p` away with a wake-up: it cancels it, or the event loop has
it reported. -/
def Takes (s : IOManager κ) (p : ℕ) (e : Event) : EventOp → Prop
  | .cancelEvent fd e' => (s.slot fd).toOption = some p ∧ e' = e
  | .cancelAll fd => (s.slot fd).toOption = some p
  | .dispatch p' events => p' = p ∧ Reported events e
  | .addEvent _ _ _ _ | .delEvent _ _ => False

instance (s : IOManager κ) (p : ℕ) (e : Event) : DecidablePred (s.Takes p e)
  | .cancelEvent _ _ => inferInstanceAs (Decidable (_ ∧ _))
  | .cancelAll fd => inferInstanceAs (Decidable ((s.slot fd).toOption = some p))
  | .dispatch _ events => inferInstanceAs (Decidable (_ ∧ Reported events e))
  | .addEvent _ _ _ _ | .delEvent _ _ => inferInstanceAs (Decidable False)

/-- What a fiber waits for is registered. -/
theorem Awaits.has (hs : s.OK) {p : ℕ} {e : Event} (h : s.Awaits f p e) : (s.fdctx p).Has e := by
  obtain ⟨ctx, hc, hf⟩ := h
  by_contra hno
  rw [(hs.ctx p).free e ctx hc hno] at hf
  cases hf

theorem Awaits.event_mem {p : ℕ} {e : Event} (h : s.Awaits f p e) : e ∈ [Event.READ, .WRITE] := by
  obtain ⟨ctx, hc, -⟩ := h
  cases e with
  | NONE => cases hc
  | READ | WRITE => decide

/-- A fiber that waits for an event after another was dropped waited for it before. -/
theorem Awaits.of_dropAt {p q : ℕ} {e e' : Event} {t : Option (ℕ × FiberOrcb)}
    (h : (s.dropAt p e t).Awaits f q e') : s.Awaits f q e' := by
  obtain ⟨ctx, hc, hf⟩ := h
  by_cases hq : q = p
  · subst hq
    rw [dropAt_fdctx_self] at hc
    by_cases he : e' = e
    · subst he
      -- an event that is dropped has an empty context
      cases e' <;> cases hc
      · cases hf
      · cases hf
    · rw [FdContext.getContext_drop_of_ne he] at hc
      exact ⟨ctx, hc, hf⟩
  · rw [dropAt_fdctx_of_ne e t hq] at hc
    exact ⟨ctx, hc, hf⟩

/-- **Consuming an event** wakes a fiber only if it waits for it, and makes nobody wait. -/
theorem consumeIf_wakes (hs : s.OK) {b : Bool} {p : ℕ} {e : Event}
    (h : consumeIf b s p e = .ok s') :
    (s'.wakes f = s.wakes f ∨ s.Awaits f p e ∧ b = true) ∧
      ∀ q e', s'.Awaits f q e' → s.Awaits f q e' := by
  unfold consumeIf at h
  split at h
  · rename_i hb
    obtain ⟨ctx, sched, t, hc, -, -, ht, rfl⟩ := (consume_eq_ok hs).1 h
    refine ⟨?_, fun q e' => Awaits.of_dropAt⟩
    by_cases hf : t = .fiber f
    · refine Or.inr ⟨⟨ctx, hc, ?_⟩, hb⟩
      unfold EventContext.task at ht
      rw [hf] at ht
      cases hcb : ctx.cb with
      | some cb => rw [hcb] at ht; cases ht
      | none => rw [hcb] at ht; simpa using ht
    · left
      unfold wakes dropAt
      simp [List.count_append, hf]
  · cases h
    exact ⟨Or.inl rfl, fun _ _ => id⟩

/-- Both events of a context, where the kernel has accepted. -/
theorem consumeBoth_wakes (hs : s.OK) {k : κ} {b b' : Bool} {p : ℕ} {s₁ : IOManager κ}
    (h : consumeIf b (s.answer k) p .READ = .ok s₁) (h' : consumeIf b' s₁ p .WRITE = .ok s') :
    s'.wakes f = s.wakes f ∨ s.Awaits f p .READ ∧ b = true ∨ s.Awaits f p .WRITE ∧ b' = true := by
  have hanswer := answer_ok hs k
  obtain ⟨hwakes, hkeeps⟩ := consumeIf_wakes (f := f) hanswer h
  obtain ⟨hwakes', -⟩ := consumeIf_wakes (f := f) (consumeIf_ok hanswer h) h'
  rcases hwakes' with hsame' | ⟨hwaits, hb'⟩
  · rcases hwakes with hsame | ⟨hwaits, hb⟩
    · exact .inl (hsame'.trans hsame)
    · exact .inr (.inl ⟨hwaits, hb⟩)
  · exact .inr (.inr ⟨hkeeps p .WRITE hwaits, hb'⟩)

/-- **A call wakes a fiber** only by taking an event that it waits for. -/
theorem call_wakes (hs : s.OK) {op : EventOp} (h : op.call ctl s = .ok s') :
    s'.wakes f = s.wakes f ∨ ∃ p e, s.Awaits f p e ∧ s.Takes p e op := by
  cases op with
  | addEvent caller fd e cb =>
    obtain ⟨⟨rt, s₁⟩, ha, rfl⟩ := map_ok h
    obtain ⟨p, s₂, hl, hat⟩ := addEvent_ok ha
    obtain ⟨hs₂, -, -, -, htasks, -⟩ := lookup_ok hs hl
    have hwakes : s₂.wakes f = s.wakes f := by
      unfold wakes
      rw [htasks]
    left
    rcases addEventAt_cases hs₂ hat with ⟨-, -, rfl⟩ | ⟨-, -, -, -, rfl⟩
    · exact hwakes
    · exact hwakes
  | delEvent fd e =>
    obtain ⟨⟨b, s₁⟩, ha, rfl⟩ := map_ok h
    left
    rcases onTable_ok ha with ⟨-, rfl⟩ | ⟨p, -, hb⟩
    · rfl
    · rcases delEventAt_cases hb with ⟨-, rfl | ⟨-, -, rfl⟩⟩ | ⟨-, -, -, rfl⟩
      · rfl
      · rfl
      · -- the context is dropped without being triggered
        unfold wakes dropAt answer
        simp
  | cancelEvent fd e =>
    obtain ⟨⟨b, s₁⟩, ha, rfl⟩ := map_ok h
    rcases onTable_ok ha with ⟨-, rfl⟩ | ⟨p, hslot, hb⟩
    · exact .inl rfl
    · rcases cancelEventAt_cases hb with ⟨-, rfl | ⟨-, -, rfl⟩⟩ | ⟨-, -, -, hc⟩
      · exact .inl rfl
      · exact .inl rfl
      · have hone : consumeIf true (s.answer (dropAnswer ctl s p fd e.bits).2) p e = .ok s₁ := hc
        refine (consumeIf_wakes (answer_ok hs _) hone).1.imp id fun hwaits => ?_
        exact ⟨p, e, hwaits.1, by rw [hslot]; rfl, rfl⟩
  | cancelAll fd =>
    obtain ⟨⟨b, s₁⟩, ha, rfl⟩ := map_ok h
    rcases onTable_ok ha with ⟨-, rfl⟩ | ⟨p, hslot, hb⟩
    · exact .inl rfl
    · have htakes : (s.slot fd).toOption = some p := by rw [hslot]; rfl
      rcases cancelAllAt_cases hb with ⟨-, rfl | ⟨-, -, rfl⟩⟩ | ⟨-, -, -, -, s₂, h1, h2⟩
      · exact .inl rfl
      · exact .inl rfl
      · refine (consumeBoth_wakes hs h1 h2).imp id ?_
        rintro (⟨hwaits, -⟩ | ⟨hwaits, -⟩)
        · exact ⟨p, .READ, hwaits, htakes⟩
        · exact ⟨p, .WRITE, hwaits, htakes⟩
  | dispatch p events =>
    obtain ⟨⟨calls, s₁⟩, ha, rfl⟩ := map_ok h
    rcases dispatch_cases.1 ha with ⟨-, -, rfl⟩ | ⟨-, -, -, rfl⟩ | ⟨-, -, -, s₂, h1, h2⟩
    · exact .inl rfl
    · exact .inl rfl
    · refine (consumeBoth_wakes hs h1 h2).imp id ?_
      rintro (⟨hwaits, hrep⟩ | ⟨hwaits, hrep⟩)
      · exact ⟨p, .READ, hwaits, rfl, of_decide_eq_true hrep⟩
      · exact ⟨p, .WRITE, hwaits, rfl, of_decide_eq_true hrep⟩

end IOManager

end Coroutine
